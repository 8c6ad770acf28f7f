import RangeRules.Proofs.Token.Lexemes

/-!
# Longest match

What it is to split a text by longest match, said without the scanner: layout is dropped, and each
lexeme is one that no longer lexeme begins with at its place. The classes of lexemes are those of
the grammar's words, numbers, operators and punctuation. A text splits in one way only, and this is
what the scanner finds.
-/
namespace RangeRules.Token

/-- Operators and punctuation: the first character, the others and the kind. -/
def marks : List (Char × List Char × Kind) := [
  ('+', [], .operator (.arithmetic .add)),
  ('-', [], .operator (.arithmetic .sub)),
  ('*', [], .operator (.arithmetic .mul)),
  ('/', [], .operator (.arithmetic .div)),
  ('<', [], .operator (.comparison .lt)),
  ('<', ['='], .operator (.comparison .le)),
  ('>', [], .operator (.comparison .gt)),
  ('>', ['='], .operator (.comparison .ge)),
  ('=', ['='], .operator (.comparison .eq)),
  ('!', ['='], .operator (.comparison .ne)),
  ('=', [], .assign),
  (':', [], .colon),
  ('.', [], .dot),
  ('(', [], .lparen),
  (')', [], .rparen)]

/-- A text that is a lexeme, and its kind. -/
inductive IsLexeme : List Char → Kind → Prop where
  | word {c : Char} {cs : List Char} (start : isWordStart c = true)
    (chars : ∀ d ∈ cs, isWordChar d = true) : IsLexeme (c :: cs) (.ofWord (String.ofList (c :: cs)))
  | whole {d : Char} {ds : List Char} (digits : ∀ e ∈ d :: ds, e.isDigit = true) :
    IsLexeme (d :: ds) (.number (d :: ds))
  | fraction {d e : Char} {ds es : List Char} (digits : ∀ e ∈ d :: ds, e.isDigit = true)
    (decimals : ∀ d ∈ e :: es, d.isDigit = true) :
    IsLexeme (d :: (ds ++ '.' :: e :: es)) (.number (d :: (ds ++ '.' :: e :: es)))
  | mark {c : Char} {s : List Char} {k : Kind} (h : (c, s, k) ∈ marks) : IsLexeme (c :: s) k

/-- Splits into tokens of some kinds, by longest match. -/
inductive Lexes : List Char → List Kind → Prop where
  | nil : Lexes [] []
  | blank {c : Char} {cs : List Char} {ks : List Kind} (h : isSpace c = true) (rest : Lexes cs ks) :
    Lexes (c :: cs) ks
  /-- A comment goes on to the end of its line. -/
  | comment {note cs : List Char} {ks : List Kind} (line : ∀ c ∈ note, isLineEnd c = false)
    (finish : ∀ c ∈ cs.head?, isLineEnd c = true) (rest : Lexes cs ks) :
    Lexes ('/' :: '/' :: (note ++ cs)) ks
  | lexeme {s cs : List Char} {k : Kind} {ks : List Kind} (noComment : ¬ ['/', '/'] <+: s ++ cs)
    (h : IsLexeme s k) (longest : ∀ t k', IsLexeme t k' → t <+: s ++ cs → t.length ≤ s.length)
    (rest : Lexes cs ks) : Lexes (s ++ cs) (k :: ks)
  /-- A character that begins neither layout nor a lexeme. -/
  | stray {c : Char} {cs : List Char} {ks : List Kind} (blank : isSpace c = false)
    (h : ∀ t k, IsLexeme t k → ¬ t <+: c :: cs) (rest : Lexes cs ks) :
    Lexes (c :: cs) (.stray c :: ks)

/-- The lexeme that the scanner reads. -/
def lexemeAt (c : Char) (cs : List Char) : List Char := c :: cs.take (classify c cs).2

theorem lexemeAt_append_drop (c : Char) (cs : List Char) :
    lexemeAt c cs ++ cs.drop (classify c cs).2 = c :: cs := by
  simp [lexemeAt]

theorem classify_of_isWordStart {c : Char} (h : isWordStart c = true) (cs : List Char) :
    classify c cs = (.ofWord (String.ofList (c :: cs.takeWhile isWordChar)),
      (cs.takeWhile isWordChar).length) := if_pos h

theorem classify_of_isDigit {c : Char} (h : c.isDigit = true) (cs : List Char) :
    classify c cs =
      let n := (cs.takeWhile Char.isDigit).length +
        fractionLength (cs.drop (cs.takeWhile Char.isDigit).length)
      (.number (c :: cs.take n), n) := by
  unfold classify
  rw [if_neg (not_isWordStart_of_isDigit h), if_pos h]

theorem take_length_takeWhile (p : Char → Bool) (cs : List Char) :
    cs.take (cs.takeWhile p).length = cs.takeWhile p :=
  (List.prefix_iff_eq_take.1 (List.takeWhile_prefix p)).symm

/-! ### What the scanner reads is a lexeme -/

theorem isLexeme_of_isWordStart {c : Char} (h : isWordStart c = true) (cs : List Char) :
    IsLexeme (lexemeAt c cs) (classify c cs).1 := by
  unfold lexemeAt
  rw [classify_of_isWordStart h, take_length_takeWhile]
  exact .word h fun _ => List.mem_takeWhile_imp

/-- The fraction of a number, where it has one, is a point with all the digits after it. -/
theorem take_fractionLength (cs : List Char) : cs.take (fractionLength cs) = [] ∨
    ∃ e es, cs.take (fractionLength cs) = '.' :: e :: es ∧ ∀ d ∈ e :: es, d.isDigit = true := by
  unfold fractionLength
  split
  · next cs =>
    split
    · exact .inl rfl
    · next hne =>
      cases hdigits : cs.takeWhile Char.isDigit with
      | nil => exact absurd hdigits hne
      | cons e es =>
        refine .inr ⟨e, es, ?_, ?_⟩
        · rw [List.take_succ_cons, ← hdigits, take_length_takeWhile]
        · rw [← hdigits]
          exact fun _ => List.mem_takeWhile_imp
  · exact .inl rfl

theorem isLexeme_of_isDigit {c : Char} (h : c.isDigit = true) (cs : List Char) :
    IsLexeme (lexemeAt c cs) (classify c cs).1 := by
  have hdigits : ∀ e ∈ c :: cs.takeWhile Char.isDigit, e.isDigit = true := by
    intro e he
    obtain rfl | he := List.mem_cons.1 he
    · exact h
    · exact List.mem_takeWhile_imp he
  unfold lexemeAt
  rw [classify_of_isDigit h]
  dsimp only
  rw [List.take_add, take_length_takeWhile]
  obtain hnone | ⟨e, es, hfraction, hdecimals⟩ :=
    take_fractionLength (cs.drop (cs.takeWhile Char.isDigit).length)
  · rw [hnone, List.append_nil]
    exact .whole hdigits
  · rw [hfraction]
    exact .fraction hdigits hdecimals

/-- A mark is written as the table says, unless the character begins none. -/
theorem mem_marks (c : Char) (cs : List Char) :
    (c, cs.take (mark c cs.head?).2, (mark c cs.head?).1) ∈ marks ∨
      mark c cs.head? = (.stray c, 0) := by
  have hequals (h : cs.head? = some '=') : cs.take 1 = ['='] := by
    obtain ⟨rest, rfl⟩ := List.head?_eq_some_iff.1 h
    rfl
  unfold mark
  split <;> (try split) <;> simp [marks, *]

/-- The scanner reads a lexeme, or a character that is none. -/
theorem isLexeme_lexemeAt (c : Char) (cs : List Char) :
    IsLexeme (lexemeAt c cs) (classify c cs).1 ∨ classify c cs = (.stray c, 0) := by
  by_cases hc : isWordStart c = true
  · exact .inl (isLexeme_of_isWordStart hc cs)
  · by_cases hd : c.isDigit = true
    · exact .inl (isLexeme_of_isDigit hd cs)
    · have hclassify : classify c cs = mark c cs.head? := by
        unfold classify
        rw [if_neg hc, if_neg hd]
      unfold lexemeAt
      rw [hclassify]
      exact (mem_marks c cs).imp_left IsLexeme.mark

/-! ### No lexeme is longer -/

theorem le_fractionLength {e : Char} {es : List Char} (decimals : ∀ d ∈ e :: es, d.isDigit = true)
    (tail : List Char) : es.length + 2 ≤ fractionLength ('.' :: (e :: es ++ tail)) := by
  have hdigits := @List.takeWhile_append_of_pos _ Char.isDigit (e :: es) tail decimals
  simp only [List.cons_append] at hdigits
  simp only [fractionLength, hdigits, List.cons_append, List.length_cons, List.length_append]
  omega

/-- A mark is read with the sign that it may have. -/
theorem marks_eq : ∀ m ∈ marks, (mark m.1 m.2.1.head?).1 = m.2.2 ∧
    (m.2.1 = [] ∨ m.2.1 = ['='] ∧ (mark m.1 (some '=')).2 = 1) := by
  decide

/-- Marks begin like no blank, word or number. -/
theorem marks_start : ∀ m ∈ marks,
    isSpace m.1 = false ∧ isWordStart m.1 = false ∧ m.1.isDigit = false := by
  decide

theorem classify_of_mem_marks {c : Char} {s : List Char} {k : Kind} (h : (c, s, k) ∈ marks)
    (cs : List Char) : classify c cs = mark c cs.head? := by
  obtain ⟨-, hc, hd⟩ := marks_start _ h
  unfold classify
  rw [hc, hd]
  rfl

/-- A lexeme is no longer than what the scanner reads where it stands. -/
theorem IsLexeme.le_classify {c : Char} {s : List Char} {k : Kind} (h : IsLexeme (c :: s) k)
    (tail : List Char) : s.length ≤ (classify c (s ++ tail)).2 := by
  generalize hs : c :: s = s' at h
  cases h with
  | word start chars =>
    obtain ⟨rfl, rfl⟩ := List.cons.inj hs
    rw [classify_of_isWordStart start, List.takeWhile_append_of_pos chars, List.length_append]
    exact Nat.le_add_right ..
  | whole digits =>
    obtain ⟨rfl, rfl⟩ := List.cons.inj hs
    obtain ⟨hc, hdigits⟩ := List.forall_mem_cons.1 digits
    rw [classify_of_isDigit hc, List.takeWhile_append_of_pos hdigits]
    simp only [List.length_append]
    omega
  | @fraction d e ds es digits decimals =>
    obtain ⟨rfl, rfl⟩ := List.cons.inj hs
    obtain ⟨hc, hdigits⟩ := List.forall_mem_cons.1 digits
    have hpoint : ('.' :: (e :: es ++ tail)).takeWhile Char.isDigit = [] := rfl
    have hfraction := le_fractionLength decimals tail
    rw [classify_of_isDigit hc, List.append_assoc, List.cons_append,
      List.takeWhile_append_of_pos hdigits, hpoint, List.append_nil, List.drop_left]
    simp only [List.length_append, List.length_cons]
    omega
  | mark h =>
    obtain ⟨rfl, rfl⟩ := List.cons.inj hs
    rw [classify_of_mem_marks h]
    obtain ⟨-, hs | ⟨hs, hlength⟩⟩ := marks_eq _ h
    · dsimp only at hs
      rw [hs]
      exact Nat.zero_le _
    · dsimp only at hs hlength
      rw [hs]
      exact hlength.ge

/-- The scanner gives a lexeme its kind. -/
theorem IsLexeme.kind_eq {c : Char} {s : List Char} {k : Kind} (h : IsLexeme (c :: s) k) :
    (classify c s).1 = k := by
  have hle := h.le_classify []
  rw [List.append_nil] at hle
  generalize hs : c :: s = s' at h
  cases h with
  | word start chars =>
    obtain ⟨rfl, rfl⟩ := List.cons.inj hs
    rw [classify_of_isWordStart start, List.takeWhile_eq_self_iff.2 chars]
  | whole digits =>
    obtain ⟨rfl, rfl⟩ := List.cons.inj hs
    rw [classify_of_isDigit (digits _ List.mem_cons_self)] at hle ⊢
    dsimp only at hle ⊢
    rw [List.take_of_length_le hle]
  | fraction digits decimals =>
    obtain ⟨rfl, rfl⟩ := List.cons.inj hs
    rw [classify_of_isDigit (digits _ List.mem_cons_self)] at hle ⊢
    dsimp only at hle ⊢
    rw [List.take_of_length_le hle]
  | mark h =>
    obtain ⟨rfl, rfl⟩ := List.cons.inj hs
    rw [classify_of_mem_marks h]
    exact (marks_eq _ h).1

/-- What begins no lexeme for the scanner is no lexeme. -/
theorem not_isLexeme_of_stray {c : Char} {cs : List Char} (h : classify c cs = (.stray c, 0))
    {s : List Char} {k : Kind} (hstart : s <+: cs) : ¬ IsLexeme (c :: s) k := by
  intro hlexeme
  obtain ⟨tail, rfl⟩ := hstart
  have hle := hlexeme.le_classify tail
  rw [h] at hle
  obtain rfl := List.length_eq_zero_iff.1 (Nat.le_zero.1 hle)
  generalize hs : [c] = s at hlexeme
  cases hlexeme with
  | word start _ =>
    obtain ⟨rfl, -⟩ := List.cons.inj hs
    have hword := isWord_ofWord (String.ofList (c :: tail.takeWhile isWordChar))
    rw [List.nil_append, classify_of_isWordStart start] at h
    rw [(Prod.mk.inj h).1] at hword
    exact nomatch hword
  | whole digits =>
    obtain ⟨rfl, -⟩ := List.cons.inj hs
    rw [classify_of_isDigit (digits _ List.mem_cons_self)] at h
    exact nomatch (Prod.mk.inj h).1
  | fraction digits _ =>
    obtain ⟨rfl, -⟩ := List.cons.inj hs
    rw [classify_of_isDigit (digits _ List.mem_cons_self)] at h
    exact nomatch (Prod.mk.inj h).1
  | mark hmem =>
    obtain ⟨rfl, rfl⟩ := List.cons.inj hs
    rw [classify_of_mem_marks hmem] at h
    unfold mark at h
    split at h <;> (try split at h) <;> simp_all [marks]

/-! ### A text splits in one way -/

theorem IsLexeme.exists_cons {s : List Char} {k : Kind} (h : IsLexeme s k) : ∃ c t, s = c :: t := by
  cases h <;> exact ⟨_, _, rfl⟩

theorem eq_of_isSpace {c : Char} (h : isSpace c = true) :
    c = ' ' ∨ c = '\t' ∨ c = '\r' ∨ c = '\n' := of_decide_eq_true h

theorem not_isSpace_of_isWordStart {c : Char} (h : isWordStart c = true) : isSpace c = false := by
  by_contra hspace
  obtain rfl | rfl | rfl | rfl := eq_of_isSpace (eq_true_of_ne_false hspace) <;>
    exact absurd h (by decide)

theorem not_isSpace_of_isDigit {c : Char} (h : c.isDigit = true) : isSpace c = false := by
  by_contra hspace
  obtain rfl | rfl | rfl | rfl := eq_of_isSpace (eq_true_of_ne_false hspace) <;>
    exact absurd h (by decide)

theorem IsLexeme.not_isSpace {c : Char} {s : List Char} {k : Kind} (h : IsLexeme (c :: s) k) :
    isSpace c = false := by
  generalize hs : c :: s = s' at h
  cases h with
  | word start _ =>
    obtain ⟨rfl, -⟩ := List.cons.inj hs
    exact not_isSpace_of_isWordStart start
  | whole digits =>
    obtain ⟨rfl, -⟩ := List.cons.inj hs
    exact not_isSpace_of_isDigit (digits _ List.mem_cons_self)
  | fraction digits _ =>
    obtain ⟨rfl, -⟩ := List.cons.inj hs
    exact not_isSpace_of_isDigit (digits _ List.mem_cons_self)
  | mark h =>
    obtain ⟨rfl, -⟩ := List.cons.inj hs
    exact (marks_start _ h).1

/-- The lexeme that the scanner reads is the longest. -/
theorem IsLexeme.length_le {s : List Char} {k : Kind} (h : IsLexeme s k) {c : Char} {cs : List Char}
    (hstart : s <+: c :: cs) : s.length ≤ (lexemeAt c cs).length := by
  obtain ⟨d, t, rfl⟩ := h.exists_cons
  obtain ⟨tail, heq⟩ := hstart
  obtain ⟨rfl, rfl⟩ := List.cons.inj heq
  have hle := h.le_classify tail
  simp only [lexemeAt, List.append_eq, List.length_cons, List.length_take, List.length_append]
  omega

/-- The longest lexeme of a place is the one that the scanner reads. -/
theorem next?_of_longest {c : Char} {s cs : List Char} {k : Kind} (h : IsLexeme (c :: s) k)
    (longest : ∀ t k', IsLexeme t k' → t <+: c :: s ++ cs → t.length ≤ (c :: s).length) :
    next? (c :: s ++ cs) = some (k, cs) := by
  obtain hread | hstray := isLexeme_lexemeAt c (s ++ cs)
  · have hsplit := lexemeAt_append_drop c (s ++ cs)
    have hstart : lexemeAt c (s ++ cs) <+: c :: s ++ cs := ⟨_, hsplit⟩
    have hlength : (lexemeAt c (s ++ cs)).length = (c :: s).length :=
      le_antisymm (longest _ _ hread hstart) (h.length_le (List.prefix_append ..))
    have hsame : lexemeAt c (s ++ cs) = c :: s :=
      (List.prefix_of_prefix_length_le hstart (List.prefix_append ..) hlength.le).eq_of_length
        hlength
    rw [hsame] at hread hsplit
    have hkind : (classify c (s ++ cs)).1 = k := hread.kind_eq.symm.trans h.kind_eq
    have hrest : (s ++ cs).drop (classify c (s ++ cs)).2 = cs := List.append_cancel_left hsplit
    rw [List.cons_append, next?, hkind, hrest]
  · exact absurd h (not_isLexeme_of_stray hstray (List.prefix_append ..))

theorem kinds_blank {c : Char} (h : isSpace c = true) (cs : List Char) :
    kinds (c :: cs) = kinds cs := by
  rw [← kinds_skip (c :: cs), ← kinds_skip cs, splitLayout, if_pos h]

theorem kinds_comment (cs : List Char) :
    kinds ('/' :: '/' :: cs) = kinds (cs.dropWhile fun c => !isLineEnd c) := by
  have hlayout : (splitLayout ('/' :: '/' :: cs)).2 = (splitComment cs).2 := rfl
  rw [← kinds_skip ('/' :: '/' :: cs), hlayout, splitComment_dropWhile, kinds_skip]

theorem settled_of_not_comment {c : Char} {cs : List Char} (hspace : isSpace c = false)
    (hcomment : ¬ ['/', '/'] <+: c :: cs) : Settled (c :: cs) := by
  unfold Settled
  rw [splitLayout, if_neg (by simp [hspace]), if_neg]
  rintro ⟨rfl, hhead⟩
  obtain ⟨rest, rfl⟩ := List.head?_eq_some_iff.1 hhead
  exact hcomment ⟨rest, rfl⟩

theorem kinds_of_lexes {cs : List Char} {ks : List Kind} (h : Lexes cs ks) : kinds cs = ks := by
  induction h with
  | nil => rw [kinds_eq]; rfl
  | blank h rest ih => rw [kinds_blank h, ih]
  | @comment note cs ks line finish rest ih =>
    have hline : ∀ c ∈ note, (!isLineEnd c) = true := by
      intro c hc
      rw [line c hc]
      rfl
    have hstop : cs.dropWhile (fun c => !isLineEnd c) = cs := by
      cases cs with
      | nil => rfl
      | cons c cs => exact List.dropWhile_cons_of_neg (by simp [finish c rfl])
    rw [kinds_comment, List.dropWhile_append_of_pos hline, hstop, ih]
  | lexeme noComment h longest rest ih =>
    obtain ⟨c, s, rfl⟩ := h.exists_cons
    have hsettled : Settled (c :: s ++ _) := settled_of_not_comment h.not_isSpace noComment
    rw [hsettled.kinds_eq, next?_of_longest h longest]
    dsimp only
    rw [ih]
  | @stray c cs ks blank h rest ih =>
    have hcomment : ¬ ['/', '/'] <+: c :: cs := by
      rintro ⟨tail, heq⟩
      obtain ⟨rfl, -⟩ := List.cons.inj heq
      exact h ['/'] _ (.mark (by decide : ('/', [], .operator (.arithmetic .div)) ∈ marks)) ⟨_, rfl⟩
    have hclassify : classify c cs = (.stray c, 0) :=
      (isLexeme_lexemeAt c cs).resolve_left fun hread =>
        h _ _ hread ⟨_, lexemeAt_append_drop c cs⟩
    rw [(settled_of_not_comment blank hcomment).kinds_eq, next?, hclassify, List.drop_zero]
    dsimp only
    rw [ih]

/-- A comment is dropped with all of its line. -/
theorem Lexes.line {cs : List Char} {ks : List Kind}
    (h : Lexes (cs.dropWhile fun c => !isLineEnd c) ks) : Lexes ('/' :: '/' :: cs) ks := by
  have hcomment := @Lexes.comment (cs.takeWhile fun c => !isLineEnd c) _ ks ?_ ?_ h
  · rwa [List.takeWhile_append_dropWhile] at hcomment
  · intro c hc
    simpa using List.mem_takeWhile_imp hc
  · intro c hc
    obtain ⟨rest, hrest⟩ := List.head?_eq_some_iff.1 hc
    have hne : cs.dropWhile (fun c => !isLineEnd c) ≠ [] := by simp [hrest]
    have hhead := List.head_dropWhile_not (fun c => !isLineEnd c) hne
    simpa [hrest] using hhead

/-- The scanner finds the split. -/
theorem lexes_kinds (cs : List Char) : Lexes cs (kinds cs) := by
  induction hlength : cs.length using Nat.strong_induction_on generalizing cs with
  | _ n ih =>
  subst hlength
  cases cs with
  | nil =>
    rw [kinds_eq]
    exact .nil
  | cons c cs =>
    by_cases hspace : isSpace c = true
    · rw [kinds_blank hspace]
      exact .blank hspace (ih _ (Nat.lt_succ_self _) cs rfl)
    by_cases hcomment : ['/', '/'] <+: c :: cs
    · obtain ⟨note, heq⟩ := hcomment
      have hle := (List.dropWhile_suffix (fun c => !isLineEnd c) (l := note)).length_le
      rw [← heq] at ih ⊢
      simp only [List.cons_append, List.nil_append] at ih ⊢
      rw [kinds_comment]
      refine .line (ih _ ?_ _ rfl)
      simp only [List.length_cons]
      omega
    have hspace' : isSpace c = false := eq_false_of_ne_true hspace
    have hrest := ih _ ?_ (cs.drop (classify c cs).2) rfl
    · rw [(settled_of_not_comment hspace' hcomment).kinds_eq, next?]
      dsimp only
      obtain hread | hstray := isLexeme_lexemeAt c cs
      · have hsplit := lexemeAt_append_drop c cs
        have hlexes := Lexes.lexeme (hsplit.symm ▸ hcomment) hread
          (fun t k' ht hstart => ht.length_le (hsplit ▸ hstart)) hrest
        rwa [hsplit] at hlexes
      · rw [hstray] at hrest ⊢
        refine .stray hspace' ?_ hrest
        intro t k ht hstart
        obtain ⟨d, s, rfl⟩ := ht.exists_cons
        obtain ⟨tail, heq⟩ := hstart
        obtain ⟨rfl, rfl⟩ := List.cons.inj heq
        exact not_isLexeme_of_stray hstray (List.prefix_append ..) ht
    · simp only [List.length_drop, List.length_cons]
      omega

/-- A text splits in one way by longest match, and the scanner finds it. -/
theorem lexes_iff {cs : List Char} {ks : List Kind} : Lexes cs ks ↔ kinds cs = ks :=
  ⟨kinds_of_lexes, fun h => h ▸ lexes_kinds cs⟩

end RangeRules.Token
