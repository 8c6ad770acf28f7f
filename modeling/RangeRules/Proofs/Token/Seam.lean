import RangeRules.Proofs.Token.LongestMatch
import RangeRules.Proofs.Token.Placement

/-!
# Texts cut and joined

A text may be cut in front of any of its tokens, and another text may be added on a line of its own:
the parts are scanned as they are in the whole. A lexeme is read from its own characters if it ends
among them, and it never goes on over a blank; a comment ends with its line.
-/
namespace RangeRules

namespace Text

theorem splitBytes?_append (before after : Source) :
    splitBytes? (byteCount before) (before ++ after) = some (before, after) := by
  induction before with
  | nil =>
    rw [byteCount, List.nil_append, splitBytes?]
  | cons c cs ih =>
    obtain ⟨n, hn⟩ := Nat.exists_eq_succ_of_ne_zero (byteCount_cons_pos c cs).ne'
    have hle : c.utf8Size ≤ n.succ := hn ▸ Nat.le_add_right ..
    have hrest : n.succ - c.utf8Size = byteCount cs := by
      rw [← hn, byteCount, Nat.add_sub_cancel_left]
    rw [hn, List.cons_append, splitBytes?, if_pos hle, hrest, ih]
    · rfl
    · exact Nat.succ_ne_zero n

/-- The characters between two others are the slice that they take. -/
theorem slice?_append (before inside after : Source) :
    slice? (before ++ (inside ++ after))
      ⟨byteCount before, byteCount before + byteCount inside⟩ = some inside := by
  unfold slice?
  dsimp only
  rw [if_pos (Nat.le_add_right ..), Nat.add_sub_cancel_left, splitBytes?_append]
  change (splitBytes? (byteCount inside) (inside ++ after) >>= fun r => some r.1) = some inside
  rw [splitBytes?_append]
  rfl

end Text

namespace Token

open Text (byteCount Source)

/-! ### Layout -/

theorem settled_nil : Settled [] := rfl

theorem settled_cons {c : Char} {cs : List Char} :
    Settled (c :: cs) ↔ isSpace c = false ∧ ¬ (c = '/' ∧ cs.head? = some '/') := by
  unfold Settled
  rw [splitLayout]
  by_cases hspace : isSpace c = true
  · rw [if_pos hspace]
    simp [hspace]
  · by_cases hslash : c = '/' ∧ cs.head? = some '/'
    · rw [if_neg hspace, if_pos hslash]
      simp [hslash]
    · rw [if_neg hspace, if_neg hslash]
      simp [hspace, hslash]

/-- A text that begins with a lexeme still does when it is cut after its first character. -/
theorem Settled.of_append {c : Char} {s t : List Char} (h : Settled (c :: (s ++ t))) :
    Settled (c :: s) := by
  rw [settled_cons] at h ⊢
  refine ⟨h.1, fun hslash => h.2 ⟨hslash.1, ?_⟩⟩
  rw [List.head?_append, hslash.2]
  rfl

theorem Settled.append {c : Char} {s t : List Char} (h : Settled (c :: s))
    (ht : t.head? ≠ some '/') : Settled (c :: (s ++ t)) := by
  rw [settled_cons] at h ⊢
  refine ⟨h.1, fun hslash => ?_⟩
  cases s with
  | nil => exact ht hslash.2
  | cons d s => exact h.2 hslash

theorem head?_splitComment (c : Char) (cs : List Char) :
    (splitComment (c :: cs)).1.head? = some c := by
  rw [splitComment]
  rfl

/-- Layout that has come to an end: blanks, and comments each with the end of its line. -/
inductive IsGap : List Char → Prop where
  | nil : IsGap []
  | blank {c : Char} {gap : List Char} (h : isSpace c = true) (rest : IsGap gap) : IsGap (c :: gap)
  | comment {note gap : List Char} {c : Char} (line : ∀ d ∈ note, isLineEnd d = false)
    (h : isLineEnd c = true) (rest : IsGap gap) : IsGap ('/' :: '/' :: (note ++ c :: gap))

theorem splitComment_append_line {note : List Char} (line : ∀ d ∈ note, isLineEnd d = false)
    {c : Char} (h : isLineEnd c = true) (cs : List Char) : splitComment (note ++ c :: cs) =
      (note ++ c :: (splitLayout cs).1, (splitLayout cs).2) := by
  induction note with
  | nil => rw [List.nil_append, splitComment, if_pos h, List.nil_append]
  | cons d note ih =>
    obtain ⟨hd, line⟩ := List.forall_mem_cons.1 line
    rw [List.cons_append, splitComment, if_neg (Bool.eq_false_iff.1 hd), ih line, List.cons_append]

/-- What has come to an end does not go on with the text after it. -/
theorem IsGap.splitLayout_append {gap : List Char} (h : IsGap gap) (cs : List Char) :
    splitLayout (gap ++ cs) = (gap ++ (splitLayout cs).1, (splitLayout cs).2) := by
  induction h with
  | nil => rfl
  | blank h rest ih => rw [List.cons_append, splitLayout, if_pos h, ih, List.cons_append]
  | @comment note gap c line h rest ih =>
    have htext : '/' :: '/' :: (note ++ c :: gap) ++ cs =
        '/' :: '/' :: (note ++ c :: (gap ++ cs)) := by
      simp
    have hsplit : splitLayout ('/' :: '/' :: (note ++ c :: (gap ++ cs))) =
        ('/' :: '/' :: (splitComment (note ++ c :: (gap ++ cs))).1,
          (splitComment (note ++ c :: (gap ++ cs))).2) := rfl
    rw [htext, hsplit, splitComment_append_line line h, ih]
    simp

mutual

/-- Layout with something after it has come to an end. -/
theorem isGap_splitLayout : ∀ cs, (splitLayout cs).2 ≠ [] → IsGap (splitLayout cs).1
  | [], h => absurd rfl h
  | c :: cs, h => by
    have hl := isGap_splitLayout cs
    have hc := exists_of_splitComment cs
    rw [splitLayout] at h ⊢
    by_cases hspace : isSpace c = true
    · rw [if_pos hspace] at h ⊢
      exact .blank hspace (hl h)
    · by_cases hslash : c = '/' ∧ cs.head? = some '/'
      · rw [if_neg hspace, if_pos hslash] at h ⊢
        obtain ⟨rfl, hhead⟩ := hslash
        obtain ⟨rest, rfl⟩ := List.head?_eq_some_iff.1 hhead
        obtain ⟨note, d, gap, hsplit, line, hd, hgap⟩ := hc h
        dsimp only
        rw [hsplit]
        cases note with
        | nil =>
          -- The second slash is no line end.
          have hfirst := head?_splitComment '/' rest
          rw [hsplit] at hfirst
          obtain rfl := Option.some.inj hfirst
          exact nomatch hd
        | cons e note =>
          have hfirst := head?_splitComment '/' rest
          rw [hsplit] at hfirst
          obtain rfl := Option.some.inj hfirst
          exact .comment (List.forall_mem_cons.1 line).2 hd hgap
      · rw [if_neg hspace, if_neg hslash]
        exact .nil

theorem exists_of_splitComment : ∀ cs, (splitComment cs).2 ≠ [] → ∃ note c gap,
    (splitComment cs).1 = note ++ c :: gap ∧ (∀ d ∈ note, isLineEnd d = false) ∧
      isLineEnd c = true ∧ IsGap gap
  | [], h => absurd rfl h
  | c :: cs, h => by
    have hl := isGap_splitLayout cs
    have hc := exists_of_splitComment cs
    rw [splitComment] at h ⊢
    by_cases hline : isLineEnd c = true
    · rw [if_pos hline] at h ⊢
      exact ⟨[], c, _, rfl, nofun, hline, hl h⟩
    · rw [if_neg hline] at h ⊢
      obtain ⟨note, d, gap, hsplit, line, hd, hgap⟩ := hc h
      dsimp only
      rw [hsplit]
      exact ⟨c :: note, d, gap, rfl, List.forall_mem_cons.2 ⟨eq_false_of_ne_true hline, line⟩, hd,
        hgap⟩

end

/-- Layout is read as such in front of any text that begins without. -/
theorem splitLayout_before {u : List Char} (hu : Settled u) {cs : List Char}
    (h : (splitLayout cs).2 ≠ []) :
    splitLayout ((splitLayout cs).1 ++ u) = ((splitLayout cs).1, u) := by
  rw [(isGap_splitLayout cs h).splitLayout_append, hu, List.append_nil]

mutual

/-- A line feed ends the layout's last line, whether or not that is a comment. -/
theorem splitLayout_line (q : List Char) : ∀ p, (splitLayout p).2 = [] →
    splitLayout (p ++ '\n' :: q) = (p ++ '\n' :: (splitLayout q).1, (splitLayout q).2)
  | [], _ => rfl
  | c :: cs, h => by
    have hl := splitLayout_line q cs
    have hc := splitComment_line q cs
    rw [splitLayout] at h
    by_cases hspace : isSpace c = true
    · rw [if_pos hspace] at h
      rw [List.cons_append, splitLayout, if_pos hspace, hl h]
      rfl
    · by_cases hslash : c = '/' ∧ cs.head? = some '/'
      · rw [if_neg hspace, if_pos hslash] at h
        have hhead : (cs ++ '\n' :: q).head? = some '/' := by
          rw [List.head?_append, hslash.2]
          rfl
        rw [List.cons_append, splitLayout, if_neg hspace, if_pos ⟨hslash.1, hhead⟩, hc h]
        rfl
      · rw [if_neg hspace, if_neg hslash] at h
        exact nomatch h

theorem splitComment_line (q : List Char) : ∀ p, (splitComment p).2 = [] →
    splitComment (p ++ '\n' :: q) = (p ++ '\n' :: (splitLayout q).1, (splitLayout q).2)
  | [], _ => rfl
  | c :: cs, h => by
    have hl := splitLayout_line q cs
    have hc := splitComment_line q cs
    rw [splitComment] at h
    by_cases hline : isLineEnd c = true
    · rw [if_pos hline] at h
      rw [List.cons_append, splitComment, if_pos hline, hl h]
      rfl
    · rw [if_neg hline] at h
      rw [List.cons_append, splitComment, if_neg hline, hc h]
      rfl

end

/-! ### Lexemes -/

theorem takeWhile_append_of_le {p : Char → Bool} {s t : List Char}
    (h : ((s ++ t).takeWhile p).length ≤ s.length) : (s ++ t).takeWhile p = s.takeWhile p := by
  rw [List.takeWhile_append] at h ⊢
  split at h
  · next hall =>
    rw [if_pos hall]
    rw [List.length_append] at h
    have hnone : (t.takeWhile p).length = 0 := by omega
    rw [List.length_eq_zero_iff.1 hnone, List.append_nil]
    exact ((List.takeWhile_prefix p).eq_of_length hall).symm
  · next hstop => rw [if_neg hstop]

theorem fractionLength_append {s t : List Char} (h : fractionLength (s ++ t) ≤ s.length) :
    fractionLength (s ++ t) = fractionLength s := by
  cases s with
  | nil => exact Nat.le_zero.1 h
  | cons c s =>
    by_cases hc : c = '.'
    · subst hc
      have hdigits : ((s ++ t).takeWhile Char.isDigit).length ≤ s.length := by
        rw [List.cons_append, fractionLength] at h
        split at h
        · next hnone =>
          rw [hnone]
          exact Nat.zero_le _
        · exact Nat.le_of_succ_le_succ h
      rw [List.cons_append, fractionLength, fractionLength, takeWhile_append_of_le hdigits]
    · unfold fractionLength
      split
      · next heq => exact absurd (List.cons.inj heq).1 hc
      · split
        · next heq => exact absurd (List.cons.inj heq).1 hc
        · rfl

theorem mark_of_zero {c : Char} {next : Option Char} (h : (mark c next).2 = 0) :
    mark c none = mark c next := by
  unfold mark at h ⊢
  split at h <;> first | rfl | (split at h <;> simp_all)

/-- A lexeme that ends within some characters is read from these alone. -/
theorem classify_append {c : Char} {s t : List Char} (h : (classify c (s ++ t)).2 ≤ s.length) :
    classify c (s ++ t) = classify c s := by
  by_cases hword : isWordStart c = true
  · rw [classify_of_isWordStart hword] at h
    rw [classify_of_isWordStart hword, classify_of_isWordStart hword, takeWhile_append_of_le h]
  · by_cases hdigit : c.isDigit = true
    · rw [classify_of_isDigit hdigit] at h
      dsimp only at h
      have hwhole := @takeWhile_append_of_le Char.isDigit s t (by omega)
      have hle := (List.takeWhile_prefix Char.isDigit (l := s)).length_le
      rw [hwhole, List.drop_append_of_le_length hle] at h
      have hfraction := @fractionLength_append (s.drop (s.takeWhile Char.isDigit).length) t (by
        rw [List.length_drop]
        omega)
      rw [hfraction] at h
      rw [classify_of_isDigit hdigit, classify_of_isDigit hdigit, hwhole,
        List.drop_append_of_le_length hle, hfraction]
      dsimp only
      rw [List.take_append_of_le_length h]
    · unfold classify at h ⊢
      rw [if_neg hword, if_neg hdigit] at h
      rw [if_neg hword, if_neg hdigit, if_neg hword, if_neg hdigit]
      cases s with
      | nil => exact (mark_of_zero (Nat.le_zero.1 h)).symm
      | cons d s => rfl

/-- The characters that a lexeme may go on with after its first. -/
def isContinuation (c : Char) : Bool := isWordChar c ∨ c = '.' ∨ c = '='

theorem isContinuation_of_isWordChar {c : Char} (h : isWordChar c = true) :
    isContinuation c = true := by
  simp [isContinuation, h]

theorem isContinuation_of_isDigit {c : Char} (h : c.isDigit = true) : isContinuation c = true := by
  refine isContinuation_of_isWordChar ?_
  simp [isWordChar, Char.isAlphanum, h]

theorem marks_continue : ∀ m ∈ marks, ∀ c ∈ m.2.1, isContinuation c = true := by
  simp [marks, isContinuation]

theorem IsLexeme.continues {c : Char} {s : List Char} {k : Kind} (h : IsLexeme (c :: s) k) :
    ∀ d ∈ s, isContinuation d = true := by
  cases h with
  | word start chars => exact fun d hd => isContinuation_of_isWordChar (chars d hd)
  | whole digits =>
    exact fun d hd => isContinuation_of_isDigit (digits d (List.mem_cons_of_mem _ hd))
  | fraction digits decimals =>
    refine List.forall_mem_append.2 ⟨fun d hd => ?_, List.forall_mem_cons.2 ⟨by decide, ?_⟩⟩
    · exact isContinuation_of_isDigit (digits d (List.mem_cons_of_mem _ hd))
    · exact fun d hd => isContinuation_of_isDigit (decimals d hd)
  | mark h => exact marks_continue _ h

/-- A lexeme ends before a character that it cannot go on with. -/
theorem classify_stops {c b : Char} (hb : isContinuation b = false) (s t : List Char) :
    (classify c (s ++ b :: t)).2 ≤ s.length := by
  obtain h | h := isLexeme_lexemeAt c (s ++ b :: t)
  · by_contra hlt
    have hmem : b ∈ (s ++ b :: t).take (classify c (s ++ b :: t)).2 := by
      rw [List.take_append, List.mem_append]
      obtain ⟨n, hn⟩ := Nat.exists_eq_add_of_lt (Nat.lt_of_not_le hlt)
      right
      rw [hn, show s.length + n + 1 - s.length = n + 1 by omega, List.take_succ_cons]
      exact List.mem_cons_self
    rw [h.continues b hmem] at hb
    exact nomatch hb
  · rw [h]
    exact Nat.zero_le _

/-- A lexeme does not go on over a blank. -/
theorem classify_blank {c b : Char} (hb : isSpace b = true) (s t : List Char) :
    (classify c (s ++ b :: t)).2 ≤ s.length := by
  refine classify_stops ?_ s t
  obtain rfl | rfl | rfl | rfl := eq_of_isSpace hb <;> decide

theorem IsLexeme.eq_digits {s digits : List Char} (h : IsLexeme s (.number digits)) : s = digits := by
  generalize hk : Kind.number digits = k at h
  cases h with
  | @word c cs _ _ =>
    have hword := isWord_ofWord (String.ofList (c :: cs))
    rw [← hk] at hword
    exact nomatch hword
  | whole | fraction => exact (Kind.number.inj hk).symm
  | mark h =>
    subst hk
    simp [marks] at h

theorem ofWord_eq_name {w n : String} (h : Kind.ofWord w = .name n) : w = n := by
  unfold Kind.ofWord at h
  split at h <;> simp_all

theorem IsLexeme.eq_name {s : List Char} {n : String} (h : IsLexeme s (.name n)) :
    s = n.toList := by
  generalize hk : Kind.name n = k at h
  cases h with
  | word =>
    rw [← ofWord_eq_name hk.symm, String.toList_ofList]
  | whole | fraction => exact nomatch hk
  | mark h =>
    subst hk
    simp [marks] at h

/-! ### Tokens -/

/-- The tokens of a text that is placed at an offset. -/
def tokensFrom (offset : Nat) (cs : List Char) : List Token := place offset (Scan.of cs).lexemes

theorem map_kind_tokensFrom (offset : Nat) (cs : List Char) :
    (tokensFrom offset cs).map (·.kind) = kinds cs :=
  map_kind_place offset _

theorem tokensFrom_layout {cs : List Char} (h : (splitLayout cs).2 = []) (offset : Nat) :
    tokensFrom offset cs = [] := by
  unfold tokensFrom
  rw [Scan.of]
  split
  · rfl
  · next hlayout =>
    rw [hlayout] at h
    exact nomatch h

theorem tokensFrom_lexeme {cs rest : List Char} {c : Char} (h : (splitLayout cs).2 = c :: rest)
    (offset : Nat) : tokensFrom offset cs =
      let start := offset + byteCount (splitLayout cs).1
      let stop := start + byteCount (lexemeAt c rest)
      ⟨(classify c rest).1, ⟨start, stop⟩⟩ :: tokensFrom stop (rest.drop (classify c rest).2) := by
  unfold tokensFrom
  rw [Scan.of]
  split
  · next hlayout =>
    rw [hlayout] at h
    exact nomatch h
  · next hlayout =>
    rw [hlayout] at h
    obtain ⟨rfl, rfl⟩ := List.cons.inj h
    rw [hlayout]
    rfl

/-- What holds of layout, and of a text if it holds after its first lexeme, holds of all texts. -/
theorem lexemeInduction {motive : List Char → Prop}
    (layout : ∀ cs, (splitLayout cs).2 = [] → motive cs)
    (lexeme : ∀ cs c rest, (splitLayout cs).2 = c :: rest →
      motive (rest.drop (classify c rest).2) → motive cs) (cs : List Char) : motive cs := by
  induction hlength : cs.length using Nat.strongRecOn generalizing cs with
  | _ n ih =>
  subst hlength
  cases hrest : (splitLayout cs).2 with
  | nil => exact layout cs hrest
  | cons c rest =>
    refine lexeme cs c rest hrest (ih _ ?_ _ rfl)
    have hle := splitLayout_length cs
    rw [hrest, List.length_cons] at hle
    rw [List.length_drop]
    omega

/-- A token is the text of its span, with its kind. -/
theorem exists_text_of_mem {cs : List Char} {offset : Nat} {t : Token}
    (h : t ∈ tokensFrom offset cs) : ∃ before text after, cs = before ++ (text ++ after) ∧
      t.span = ⟨offset + byteCount before, offset + byteCount before + byteCount text⟩ ∧
      (IsLexeme text t.kind ∨ ∃ c, t.kind = .stray c) := by
  induction cs using lexemeInduction generalizing offset with
  | layout cs hrest =>
    rw [tokensFrom_layout hrest] at h
    exact nomatch h
  | lexeme cs c rest hrest ih =>
    have hsplit := splitLayout_append cs
    rw [hrest, ← lexemeAt_append_drop] at hsplit
    rw [tokensFrom_lexeme hrest] at h
    obtain rfl | h := List.mem_cons.1 h
    · refine ⟨_, _, _, hsplit.symm, rfl, (isLexeme_lexemeAt c rest).imp_right fun hstray => ⟨c, ?_⟩⟩
      rw [hstray]
    · obtain ⟨before, text, after, hdrop, hspan, hkind⟩ := ih h
      refine ⟨(splitLayout cs).1 ++ (lexemeAt c rest ++ before), text, after, ?_, ?_, hkind⟩
      · rw [List.append_assoc, List.append_assoc, ← hdrop]
        exact hsplit.symm
      · simp only [hspan, Text.byteCount_append, Nat.add_assoc]

theorem exists_slice_of_mem {source : Source} {t : Token} (h : t ∈ (Sequence.of source).tokens) :
    ∃ text, Text.slice? source t.span = some text ∧
      (IsLexeme text t.kind ∨ ∃ c, t.kind = .stray c) := by
  obtain ⟨before, text, after, hsource, hspan, hkind⟩ := exists_text_of_mem h
  refine ⟨text, ?_, hkind⟩
  rw [hsource, hspan, Nat.zero_add]
  exact Text.slice?_append before text after

/-- The text of a number is its digits. -/
theorem slice?_number {source : Source} {digits : List Char} {span : Text.Span}
    (h : ⟨.number digits, span⟩ ∈ (Sequence.of source).tokens) :
    Text.slice? source span = some digits := by
  obtain ⟨text, hslice, hlexeme | ⟨_, hstray⟩⟩ := exists_slice_of_mem h
  · rw [hlexeme.eq_digits] at hslice
    exact hslice
  · exact nomatch hstray

theorem slice?_name {source : Source} {name : String} {span : Text.Span}
    (h : ⟨.name name, span⟩ ∈ (Sequence.of source).tokens) :
    Text.slice? source span = some name.toList := by
  obtain ⟨text, hslice, hlexeme | ⟨_, hstray⟩⟩ := exists_slice_of_mem h
  · rw [hlexeme.eq_name] at hslice
    exact hslice
  · exact nomatch hstray

/-! ### Cutting and joining -/

/-- A lexeme ends with its text. -/
theorem classify_le (c : Char) (cs : List Char) : (classify c cs).2 ≤ cs.length := by
  have h := @classify_blank c ' ' rfl cs []
  rwa [classify_append h] at h

theorem lexemeAt_append {c : Char} {s t : List Char} (h : (classify c (s ++ t)).2 ≤ s.length) :
    lexemeAt c (s ++ t) = lexemeAt c s := by
  unfold lexemeAt
  rw [List.take_append_of_le_length h, classify_append h]

/-- A lexeme in front of a text that is cut is read from the part that stays. -/
theorem exists_of_drop_classify {c : Char} {rest cut tail : List Char}
    (h : rest.drop (classify c rest).2 = cut ++ tail) : ∃ s, rest = s ++ tail ∧
      (classify c (s ++ tail)).2 ≤ s.length ∧ s.drop (classify c s).2 = cut := by
  obtain ⟨s, rfl⟩ : ∃ s, rest = s ++ tail :=
    ⟨rest.take (classify c rest).2 ++ cut, by
      rw [List.append_assoc, ← h, List.take_append_drop]⟩
  have hlength : (classify c (s ++ tail)).2 ≤ s.length := by
    have hle := classify_le c (s ++ tail)
    have hlengths := congrArg List.length h
    rw [List.length_drop, List.length_append, List.length_append] at hlengths
    rw [List.length_append] at hle
    omega
  rw [List.drop_append_of_le_length hlength, classify_append hlength] at h
  exact ⟨s, rfl, hlength, List.append_cancel_right h⟩

/-- A text on a line of its own after another has its tokens there. -/
theorem tokensFrom_line (p q : List Char) (offset : Nat) : tokensFrom offset (p ++ '\n' :: q) =
    tokensFrom offset p ++ tokensFrom (offset + (byteCount p + 1)) q := by
  induction p using lexemeInduction generalizing offset with
  | layout p hrest =>
    have hlayout := splitLayout_line q p hrest
    rw [tokensFrom_layout hrest, List.nil_append]
    cases hq : (splitLayout q).2 with
    | nil =>
      rw [tokensFrom_layout hq, tokensFrom_layout]
      rw [hlayout, hq]
    | cons c rest =>
      have hgap : byteCount (p ++ '\n' :: (splitLayout q).1) =
          byteCount p + 1 + byteCount (splitLayout q).1 := by
        rw [Text.byteCount_append, byteCount, Nat.add_assoc]
        rfl
      have hboth : (splitLayout (p ++ '\n' :: q)).2 = c :: rest := by
        rw [hlayout, hq]
      rw [tokensFrom_lexeme hq, tokensFrom_lexeme hboth, hlayout, hgap]
      simp only [Nat.add_assoc]
  | lexeme p c rest hrest ih =>
    have hblank := @classify_blank c '\n' rfl rest q
    have hsettled : Settled (c :: (rest ++ '\n' :: q)) :=
      Settled.append (hrest ▸ settled_skip p) (by simp)
    have hlayout := splitLayout_before hsettled (hrest ▸ List.cons_ne_nil c rest)
    have hp := splitLayout_append p
    rw [hrest] at hp
    have hboth : splitLayout (p ++ '\n' :: q) = ((splitLayout p).1, c :: (rest ++ '\n' :: q)) := by
      rw [← hlayout]
      congr 1
      rw [← List.cons_append, ← List.append_assoc, hp]
    have hbytes : byteCount p = byteCount (splitLayout p).1 + byteCount (lexemeAt c rest) +
        byteCount (rest.drop (classify c rest).2) := by
      rw [← Text.byteCount_append, ← Text.byteCount_append, List.append_assoc,
        lexemeAt_append_drop, hp]
    rw [tokensFrom_lexeme hrest, tokensFrom_lexeme (congrArg Prod.snd hboth), hboth,
      lexemeAt_append hblank, classify_append hblank,
      List.drop_append_of_le_length (classify_le c rest)]
    dsimp only
    rw [ih, List.cons_append, hbytes]
    simp only [Nat.add_assoc]

end Token

end RangeRules
