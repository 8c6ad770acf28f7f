import RangeRules.Proofs.Grammar.Layout

/-!
# Lexemes in the grammar

At a place without layout, each rule for words, numbers, operators and punctuation fares as the
scanner's next lexeme says: it takes the whole lexeme if its kind is right, and fails otherwise.
Words are the delicate part. The grammar tells a word by an excluded character after it, and a name
by a reserved word that it must not be; the scanner takes all characters of the word first.
-/
namespace RangeRules.Peg

open Token

variable {whole : List Char}

/-- What is left after the first lexeme, if its kind is accepted. -/
def step (accept : Kind → Bool) (cs : List Char) : Option (List Char) :=
  match next? cs with
  | none => none
  | some (k, rest) => if accept k then some rest else none

/-- The expression reads one lexeme of an accepted kind. -/
def Reads (whole : List Char) (e : Peg) (accept : Kind → Bool) : Prop :=
  ∀ cs, Settled cs → Matches whole e cs (step accept cs)

/-! ### Words -/

/-- The characters of a word at the start of a text, none if it does not start with one. -/
def wordOf (cs : List Char) : List Char := cs.takeWhile isWordChar

def afterWord (cs : List Char) : List Char := cs.dropWhile isWordChar

theorem matches_identChar (cs : List Char) :
    Matches whole (.rule .identChar) cs (stripChar isWordChar cs) := by
  have h : Matches whole (body .identChar) cs (stripChar Char.isAlphanum cs <|> strip ['_'] cs) :=
    .choice (.char Char.isAlphanum cs) (.text "_" cs)
  simp only [strip_singleton, stripChar_or] at h
  have hclass : isWordChar = fun c => c.isAlphanum || decide (c = '_') := by
    funext c
    simp [isWordChar]
  rw [hclass]
  exact .rule h

theorem strip_eq_some {s cs rest : List Char} : strip s cs = some rest ↔ cs = s ++ rest := by
  induction s generalizing cs with
  | nil => simp [strip, eq_comm]
  | cons a s ih =>
    cases cs with
    | nil => simp [strip]
    | cons c cs =>
      rw [strip, Option.ite_none_right_eq_some, ih, List.cons_append, List.cons.injEq, @eq_comm _ a c]

/-- The first of some texts that the characters begin with, and what is left after it. -/
theorem matches_texts (s : String) (l : List String) (cs : List Char) :
    Matches whole (oneOf (.text s) (l.map .text)) cs
      ((s :: l).findSome? fun t => strip t.toList cs) := by
  induction l generalizing s with
  | nil =>
    have heq : ([s].findSome? fun t => strip t.toList cs) = strip s.toList cs := by
      simp
    rw [heq]
    exact .text s cs
  | cons t l ih =>
    have h : Matches whole (oneOf (.text s) ((t :: l).map .text)) cs
        (strip s.toList cs <|> (t :: l).findSome? fun t => strip t.toList cs) :=
      .choice (.text s cs) (ih t)
    rw [List.findSome?_cons]
    cases hs : strip s.toList cs with
    | none => simpa [hs] using h
    | some rest => simpa [hs] using h

/-- Some words of which none begins another. -/
structure Distinct (words : List String) : Prop where
  start : ∀ s ∈ words, s.toList.head?.any isWordStart = true
  chars : ∀ s ∈ words, s.toList.all isWordChar = true
  prefixes : ∀ s ∈ words, ∀ t ∈ words, s.toList <+: t.toList → s = t

/-- Where no character of a word comes, no word starts. -/
theorem wordOf_of_stripChar_none {cs : List Char} (h : stripChar isWordChar cs = none) :
    wordOf cs = [] ∧ afterWord cs = cs := by
  cases cs with
  | nil => exact ⟨rfl, rfl⟩
  | cons c cs =>
    have hc : ¬ isWordChar c = true := by
      intro hc
      dsimp only [stripChar] at h
      rw [if_pos hc] at h
      exact nomatch h
    exact ⟨List.takeWhile_cons_of_neg hc, List.dropWhile_cons_of_neg hc⟩

theorem wordOf_ne_nil_of_stripChar {cs rest : List Char}
    (h : stripChar isWordChar cs = some rest) : wordOf cs ≠ [] := by
  cases cs with
  | nil => exact nomatch h
  | cons c cs =>
    have hc : isWordChar c = true := (Option.ite_none_right_eq_some.1 h).1
    rw [wordOf, List.takeWhile_cons_of_pos hc]
    exact List.cons_ne_nil c _

/-- A word that does not go on is the whole word at its place. -/
theorem matches_word {s : String} {l : List String} (h : Distinct (s :: l)) (cs : List Char) :
    Matches whole (word (oneOf (.text s) (l.map .text))) cs
      (if String.ofList (wordOf cs) ∈ s :: l then some (afterWord cs) else none) := by
  have htexts := @matches_texts whole s l cs
  cases hfound : (s :: l).findSome? fun t => strip t.toList cs with
  | none =>
    rw [hfound] at htexts
    rw [if_neg]
    · exact .seqFails htexts
    · intro hmem
      have hnone := List.findSome?_eq_none_iff.1 hfound _ hmem
      rw [String.toList_ofList] at hnone
      have hsome : strip (wordOf cs) cs = some (afterWord cs) :=
        strip_eq_some.2 (List.takeWhile_append_dropWhile).symm
      exact nomatch hnone.symm.trans hsome
  | some mid =>
    rw [hfound] at htexts
    obtain ⟨t, ht, hstrip⟩ := List.exists_of_findSome?_eq_some hfound
    obtain rfl := strip_eq_some.1 hstrip
    have hword : wordOf (t.toList ++ mid) = t.toList ++ wordOf mid :=
      List.takeWhile_append_of_pos (List.all_eq_true.1 (h.chars t ht))
    have hafter : afterWord (t.toList ++ mid) = afterWord mid :=
      List.dropWhile_append_of_pos (List.all_eq_true.1 (h.chars t ht))
    have hchar := @matches_identChar whole mid
    cases hmid : stripChar isWordChar mid with
    | none =>
      obtain ⟨hempty, hstop⟩ := wordOf_of_stripChar_none hmid
      rw [hword, hafter, hempty, hstop, List.append_nil, String.ofList_toList, if_pos ht]
      rw [hmid] at hchar
      exact .seq htexts (.not hchar)
    | some rest =>
      rw [if_neg]
      · rw [hmid] at hchar
        exact .seq htexts (.notFails hchar)
      · intro hmem
        have hstart : t.toList <+: (String.ofList (wordOf (t.toList ++ mid))).toList := by
          rw [hword, String.toList_ofList]
          exact List.prefix_append ..
        have heq := congrArg String.toList (h.prefixes t ht _ hmem hstart)
        rw [String.toList_ofList, hword, List.self_eq_append_right] at heq
        exact wordOf_ne_nil_of_stripChar hmid heq

theorem next?_word {c : Char} (h : isWordStart c = true) (cs : List Char) :
    next? (c :: cs) =
      some (.ofWord (String.ofList (wordOf (c :: cs))), afterWord (c :: cs)) := by
  have hchar := isWordChar_of_isWordStart h
  have hclassify : classify c cs = (.ofWord (String.ofList (c :: cs.takeWhile isWordChar)),
      (cs.takeWhile isWordChar).length) := if_pos h
  unfold next? wordOf afterWord
  dsimp only
  rw [hclassify, List.takeWhile_cons_of_pos hchar, List.dropWhile_cons_of_pos hchar]
  dsimp only
  rw [drop_length_takeWhile]

/-- The word at a place is one of some words if the first lexeme is. -/
theorem step_words {words : List String} {accept : Kind → Bool}
    (hstart : ∀ s ∈ words, s.toList.head?.any isWordStart = true)
    (haccept : ∀ w, accept (.ofWord w) = decide (w ∈ words))
    (hother : ∀ k, isWord k = false → accept k = false) (cs : List Char) :
    step accept cs =
      if String.ofList (wordOf cs) ∈ words then some (afterWord cs) else none := by
  cases cs with
  | nil =>
    rw [if_neg]
    · rfl
    · intro hmem
      have hhead := hstart _ hmem
      rw [String.toList_ofList] at hhead
      exact nomatch hhead
  | cons c cs =>
    by_cases hc : isWordStart c = true
    · unfold step
      rw [next?_word hc]
      dsimp only
      rw [haccept]
      simp only [decide_eq_true_eq]
    · have hfails : step accept (c :: cs) = none := by
        have hkind := hother _ (isWord_classify hc cs)
        unfold step next?
        dsimp only
        rw [hkind]
        rfl
      rw [hfails, if_neg]
      intro hmem
      have hhead := hstart _ hmem
      rw [String.toList_ofList, wordOf, List.takeWhile_cons] at hhead
      split at hhead
      · exact hc hhead
      · exact nomatch hhead

/-- A rule for some words reads the lexemes that these are. -/
theorem reads_words {r : Rule} {s : String} {l : List String} {accept : Kind → Bool}
    (hbody : body r = word (oneOf (.text s) (l.map .text))) (hdistinct : Distinct (s :: l))
    (haccept : ∀ w, accept (.ofWord w) = decide (w ∈ s :: l))
    (hother : ∀ k, isWord k = false → accept k = false) : Reads whole (.rule r) accept := by
  intro cs _
  refine .rule ?_
  rw [hbody, step_words hdistinct.start haccept hother]
  exact matches_word hdistinct cs

def isBoolean : Kind → Bool
  | .boolean _ => true
  | _ => false

def isKeyword (word : Keyword) : Kind → Bool
  | .keyword w => decide (w = word)
  | _ => false

/-- The words that are no names. -/
def isReserved : Kind → Bool
  | .keyword _ | .boolean _ => true
  | _ => false

def isName : Kind → Bool
  | .name _ => true
  | _ => false

theorem reads_boolean : Reads whole (.rule .boolean) isBoolean := by
  refine @reads_words whole .boolean "true" ["false"] isBoolean rfl
    ⟨by decide, by decide, by decide⟩ ?_ ?_
  · intro w
    unfold Kind.ofWord
    split <;> simp_all [isBoolean]
  · intro k hk
    cases k <;> first | rfl | exact nomatch hk

/-- The rule for a reserved word alone reads it. -/
theorem reads_reserved {r : Rule} {s : String} {w : Keyword} (hbody : body r = word (.text s))
    (hdistinct : Distinct [s]) (haccept : ∀ t, isKeyword w (.ofWord t) = decide (t ∈ [s])) :
    Reads whole (.rule r) (isKeyword w) := by
  refine @reads_words whole r s [] (isKeyword w) hbody hdistinct haccept ?_
  intro k hk
  cases k <;> first | rfl | exact nomatch hk

theorem reads_kwWhen : Reads whole (.rule .kwWhen) (isKeyword .when) := by
  refine @reads_reserved whole .kwWhen "when" .when rfl ⟨by decide, by decide, by decide⟩ ?_
  intro w
  unfold Kind.ofWord
  split <;> simp_all [isKeyword]

theorem reads_kwOtherwise : Reads whole (.rule .kwOtherwise) (isKeyword .otherwise) := by
  refine @reads_reserved whole .kwOtherwise "otherwise" .otherwise rfl
    ⟨by decide, by decide, by decide⟩ ?_
  intro w
  unfold Kind.ofWord
  split <;> simp_all [isKeyword]

theorem reads_kwThis : Reads whole (.rule .kwThis) (isKeyword .this) := by
  refine @reads_reserved whole .kwThis "this" .this rfl ⟨by decide, by decide, by decide⟩ ?_
  intro w
  unfold Kind.ofWord
  split <;> simp_all [isKeyword]

theorem reads_keyword : Reads whole (.rule .keyword) isReserved := by
  refine @reads_words whole .keyword "when" ["otherwise", "true", "false", "this"] isReserved rfl
    ⟨by decide, by decide, by decide⟩ ?_ ?_
  · intro w
    unfold Kind.ofWord
    split <;> simp_all [isReserved]
  · intro k hk
    cases k <;> first | rfl | exact nomatch hk

theorem not_of_not_isWord {k : Kind} (h : isWord k = false) :
    isReserved k = false ∧ isName k = false := by
  cases k <;> first | exact ⟨rfl, rfl⟩ | exact nomatch h

theorem isName_ofWord (w : String) :
    isName (.ofWord w) = !isReserved (.ofWord w) := by
  unfold Kind.ofWord
  split <;> rfl

theorem matches_wordStart (cs : List Char) :
    Matches whole (.choice (.char Char.isAlpha) (.text "_")) cs (stripChar isWordStart cs) := by
  have h : Matches whole (.choice (.char Char.isAlpha) (.text "_")) cs
      (stripChar Char.isAlpha cs <|> strip ['_'] cs) :=
    .choice (.char Char.isAlpha cs) (.text "_" cs)
  simp only [strip_singleton, stripChar_or] at h
  have hclass : isWordStart = fun c => c.isAlpha || decide (c = '_') := by
    funext c
    simp [isWordStart]
  rw [hclass]
  exact h

/-- A name is read as a word that is not reserved. -/
theorem reads_ident : Reads whole (.rule .ident) isName := by
  intro cs hcs
  refine .rule ?_
  have hkeyword := @reads_keyword whole cs hcs
  have hstart := @matches_wordStart whole cs
  unfold step at hkeyword ⊢
  cases cs with
  | nil => exact .seq (.not hkeyword) (.seqFails hstart)
  | cons c cs =>
    by_cases hc : isWordStart c = true
    · rw [next?_word hc] at hkeyword ⊢
      dsimp only at hkeyword ⊢
      rw [isName_ofWord]
      cases hreserved : isReserved (.ofWord (String.ofList (wordOf (c :: cs)))) with
      | true =>
        rw [hreserved] at hkeyword
        exact .seqFails (.notFails hkeyword)
      | false =>
        rw [hreserved] at hkeyword
        have hafter : afterWord (c :: cs) = cs.dropWhile isWordChar :=
          List.dropWhile_cons_of_pos (isWordChar_of_isWordStart hc)
        dsimp only [stripChar] at hstart
        rw [if_pos hc] at hstart
        rw [hafter]
        exact .seq (.not hkeyword) (.seq hstart (.many_char matches_identChar cs))
    · have hword := isWord_classify hc cs
      dsimp only [stripChar] at hstart
      rw [if_neg hc] at hstart
      obtain ⟨hreserved, hname⟩ := not_of_not_isWord hword
      unfold next? at hkeyword ⊢
      dsimp only at hkeyword ⊢
      rw [hreserved] at hkeyword
      rw [hname]
      exact .seq (.not hkeyword) (.seqFails hstart)

/-! ### Numbers -/

theorem matches_digits (cs : List Char) :
    Matches whole (many₁ (.char Char.isDigit)) cs
      ((stripChar Char.isDigit cs).map (List.dropWhile Char.isDigit)) := by
  have hfirst : Matches whole (.char Char.isDigit) cs (stripChar Char.isDigit cs) := .char _ cs
  generalize stripChar Char.isDigit cs = x at hfirst
  cases x with
  | none => exact .seqFails hfirst
  | some rest => exact .seq hfirst (.many_char (fun cs => .char _ cs) rest)

/-- An optional fraction takes as many characters as the scanner counts. -/
theorem matches_fraction (cs : List Char) :
    Matches whole (.optional (.seq (.text ".") (many₁ (.char Char.isDigit)))) cs
      (some (cs.drop (fractionLength cs))) := by
  have hpoint : Matches whole (.text ".") cs (strip ['.'] cs) := .text "." cs
  unfold fractionLength
  split
  · next cs =>
    have hdigits := @matches_digits whole cs
    cases hcs : stripChar Char.isDigit cs with
    | none =>
      rw [hcs] at hdigits
      have hlength : cs.takeWhile Char.isDigit = [] := by
        cases cs with
        | nil => rfl
        | cons c cs =>
          rw [stripChar, ite_eq_right_iff] at hcs
          exact List.takeWhile_cons_of_neg fun hc => Option.some_ne_none _ (hcs hc)
      rw [hlength]
      exact .absent (.seq hpoint hdigits)
    | some rest =>
      rw [hcs] at hdigits
      cases cs with
      | nil => cases hcs
      | cons c cs =>
        obtain ⟨hc, hrest⟩ := Option.ite_none_right_eq_some.1 hcs
        obtain rfl := Option.some.inj hrest
        rw [List.takeWhile_cons_of_pos hc]
        have hdrop : ('.' :: c :: cs).drop ((c :: cs.takeWhile Char.isDigit).length + 1) =
            cs.dropWhile Char.isDigit := drop_length_takeWhile Char.isDigit cs
        dsimp only
        rw [hdrop]
        exact .present (.seq hpoint hdigits)
  · next hne =>
    have hfails : strip ['.'] cs = none := by
      cases cs with
      | nil => rfl
      | cons c cs =>
        rw [strip, if_neg]
        rintro rfl
        exact hne cs rfl
    rw [hfails] at hpoint
    exact .absent (.seqFails hpoint)

def isNumber : Kind → Bool
  | .number _ => true
  | _ => false

theorem isNumber_of_isWord {k : Kind} (h : isWord k = true) : isNumber k = false := by
  cases k <;> first | rfl | exact nomatch h

theorem isNumber_mark (c : Char) (next : Option Char) : isNumber (mark c next).1 = false := by
  unfold mark
  split <;> first | rfl | (split <;> rfl)

theorem reads_number : Reads whole (.rule .number) isNumber := by
  intro cs _
  refine .rule ?_
  have hdigits := @matches_digits whole cs
  unfold step
  cases cs with
  | nil => exact .seqFails hdigits
  | cons c cs =>
    dsimp only [next?]
    by_cases hc : c.isDigit = true
    · have hclassify : classify c cs =
          (.number (c :: cs.take ((cs.takeWhile Char.isDigit).length +
            fractionLength (cs.drop (cs.takeWhile Char.isDigit).length))),
          (cs.takeWhile Char.isDigit).length +
            fractionLength (cs.drop (cs.takeWhile Char.isDigit).length)) := by
        unfold classify
        rw [if_neg (not_isWordStart_of_isDigit hc), if_pos hc]
      have hkind : isNumber (classify c cs).1 = true := by
        rw [hclassify]
        rfl
      dsimp only [stripChar] at hdigits
      rw [if_pos hc] at hdigits
      rw [if_pos hkind, hclassify]
      dsimp only
      rw [← List.drop_drop, drop_length_takeWhile]
      exact .seq hdigits (matches_fraction (cs.dropWhile Char.isDigit))
    · have hkind : isNumber (classify c cs).1 = false := by
        unfold classify
        split
        · exact isNumber_of_isWord (isWord_ofWord _)
        · exact isNumber_mark c cs.head?
      dsimp only [stripChar] at hdigits
      rw [if_neg hc] at hdigits
      rw [hkind]
      exact .seqFails hdigits

/-! ### Operators and punctuation -/

theorem step_mark (accept : Kind → Bool) {c : Char} (hc : ¬ isWordStart c = true)
    (hd : ¬ c.isDigit = true) (cs : List Char) :
    step accept (c :: cs) =
      if accept (mark c cs.head?).1 then some (cs.drop (mark c cs.head?).2) else none := by
  have hclassify : classify c cs = mark c cs.head? := by
    unfold classify
    rw [if_neg hc, if_neg hd]
  rw [← hclassify]
  rfl

/-- A class of marks of one character each reads the lexemes of some kinds. -/
theorem step_class {p : Char → Bool} {accept : Kind → Bool}
    (hword : ∀ w, accept (.ofWord w) = false) (hnumber : ∀ digits, accept (.number digits) = false)
    (hclass : ∀ c, p c = true → ¬ isWordStart c = true ∧ ¬ c.isDigit = true)
    (hmark : ∀ c next, accept (mark c next).1 = p c)
    (hlength : ∀ c next, p c = true → (mark c next).2 = 0) (cs : List Char) :
    step accept cs = stripChar p cs := by
  unfold step
  cases cs with
  | nil => rfl
  | cons c cs =>
    dsimp only [next?, stripChar]
    by_cases hc : isWordStart c = true
    · have hp : ¬ p c = true := fun hp => (hclass c hp).1 hc
      have hkind : accept (classify c cs).1 = false := by
        unfold classify
        rw [if_pos hc]
        exact hword _
      rw [hkind, if_neg hp]
      rfl
    · by_cases hd : c.isDigit = true
      · have hp : ¬ p c = true := fun hp => (hclass c hp).2 hd
        have hkind : accept (classify c cs).1 = false := by
          unfold classify
          rw [if_neg hc, if_pos hd]
          exact hnumber _
        rw [hkind, if_neg hp]
        rfl
      · refine (step_mark accept hc hd cs).trans ?_
        rw [hmark]
        by_cases hp : p c = true
        · rw [if_pos hp, if_pos hp, hlength c _ hp, List.drop_zero]
        · rw [if_neg hp, if_neg hp]

/-- A mark of one character reads the lexemes of its kind. -/
theorem reads_mark {a : Char} {s : String} {k : Kind} (hs : s.toList = [a])
    (ha : ¬ isWordStart a = true ∧ ¬ a.isDigit = true) (hword : isWord k = false)
    (hnumber : isNumber k = false) (hmark : ∀ c next, (mark c next).1 = k ↔ c = a)
    (hlength : ∀ next, (mark a next).2 = 0) :
    Reads whole (.text s) fun k' => decide (k' = k) := by
  intro cs _
  rw [@step_class (fun c => decide (c = a)) (fun k' => decide (k' = k))]
  · rw [← strip_singleton, ← hs]
    exact .text s cs
  · intro w
    refine decide_eq_false fun hk => ?_
    exact Bool.false_ne_true (hword.symm.trans (hk ▸ isWord_ofWord w))
  · intro digits
    refine decide_eq_false fun hk => ?_
    exact Bool.false_ne_true (hnumber.symm.trans (hk ▸ rfl))
  · intro c hc
    rw [of_decide_eq_true hc]
    exact ha
  · exact fun c next => decide_eq_decide.2 (hmark c next)
  · intro c next hc
    rw [of_decide_eq_true hc]
    exact hlength next

/-- The marks that stand alone are told by their character. -/
theorem mark_eq_iff (c : Char) (next : Option Char) :
    ((mark c next).1 = .lparen ↔ c = '(') ∧ ((mark c next).1 = .rparen ↔ c = ')') ∧
    ((mark c next).1 = .dot ↔ c = '.') ∧ ((mark c next).1 = .colon ↔ c = ':') := by
  unfold mark
  split <;> (try split) <;> simp_all

theorem reads_lparen : Reads whole (.text "(") fun k => decide (k = .lparen) :=
  reads_mark rfl ⟨by decide, by decide⟩ rfl rfl (fun c next => (mark_eq_iff c next).1) fun _ => rfl

theorem reads_rparen : Reads whole (.text ")") fun k => decide (k = .rparen) :=
  reads_mark rfl ⟨by decide, by decide⟩ rfl rfl (fun c next => (mark_eq_iff c next).2.1) fun _ => rfl

theorem reads_dot : Reads whole (.text ".") fun k => decide (k = .dot) :=
  reads_mark rfl ⟨by decide, by decide⟩ rfl rfl (fun c next => (mark_eq_iff c next).2.2.1)
    fun _ => rfl

theorem reads_colon : Reads whole (.text ":") fun k => decide (k = .colon) :=
  reads_mark rfl ⟨by decide, by decide⟩ rfl rfl (fun c next => (mark_eq_iff c next).2.2.2)
    fun _ => rfl

def isArithmetic : Kind → Bool
  | .operator (.arithmetic _) => true
  | _ => false

def isComparison : Kind → Bool
  | .operator (.comparison _) => true
  | _ => false

theorem not_operator_of_isWord {k : Kind} (h : isWord k = true) :
    isArithmetic k = false ∧ isComparison k = false := by
  cases k <;> first | exact ⟨rfl, rfl⟩ | exact nomatch h

theorem reads_arithmeticOp : Reads whole (.rule .arithmeticOp) isArithmetic := by
  intro cs _
  have h : Matches whole (body .arithmeticOp) cs
      (strip ['+'] cs <|> strip ['-'] cs <|> strip ['*'] cs <|> strip ['/'] cs) :=
    .choice (.rule (.text "+" cs)) (.choice (.rule (.text "-" cs))
      (.choice (.rule (.text "*" cs)) (.rule (.text "/" cs))))
  simp only [strip_singleton, stripChar_or] at h
  rw [@step_class (fun c =>
    decide (c = '+') || (decide (c = '-') || (decide (c = '*') || decide (c = '/'))))]
  · exact .rule h
  · exact fun w => (not_operator_of_isWord (isWord_ofWord w)).1
  · exact fun _ => rfl
  · intro c hc
    simp only [Bool.or_eq_true, decide_eq_true_eq] at hc
    obtain rfl | rfl | rfl | rfl := hc <;> exact ⟨by decide, by decide⟩
  · intro c next
    unfold mark
    split <;> (try split) <;> simp_all [isArithmetic]
  · intro c next hc
    simp only [Bool.or_eq_true, decide_eq_true_eq] at hc
    obtain rfl | rfl | rfl | rfl := hc <;> rfl

/-- The comparisons are tried with the longer ones first, as the scanner prefers them. -/
theorem step_comparison (cs : List Char) : step isComparison cs =
    (strip ['<', '='] cs <|> strip ['>', '='] cs <|> strip ['=', '='] cs <|>
      strip ['!', '='] cs <|> strip ['<'] cs <|> strip ['>'] cs) := by
  cases cs with
  | nil => rfl
  | cons c cs =>
    by_cases hc : c = '<' ∨ c = '>' ∨ c = '=' ∨ c = '!'
    · have hmark : ¬ isWordStart c = true ∧ ¬ c.isDigit = true := by
        obtain rfl | rfl | rfl | rfl := hc <;> exact ⟨by decide, by decide⟩
      rw [step_mark isComparison hmark.1 hmark.2]
      cases cs with
      | nil => obtain rfl | rfl | rfl | rfl := hc <;> rfl
      | cons d cs =>
        by_cases hd : d = '='
        · subst hd
          obtain rfl | rfl | rfl | rfl := hc <;> rfl
        · obtain rfl | rfl | rfl | rfl := hc <;>
            simp [mark, strip, hd, Ne.symm hd, isComparison]
    · simp only [not_or] at hc
      have hkind : isComparison (classify c cs).1 = false := by
        unfold classify
        split
        · exact (not_operator_of_isWord (isWord_ofWord _)).2
        · split
          · rfl
          · unfold mark
            split <;> (try split) <;> simp_all [isComparison]
      unfold step next?
      dsimp only
      rw [hkind]
      simp [strip, Ne.symm hc.1, Ne.symm hc.2.1, Ne.symm hc.2.2.1, Ne.symm hc.2.2.2]

theorem reads_comparisonOp : Reads whole (.rule .comparisonOp) isComparison := by
  intro cs _
  rw [step_comparison]
  exact .rule (.choice (.rule (.text "<=" cs)) (.choice (.rule (.text ">=" cs))
    (.choice (.rule (.text "==" cs)) (.choice (.rule (.text "!=" cs))
      (.choice (.rule (.text "<" cs)) (.rule (.text ">" cs)))))))

end RangeRules.Peg
