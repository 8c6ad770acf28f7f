import Mathlib.Data.List.TakeWhile
import RangeRules.Token.Scan

/-!
# Lexemes

How a text begins, with its layout skipped and one lexeme read, and how the kinds of its tokens
follow from there. What comes after its layout is settled: it begins with a lexeme or is empty.
-/
namespace RangeRules.Token

mutual

theorem splitLayout_idem : ∀ cs, splitLayout (splitLayout cs).2 = ([], (splitLayout cs).2)
  | [] => rfl
  | c :: cs => by
    have hl := splitLayout_idem cs
    have hc := splitComment_idem cs
    by_cases hspace : isSpace c = true
    · rw [splitLayout, if_pos hspace]
      exact hl
    · by_cases hslash : c = '/' ∧ cs.head? = some '/'
      · rw [splitLayout, if_neg hspace, if_pos hslash]
        exact hc
      · rw [splitLayout, if_neg hspace, if_neg hslash]
        dsimp only
        rw [splitLayout, if_neg hspace, if_neg hslash]

theorem splitComment_idem : ∀ cs, splitLayout (splitComment cs).2 = ([], (splitComment cs).2)
  | [] => rfl
  | c :: cs => by
    have hl := splitLayout_idem cs
    have hc := splitComment_idem cs
    rw [splitComment]
    dsimp only
    split
    · exact hl
    · exact hc

end

/-- The layout goes on after blanks. -/
theorem splitLayout_dropWhile (cs : List Char) :
    (splitLayout cs).2 = (splitLayout (cs.dropWhile isSpace)).2 := by
  induction cs with
  | nil => rfl
  | cons c cs ih =>
    rw [List.dropWhile_cons]
    split
    · next hc =>
      rw [splitLayout, if_pos hc]
      exact ih
    · rfl

theorem splitComment_dropWhile (cs : List Char) :
    (splitComment cs).2 = (splitLayout (cs.dropWhile fun c => !isLineEnd c)).2 := by
  induction cs with
  | nil => rfl
  | cons c cs ih =>
    rw [List.dropWhile_cons, splitComment]
    by_cases hc : isLineEnd c = true
    · have hspace : isSpace c = true := by
        have hc' : c = '\r' ∨ c = '\n' := by simpa [isLineEnd] using hc
        obtain rfl | rfl := hc' <;> rfl
      rw [if_pos hc, if_neg (by simp [hc]), splitLayout, if_pos hspace]
    · rw [if_neg hc, if_pos (by simp [hc])]
      exact ih

/-- A text that begins without layout. -/
def Settled (cs : List Char) : Prop := splitLayout cs = ([], cs)

/-- The kind of the first lexeme, if there is any, and what comes after it. -/
def next? : List Char → Option (Kind × List Char)
  | [] => none
  | c :: cs => some ((classify c cs).1, cs.drop (classify c cs).2)

/-- The kinds of a text are those of what comes after its layout. -/
theorem kinds_eq (cs : List Char) :
    kinds cs = match next? (splitLayout cs).2 with
      | none => []
      | some (k, rest) => k :: kinds rest := by
  unfold kinds
  rw [Scan.of]
  split
  · next gap h =>
    rw [h]
    rfl
  · next gap c rest h =>
    rw [h]
    rfl

theorem Settled.kinds_eq {cs : List Char} (h : Settled cs) :
    kinds cs = match next? cs with
      | none => []
      | some (k, rest) => k :: kinds rest := by
  have hkinds := Token.kinds_eq cs
  rw [h] at hkinds
  exact hkinds

theorem kinds_skip (cs : List Char) : kinds (splitLayout cs).2 = kinds cs := by
  rw [kinds_eq cs, kinds_eq (splitLayout cs).2, splitLayout_idem]

/-- The first lexeme of a settled text is the head of its kinds. -/
theorem Settled.next?_of_kinds {cs : List Char} (h : Settled cs) {k : Kind} {ks : List Kind}
    (hkinds : kinds cs = k :: ks) : ∃ rest, next? cs = some (k, rest) ∧ kinds rest = ks := by
  rw [h.kinds_eq] at hkinds
  split at hkinds
  · exact nomatch hkinds
  · next k' rest hnext =>
    obtain ⟨rfl, hrest⟩ := List.cons.inj hkinds
    exact ⟨rest, hnext, hrest⟩

theorem length_of_next? {cs rest : List Char} {k : Kind} (h : next? cs = some (k, rest)) :
    rest.length < cs.length := by
  cases cs with
  | nil => exact nomatch h
  | cons c cs =>
    obtain ⟨-, rfl⟩ := Prod.mk.inj (Option.some.inj h)
    simp only [List.length_drop, List.length_cons]
    omega

theorem settled_skip (cs : List Char) : Settled (splitLayout cs).2 := splitLayout_idem cs

/-! ### Classes of lexemes -/

/-- Words are reserved words and names. -/
def isWord : Kind → Bool
  | .keyword _ | .boolean _ | .name _ => true
  | _ => false

theorem isWord_ofWord (w : String) : isWord (.ofWord w) = true := by
  unfold Kind.ofWord
  split <;> rfl

theorem isWord_mark (c : Char) (next : Option Char) : isWord (mark c next).1 = false := by
  unfold mark
  split <;> first | rfl | (split <;> rfl)

theorem isWord_classify {c : Char} (h : ¬ isWordStart c = true) (cs : List Char) :
    isWord (classify c cs).1 = false := by
  unfold classify
  rw [if_neg h]
  split
  · rfl
  · exact isWord_mark c cs.head?

theorem isWordChar_of_isWordStart {c : Char} (h : isWordStart c = true) : isWordChar c = true := by
  have h' : c.isAlpha = true ∨ c = '_' := by simpa [isWordStart] using h
  have hchar : (c.isAlpha = true ∨ c.isDigit = true) ∨ c = '_' :=
    h'.imp_left Or.inl
  simpa [isWordChar, Char.isAlphanum] using hchar

theorem drop_length_takeWhile (p : Char → Bool) (cs : List Char) :
    cs.drop (cs.takeWhile p).length = cs.dropWhile p := by
  have hsplit := @List.takeWhile_append_dropWhile _ p cs
  calc cs.drop (cs.takeWhile p).length
      = (cs.takeWhile p ++ cs.dropWhile p).drop (cs.takeWhile p).length := by rw [hsplit]
    _ = cs.dropWhile p := List.drop_left

theorem not_isWordStart_of_isDigit {c : Char} (h : c.isDigit = true) : ¬ isWordStart c = true := by
  intro hstart
  have hstart' : c.isAlpha = true ∨ c = '_' := by simpa [isWordStart] using hstart
  have hdigit := Char.isDigit_iff_toNat.1 h
  have hupper : c.isUpper = true → 'A'.toNat ≤ c.toNat ∧ c.toNat ≤ 'Z'.toNat := of_decide_eq_true
  have hlower : c.isLower = true → 'a'.toNat ≤ c.toNat ∧ c.toNat ≤ 'z'.toNat :=
    fun h => ((Bool.and_eq_true ..).mp h).imp of_decide_eq_true of_decide_eq_true
  obtain halpha | rfl := hstart'
  · have hletter := ((Bool.or_eq_true ..).mp halpha).imp hupper hlower
    simp only [Char.reduceToNat] at hdigit hletter
    omega
  · exact absurd h (by decide)

theorem classify_equals (rest : List Char) : classify '=' rest =
    if rest.head? = some '=' then (.operator (.comparison .eq), 1) else (.assign, 0) := rfl

theorem next?_assign {rest : List Char} (h : rest.head? ≠ some '=') :
    next? ('=' :: rest) = some (.assign, rest) := by
  unfold next?
  dsimp only
  rw [classify_equals, if_neg h, List.drop_zero]

theorem mark_eq_assign {c : Char} {next : Option Char} {n : Nat} (h : mark c next = (.assign, n)) :
    c = '=' ∧ n = 0 := by
  unfold mark at h
  split at h <;> (try split at h) <;> simp_all

theorem eq_of_next?_assign {cs rest : List Char} (h : next? cs = some (.assign, rest)) :
    cs = '=' :: rest := by
  cases cs with
  | nil => exact nomatch h
  | cons c cs =>
    obtain ⟨hkind, hrest⟩ := Prod.mk.inj (Option.some.inj h)
    by_cases hc : isWordStart c = true
    · have hword := isWord_ofWord (String.ofList (c :: cs.takeWhile isWordChar))
      unfold classify at hkind
      rw [if_pos hc] at hkind
      dsimp only at hkind
      rw [hkind] at hword
      exact nomatch hword
    · by_cases hd : c.isDigit = true
      · unfold classify at hkind
        rw [if_neg hc, if_pos hd] at hkind
        exact nomatch hkind
      · have hclassify : classify c cs = mark c cs.head? := by
          unfold classify
          rw [if_neg hc, if_neg hd]
        rw [hclassify] at hkind hrest
        have hmark : mark c cs.head? = (.assign, (mark c cs.head?).2) := Prod.ext hkind rfl
        obtain ⟨rfl, hlength⟩ := mark_eq_assign hmark
        rw [hlength, List.drop_zero] at hrest
        rw [hrest]

end RangeRules.Token
