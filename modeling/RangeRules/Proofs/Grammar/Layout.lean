import RangeRules.Proofs.Grammar.Peg
import RangeRules.Proofs.Token.Lexemes

/-!
# Layout in the grammar

Skipping layout by the grammar leaves what the scanner finds after it, and never fails.
-/
namespace RangeRules.Peg

open Token

variable {whole : List Char}

section Classes

theorem strip_singleton (a : Char) (cs : List Char) :
    strip [a] cs = stripChar (fun c => decide (c = a)) cs := by
  cases cs with
  | nil => rfl
  | cons c cs =>
    simp only [strip, stripChar, decide_eq_true_eq, @eq_comm _ a c]

theorem stripChar_or (p q : Char → Bool) (cs : List Char) :
    (stripChar p cs <|> stripChar q cs) = stripChar (fun c => p c || q c) cs := by
  cases cs with
  | nil => rfl
  | cons c cs =>
    simp only [stripChar]
    by_cases hp : p c = true <;> simp [hp]

end Classes

/-- Two alternatives fare as the first does, or else as the second. -/
theorem Matches.choice {a b : Peg} {cs : List Char} {x y : Option (List Char)}
    (ha : Matches whole a cs x) (hb : Matches whole b cs y) :
    Matches whole (.choice a b) cs (x <|> y) := by
  cases x with
  | none => exact .choiceRight ha hb
  | some rest => exact .choiceLeft ha

/-- Repeating a character of a class leaves out all that begin the text. -/
theorem Matches.many_char {a : Peg} {p : Char → Bool}
    (h : ∀ cs, Matches whole a cs (stripChar p cs)) (cs : List Char) :
    Matches whole (.many a) cs (some (cs.dropWhile p)) := by
  induction cs with
  | nil => exact .stop (h [])
  | cons c cs ih =>
    have hfirst := h (c :: cs)
    dsimp only [stripChar] at hfirst
    rw [List.dropWhile_cons]
    split
    · next hp =>
      rw [if_pos hp] at hfirst
      exact .more hfirst ih
    · next hp =>
      rw [if_neg hp] at hfirst
      exact .stop hfirst

theorem matches_whitespace (cs : List Char) :
    Matches whole (.rule .whitespace) cs (stripChar isSpace cs) := by
  have h : Matches whole (body .whitespace) cs
      (strip [' '] cs <|> strip ['\t'] cs <|> strip ['\r'] cs <|> strip ['\n'] cs) :=
    .choice (.text " " cs) (.choice (.text "\t" cs) (.choice (.text "\r" cs) (.text "\n" cs)))
  simp only [strip_singleton, stripChar_or] at h
  have hclass : isSpace = fun c =>
      decide (c = ' ') || (decide (c = '\t') || (decide (c = '\r') || decide (c = '\n'))) := by
    funext c
    simp [isSpace]
  rw [hclass]
  exact .rule h

/-- A character of a comment after its two slashes. -/
theorem matches_commentChar (cs : List Char) :
    Matches whole
      (.seq (.not (oneOf (.text "\n") [.text "\r\n", .text "\r"])) (.char fun _ => true)) cs
      (stripChar (fun c => !isLineEnd c) cs) := by
  have h : Matches whole (oneOf (.text "\n") [.text "\r\n", .text "\r"]) cs
      (strip ['\n'] cs <|> strip ['\r', '\n'] cs <|> strip ['\r'] cs) :=
    .choice (.text "\n" cs) (.choice (.text "\r\n" cs) (.text "\r" cs))
  cases cs with
  | nil => exact .seq (.not h) (.char _ [])
  | cons c cs =>
    by_cases hend : isLineEnd c = true
    · have hstrip : ∃ rest, (strip ['\n'] (c :: cs) <|> strip ['\r', '\n'] (c :: cs) <|>
          strip ['\r'] (c :: cs)) = some rest := by
        have hc : c = '\r' ∨ c = '\n' := by simpa [isLineEnd] using hend
        obtain rfl | rfl := hc
        · have hfirst : strip ['\n'] ('\r' :: cs) = none := rfl
          rw [hfirst]
          cases hboth : strip ['\r', '\n'] ('\r' :: cs) with
          | none => exact ⟨cs, rfl⟩
          | some rest => exact ⟨rest, rfl⟩
        · exact ⟨cs, rfl⟩
      obtain ⟨rest, hrest⟩ := hstrip
      rw [hrest] at h
      simp only [stripChar, hend]
      exact .seqFails (.notFails h)
    · have hc : c ≠ '\r' ∧ c ≠ '\n' := by simpa [isLineEnd] using hend
      simp only [strip, if_neg hc.1.symm, if_neg hc.2.symm] at h
      simp only [stripChar, hend]
      exact .seq (.not h) (.char _ (c :: cs))

theorem matches_comment (cs : List Char) :
    Matches whole (.rule .comment) cs
      ((strip ['/', '/'] cs).map (List.dropWhile fun c => !isLineEnd c)) := by
  refine .rule ?_
  have h : Matches whole (.text "//") cs (strip ['/', '/'] cs) := .text "//" cs
  generalize strip ['/', '/'] cs = x at h
  cases x with
  | none => exact .seqFails h
  | some rest => exact .seq h (.many_char matches_commentChar rest)

theorem not_of_dropWhile_eq_cons {p : Char → Bool} {cs : List Char} {c : Char} {rest : List Char}
    (h : cs.dropWhile p = c :: rest) : ¬ p c = true := by
  have hne : cs.dropWhile p ≠ [] := by simp [h]
  have hhead := List.head_dropWhile_not p hne
  simpa [h] using hhead

/-- Comments with the blanks after each, from the first character that is no blank. -/
theorem matches_comments (cs : List Char) :
    Matches whole (.many (.seq (.rule .comment) (.many (.rule .whitespace))))
      (cs.dropWhile isSpace) (some (splitLayout cs).2) := by
  rw [splitLayout_dropWhile]
  have hlength := (List.dropWhile_suffix isSpace (l := cs)).length_le
  cases hcs : cs.dropWhile isSpace with
  | nil => exact .stop (.seqFails (matches_comment []))
  | cons c rest =>
    rw [hcs] at hlength
    have hc := not_of_dropWhile_eq_cons hcs
    by_cases hslash : c = '/' ∧ rest.head? = some '/'
    · obtain ⟨rfl, hrest⟩ := hslash
      obtain ⟨after, rfl⟩ := List.head?_eq_some_iff.1 hrest
      have hafter := (List.dropWhile_suffix (fun c => !isLineEnd c) (l := after)).length_le
      have hlayout : (splitLayout ('/' :: '/' :: after)).2 =
          (splitLayout (after.dropWhile fun c => !isLineEnd c)).2 := by
        rw [← splitComment_dropWhile]
        rfl
      rw [hlayout]
      exact .more (.seq (matches_comment ('/' :: '/' :: after)) (.many_char matches_whitespace _))
        (matches_comments (after.dropWhile fun c => !isLineEnd c))
    · have hlayout : (splitLayout (c :: rest)).2 = c :: rest := by
        rw [splitLayout, if_neg hc, if_neg hslash]
      have hstrip : strip ['/', '/'] (c :: rest) = none := by
        rw [strip]
        split
        · next hfirst =>
          cases rest with
          | nil => rfl
          | cons d after =>
            rw [strip, if_neg]
            rintro rfl
            exact hslash ⟨hfirst.symm, rfl⟩
        · rfl
      have hcomment := @matches_comment whole (c :: rest)
      rw [hstrip] at hcomment
      rw [hlayout]
      exact .stop (.seqFails hcomment)
termination_by cs.length
decreasing_by
  simp only [List.length_cons] at *
  omega

/-- Skipping layout never fails. -/
theorem matches_skip (cs : List Char) : Matches whole skip cs (some (splitLayout cs).2) :=
  .seq (.many_char matches_whitespace cs) (matches_comments cs)

end RangeRules.Peg
