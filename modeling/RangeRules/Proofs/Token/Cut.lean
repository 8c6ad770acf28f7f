import RangeRules.Proofs.Token.Seam

/-!
# Texts cut between tokens

A text may be cut in front of any of its tokens and right after any: the two parts have the tokens
before and after. The first part keeps its tokens in front of whatever no lexeme goes on with, since
the last lexeme in it then ends where it did, and the layout after it has come to an end.
-/
namespace RangeRules.Token

open Text (byteCount)

/--
Between `p` and `q` a text is cut into the tokens `before` and `after`. Those in `before` are read
from `p` in front of other texts, too.
-/
structure Cut (offset : Nat) (p q : List Char) (before after : List Token) : Prop where
  front : tokensFrom offset p = before
  back : tokensFrom (offset + byteCount p) q = after
  severs : ∀ b cs, isContinuation b = false → b ≠ '/' →
    tokensFrom offset (p ++ b :: cs) = before ++ tokensFrom (offset + byteCount p) (b :: cs)

/-- Layout that has come to an end moves the tokens after it. -/
theorem IsGap.tokensFrom {gap : List Char} (h : IsGap gap) (cs : List Char) (offset : Nat) :
    tokensFrom offset (gap ++ cs) = tokensFrom (offset + byteCount gap) cs := by
  have hlayout := h.splitLayout_append cs
  cases hrest : (splitLayout cs).2 with
  | nil =>
    rw [tokensFrom_layout hrest, tokensFrom_layout]
    rw [hlayout, hrest]
  | cons c rest =>
    have hboth : (splitLayout (gap ++ cs)).2 = c :: rest := by
      rw [hlayout, hrest]
    rw [tokensFrom_lexeme hrest, tokensFrom_lexeme hboth, hlayout]
    simp only [Text.byteCount_append, Nat.add_assoc]

theorem IsGap.cut {gap : List Char} (h : IsGap gap) (cs : List Char) (offset : Nat) :
    Cut offset gap cs [] (Token.tokensFrom (offset + byteCount gap) cs) where
  front := by
    have hlayout := h.splitLayout_append []
    rw [List.append_nil] at hlayout
    exact tokensFrom_layout (by rw [hlayout]; rfl) offset
  back := rfl
  severs b rest _ _ := h.tokensFrom (b :: rest) offset

/-- Before the first token of a text there is its layout. -/
theorem exists_lexeme {cs : List Char} {offset : Nat} {t : Token} {ts : List Token}
    (h : tokensFrom offset cs = t :: ts) : ∃ c rest, (splitLayout cs).2 = c :: rest ∧
      t = ⟨(classify c rest).1, ⟨offset + byteCount (splitLayout cs).1,
        offset + byteCount (splitLayout cs).1 + byteCount (lexemeAt c rest)⟩⟩ ∧
      tokensFrom (offset + byteCount (splitLayout cs).1 + byteCount (lexemeAt c rest))
        (rest.drop (classify c rest).2) = ts := by
  cases hrest : (splitLayout cs).2 with
  | nil =>
    rw [tokensFrom_layout hrest] at h
    exact nomatch h
  | cons c rest =>
    rw [tokensFrom_lexeme hrest] at h
    obtain ⟨hhead, htail⟩ := List.cons.inj h
    exact ⟨c, rest, rfl, hhead.symm, htail⟩

theorem append_lexeme {cs rest p q : List Char} {c : Char} (h : (splitLayout cs).2 = c :: rest)
    (hdrop : rest.drop (classify c rest).2 = p ++ q) :
    cs = (splitLayout cs).1 ++ (lexemeAt c rest ++ p) ++ q := by
  rw [List.append_assoc, List.append_assoc, ← hdrop, lexemeAt_append_drop, ← h,
    splitLayout_append]

/-- A lexeme that ends with what it ended with is read in front of another text. -/
theorem tokensFrom_before {cs s t : List Char} {c : Char} (h : (splitLayout cs).2 ≠ [])
    (hsettled : Settled (c :: (s ++ t))) (hlength : (classify c (s ++ t)).2 ≤ s.length)
    (offset : Nat) : tokensFrom offset ((splitLayout cs).1 ++ (c :: s ++ t)) =
      ⟨(classify c s).1, ⟨offset + byteCount (splitLayout cs).1,
        offset + byteCount (splitLayout cs).1 + byteCount (lexemeAt c s)⟩⟩ ::
          tokensFrom (offset + byteCount (splitLayout cs).1 + byteCount (lexemeAt c s))
            (s.drop (classify c s).2 ++ t) := by
  have hlayout := splitLayout_before hsettled h
  rw [List.cons_append, tokensFrom_lexeme (congrArg Prod.snd hlayout), hlayout,
    lexemeAt_append hlength, classify_append hlength,
    List.drop_append_of_le_length (classify_le c s)]

/-- A cut further on in a text is a cut after its first lexeme. -/
theorem Cut.lexeme {cs rest p q : List Char} {c : Char} {before after : List Token}
    {offset : Nat} (h : (splitLayout cs).2 = c :: rest)
    (hdrop : rest.drop (classify c rest).2 = p ++ q)
    (hrest : Cut (offset + byteCount (splitLayout cs).1 + byteCount (lexemeAt c rest)) p q
      before after) :
    Cut offset ((splitLayout cs).1 ++ (lexemeAt c rest ++ p)) q
      (⟨(classify c rest).1, ⟨offset + byteCount (splitLayout cs).1,
        offset + byteCount (splitLayout cs).1 + byteCount (lexemeAt c rest)⟩⟩ :: before) after := by
  obtain ⟨s, rfl, hlength, rfl⟩ := exists_of_drop_classify hdrop
  rw [lexemeAt_append hlength] at hrest ⊢
  rw [classify_append hlength, lexemeAt_append_drop]
  have hne : (splitLayout cs).2 ≠ [] := h ▸ List.cons_ne_nil _ _
  have hsettled : Settled (c :: s) := by
    have hwhole := settled_skip cs
    rw [h] at hwhole
    exact hwhole.of_append
  have hbytes : offset + byteCount ((splitLayout cs).1 ++ c :: s) =
      offset + byteCount (splitLayout cs).1 + byteCount (lexemeAt c s) +
        byteCount (s.drop (classify c s).2) := by
    rw [← lexemeAt_append_drop c s]
    simp only [Text.byteCount_append, Nat.add_assoc]
  refine ⟨?_, hbytes ▸ hrest.back, fun b t hb hslash => ?_⟩
  · have hread := @tokensFrom_before cs s [] c hne ((List.append_nil s).symm ▸ hsettled)
      ((List.append_nil s).symm ▸ classify_le c s) offset
    rw [List.append_nil, List.append_nil, hrest.front] at hread
    exact hread
  · have hbefore : Settled (c :: (s ++ b :: t)) :=
      hsettled.append fun hhead => hslash (Option.some.inj hhead)
    rw [List.append_assoc, tokensFrom_before hne hbefore (classify_stops hb s t),
      hrest.severs b t hb hslash, ← hbytes, List.cons_append]

section Exists

variable {before after : List Token} {t : Token} {cs : List Char} {offset : Nat}

/-- A text may be cut right in front of a token. -/
theorem exists_cut_before (h : tokensFrom offset cs = before ++ t :: after) : ∃ p q, cs = p ++ q ∧
    offset + byteCount p = t.span.start ∧ Cut offset p q before (t :: after) := by
  induction before generalizing cs offset with
  | nil =>
    obtain ⟨c, rest, hrest, rfl, -⟩ := exists_lexeme h
    have hcut := (isGap_splitLayout cs (hrest ▸ List.cons_ne_nil _ _)).cut (splitLayout cs).2 offset
    rw [← (isGap_splitLayout cs (hrest ▸ List.cons_ne_nil _ _)).tokensFrom, splitLayout_append,
      h] at hcut
    exact ⟨_, _, (splitLayout_append cs).symm, rfl, hcut⟩
  | cons first before ih =>
    obtain ⟨c, rest, hrest, rfl, htail⟩ := exists_lexeme h
    obtain ⟨p, q, hdrop, hstart, hcut⟩ := ih htail
    refine ⟨_, q, append_lexeme hrest hdrop, ?_, hcut.lexeme hrest hdrop⟩
    rw [← hstart]
    simp only [Text.byteCount_append, Nat.add_assoc]

/-- A text may be cut right after a token. -/
theorem exists_cut_after (h : tokensFrom offset cs = before ++ t :: after) : ∃ p q, cs = p ++ q ∧
    offset + byteCount p = t.span.stop ∧ Cut offset p q (before ++ [t]) after := by
  induction before generalizing cs offset with
  | nil =>
    obtain ⟨c, rest, hrest, rfl, rfl⟩ := exists_lexeme h
    refine ⟨_, _, append_lexeme hrest (List.nil_append _).symm, ?_,
      (IsGap.nil.cut _ _).lexeme hrest (List.nil_append _).symm⟩
    simp only [Text.byteCount_append, byteCount, Nat.add_assoc, Nat.add_zero]
  | cons first before ih =>
    obtain ⟨c, rest, hrest, rfl, htail⟩ := exists_lexeme h
    obtain ⟨p, q, hdrop, hstop, hcut⟩ := ih htail
    refine ⟨_, q, append_lexeme hrest hdrop, ?_, hcut.lexeme hrest hdrop⟩
    rw [← hstop]
    simp only [Text.byteCount_append, Nat.add_assoc]

end Exists

/-! ### Excerpts -/

section Excerpt

variable {inside before after : List Token} {last : Token} {cs : List Char} {offset : Nat}

/-- A text may be cut where the layout after some of its tokens ends. -/
theorem exists_cut_upto (h : tokensFrom offset cs = before ++ after) : ∃ p q, cs = p ++ q ∧
    offset + byteCount p = startOf (offset + byteCount cs) after ∧
      tokensFrom offset p = before := by
  cases after with
  | nil =>
    rw [List.append_nil] at h
    exact ⟨cs, [], (List.append_nil cs).symm, rfl, h⟩
  | cons t after =>
    obtain ⟨p, q, hcs, hstart, hcut⟩ := exists_cut_before h
    exact ⟨p, q, hcs, hstart, hcut.front⟩

/--
Tokens that stand together are those of a part of the text, which ends with the last of them or with
the layout after it.
-/
theorem exists_excerpt (h : tokensFrom offset cs = before ++ (inside ++ last :: after))
    (wide : Bool) : ∃ p text layout q, cs = p ++ (text ++ layout ++ q) ∧
      offset + byteCount p = startOf last.span.start inside ∧
      offset + byteCount p + byteCount text = last.span.stop ∧
      offset + byteCount p + byteCount (text ++ layout) =
        (if wide then startOf (offset + byteCount cs) after else last.span.stop) ∧
      tokensFrom (offset + byteCount p) (text ++ layout) = inside ++ [last] ∧
      kinds layout = [] ∧ (wide = false → layout = []) := by
  obtain ⟨p, u, rfl, hstart, hback⟩ : ∃ p u, cs = p ++ u ∧
      offset + byteCount p = startOf last.span.start inside ∧
      tokensFrom (offset + byteCount p) u = inside ++ last :: after := by
    cases inside with
    | nil =>
      obtain ⟨p, u, hcs, hstart, hcut⟩ := exists_cut_before h
      exact ⟨p, u, hcs, hstart, hcut.back⟩
    | cons first inside =>
      obtain ⟨p, u, hcs, hstart, hcut⟩ := exists_cut_before h
      exact ⟨p, u, hcs, hstart, hcut.back⟩
  rw [List.append_cons] at hback
  obtain ⟨m, q, rfl, hupto, hm⟩ := exists_cut_upto hback
  obtain ⟨text, layout, rfl, hstop, hcut⟩ := exists_cut_after hm
  have hlayout : kinds layout = [] := by
    rw [← map_kind_tokensFrom (offset + byteCount p + byteCount text), hcut.back, List.map_nil]
  have hfinish : offset + byteCount p + byteCount (text ++ layout ++ q) =
      offset + byteCount (p ++ (text ++ layout ++ q)) := by
    rw [Text.byteCount_append p, Nat.add_assoc]
  rw [hfinish] at hupto
  cases wide with
  | true => exact ⟨p, text, layout, q, rfl, hstart, hstop, hupto, hm, hlayout, nofun⟩
  | false =>
    refine ⟨p, text, [], layout ++ q, by simp, hstart, hstop, ?_, ?_, kinds_of_lexes .nil,
      fun _ => rfl⟩
    · rw [List.append_nil]
      exact hstop
    · rw [List.append_nil]
      exact hcut.front

end Excerpt

end RangeRules.Token
