import RangeRules.Proofs.Token.Cut

/-!
# Parentheses put into a text

A parenthesis is a lexeme by itself. No lexeme before it goes on over it, and where it ends layout
nothing of the layout is left open. So it may be put wherever a text may be cut, in front of a token
or right after one: it is a token there, and all others are what they were.
-/
namespace RangeRules.Token

open Text (byteCount)

/-- The parentheses, as characters and as tokens. -/
inductive IsParenthesis : Char → Kind → Prop where
  | opening : IsParenthesis '(' .lparen
  | closing : IsParenthesis ')' .rparen

namespace IsParenthesis

variable {b : Char} {k : Kind} (h : IsParenthesis b k)
include h

theorem isContinuation : isContinuation b = false := by
  cases h <;> decide

theorem classify (q : List Char) : classify b q = (k, 0) := by
  cases h <;> rfl

theorem ne_slash : b ≠ '/' := by
  cases h <;> decide

theorem settled (q : List Char) : Settled (b :: q) := by
  cases h <;> exact settled_cons.2 ⟨by decide, nofun⟩

/-- At the start of a text a parenthesis is the first token. -/
theorem tokensFrom (q : List Char) (offset : Nat) : ∃ s stop,
    tokensFrom offset (b :: q) = ⟨k, s⟩ :: Token.tokensFrom stop q := by
  have hfirst : (splitLayout (b :: q)).2 = b :: q := by rw [h.settled q]
  rw [tokensFrom_lexeme hfirst, h.classify q]
  exact ⟨_, _, rfl⟩

end IsParenthesis

/--
A parenthesis between two parts of a text is a token after those in `before`, and those after it
are of the same kinds as `after`.
-/
def Admits (offset : Nat) (p q : List Char) (before after : List Token) : Prop :=
  ∀ b k, IsParenthesis b k → ∃ s after',
    tokensFrom offset (p ++ b :: q) = before ++ ⟨k, s⟩ :: after' ∧
      after'.map (·.kind) = after.map (·.kind)

/-- A parenthesis may be put where a text is cut. -/
theorem Cut.admits {offset : Nat} {p q : List Char} {before after : List Token}
    (h : Cut offset p q before after) : Admits offset p q before after := by
  intro b k hb
  obtain ⟨s, stop, htokens⟩ := hb.tokensFrom q (offset + byteCount p)
  refine ⟨s, tokensFrom stop q, ?_, ?_⟩
  · rw [h.severs b q hb.isContinuation hb.ne_slash, htokens]
  · rw [← h.back, map_kind_tokensFrom, map_kind_tokensFrom]

/-- Parentheses may be put around tokens that stand together. -/
theorem exists_surround {before inside after : List Token} {first last : Token} {cs : List Char}
    {offset : Nat} (h : tokensFrom offset cs = before ++ (inside ++ after))
    (hfirst : inside.head? = some first) (hlast : inside.getLast? = some last)
    (hlt : first.span.start < last.span.stop) : ∃ p middle q, cs = p ++ (middle ++ q) ∧
      offset + byteCount p = first.span.start ∧
      offset + byteCount p + byteCount middle = last.span.stop ∧
      (tokensFrom offset (p ++ '(' :: (middle ++ ')' :: q))).map (·.kind) =
        before.map (·.kind) ++
          .lparen :: (inside.map (·.kind) ++ .rparen :: after.map (·.kind)) := by
  obtain ⟨init, rfl⟩ := List.getLast?_eq_some_iff.1 hlast
  obtain ⟨tail, hinside⟩ := List.head?_eq_some_iff.1 hfirst
  -- First the closing one is put in, which leaves the places before it as they are.
  rw [List.append_assoc, List.singleton_append, ← List.append_assoc] at h
  obtain ⟨p, q, rfl, hstop, hclosing⟩ := exists_cut_after h
  obtain ⟨_, after', hclosed, hafter⟩ := hclosing.admits ')' .rparen .closing
  rw [List.append_assoc before, hinside, List.append_assoc, List.cons_append] at hclosed
  -- The opening one is put in further left.
  obtain ⟨p', q', hsplit, hstart, hopening⟩ := exists_cut_before hclosed
  obtain ⟨_, rest, hopened, hrest⟩ := hopening.admits '(' .lparen .opening
  obtain ⟨middle, rfl, rfl⟩ : ∃ middle, p = p' ++ middle ∧ q' = middle ++ ')' :: q := by
    obtain ⟨between, hp', -⟩ | ⟨middle, hp, hq'⟩ := List.append_eq_append_iff.1 hsplit
    · have hbytes := congrArg byteCount hp'
      rw [Text.byteCount_append] at hbytes
      omega
    · exact ⟨middle, hp, hq'⟩
  rw [Text.byteCount_append, ← Nat.add_assoc] at hstop
  refine ⟨p', middle, q, List.append_assoc .., hstart, hstop, ?_⟩
  rw [hopened, List.map_append, List.map_cons, hrest, hinside]
  simp [hafter]

end RangeRules.Token
