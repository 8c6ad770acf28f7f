import RangeRules.Token.Scan

/-!
# Places of tokens

The tokens of a text stand one after the other in it, and none is empty.
-/
namespace RangeRules

namespace Text

theorem byteCount_append (cs ds : Source) : byteCount (cs ++ ds) = byteCount cs + byteCount ds := by
  induction cs with
  | nil => exact (Nat.zero_add _).symm
  | cons c cs ih =>
    rw [List.cons_append, byteCount, byteCount, ih, Nat.add_assoc]

theorem byteCount_cons_pos (c : Char) (cs : Source) : 0 < byteCount (c :: cs) :=
  Nat.lt_of_lt_of_le c.utf8Size_pos (Nat.le_add_right ..)

end Text

namespace Token

open Text (byteCount)

mutual

theorem splitLayout_append : ∀ cs, (splitLayout cs).1 ++ (splitLayout cs).2 = cs
  | [] => rfl
  | c :: cs => by
    have hl := splitLayout_append cs
    have hc := splitComment_append cs
    rw [splitLayout]
    split
    · exact congrArg (c :: ·) hl
    · split
      · exact congrArg (c :: ·) hc
      · rfl

theorem splitComment_append : ∀ cs, (splitComment cs).1 ++ (splitComment cs).2 = cs
  | [] => rfl
  | c :: cs => by
    have hl := splitLayout_append cs
    have hc := splitComment_append cs
    rw [splitComment]
    dsimp only
    split
    · exact congrArg (c :: ·) hl
    · exact congrArg (c :: ·) hc

end

/-- Tokens that are not empty and stand one after the other between two offsets. -/
def Ordered (finish : Nat) : Nat → List Token → Prop
  | offset, [] => offset ≤ finish
  | offset, t :: ts =>
    offset ≤ t.span.start ∧ t.span.start < t.span.stop ∧ Ordered finish t.span.stop ts

theorem Ordered.mono {finish offset offset' : Nat} {ts : List Token}
    (h : Ordered finish offset ts) (hle : offset' ≤ offset) : Ordered finish offset' ts := by
  cases ts with
  | nil => exact Nat.le_trans hle h
  | cons t ts => exact ⟨Nat.le_trans hle h.1, h.2⟩

/-- What comes before ordered tokens comes before the start of the first. -/
theorem Ordered.startOf {finish offset : Nat} {ts : List Token} (h : Ordered finish offset ts) :
    offset ≤ startOf finish ts ∧ Ordered finish (startOf finish ts) ts := by
  cases ts with
  | nil => exact ⟨h, Nat.le_refl _⟩
  | cons t ts => exact ⟨h.1, Nat.le_refl _, h.2⟩

/-- The tokens of a text lie in it, from the offset on at which it is placed. -/
theorem ordered_place (cs : List Char) (offset : Nat) :
    Ordered (offset + byteCount cs) offset (place offset (Scan.of cs).lexemes) := by
  induction hlength : cs.length using Nat.strongRecOn generalizing cs offset with
  | _ n ih =>
  subst hlength
  have hsplit := splitLayout_append cs
  have hle := splitLayout_length cs
  rw [Scan.of]
  split
  · exact Nat.le_add_right ..
  · next gap c rest hlayout =>
    rw [hlayout] at hsplit hle
    dsimp only at hsplit hle ⊢
    rw [List.length_cons] at hle
    have hshorter : (rest.drop (classify c rest).2).length < cs.length := by
      rw [List.length_drop]
      omega
    have hbytes : byteCount cs = byteCount gap +
        (byteCount (c :: rest.take (classify c rest).2) +
          byteCount (rest.drop (classify c rest).2)) := by
      rw [← Text.byteCount_append, List.cons_append, List.take_append_drop, ← Text.byteCount_append,
        hsplit]
    have hpos := Text.byteCount_cons_pos c (rest.take (classify c rest).2)
    have htail := ih _ hshorter (rest.drop (classify c rest).2)
      (offset + byteCount gap + byteCount (c :: rest.take (classify c rest).2)) rfl
    refine ⟨Nat.le_add_right .., Nat.lt_add_of_pos_right hpos, ?_⟩
    rw [hbytes]
    simpa only [Nat.add_assoc] using htail

/-- Kinds have no places. -/
theorem map_kind_place (offset : Nat) (ls : List Lexeme) :
    (place offset ls).map (·.kind) = ls.map (·.kind) := by
  induction ls generalizing offset with
  | nil => rfl
  | cons l ls ih => exact congrArg (l.kind :: ·) (ih _)

theorem Sequence.map_kind (source : Text.Source) :
    (Sequence.of source).tokens.map (·.kind) = kinds source :=
  map_kind_place 0 _

theorem Sequence.ordered (source : Text.Source) :
    Ordered (Sequence.of source).finish 0 (Sequence.of source).tokens := by
  have h := ordered_place source 0
  rwa [Nat.zero_add] at h

end Token

end RangeRules
