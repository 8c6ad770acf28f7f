import RangeRules.Proofs.Evaluation.Parallel
import RangeRules.Proofs.Evaluation.Soundness
import RangeRules.Proofs.Interval.Inclusion

/-!
# The lattice of descriptions

An interval encloses another one if it contains all its numbers, and the union of two descriptions
of one type is the least that encloses both. `encloses_union_iff` says so for every type at once,
and the laws of the union follow from the order: two descriptions are the same if the same ones
enclose them. Which zero a bound is makes no difference there. Descriptions of two types have
nothing above them, and their union is undefined, as is every union with it.
-/
namespace RangeRules

namespace Interval

variable {i j : Interval}

/-- What contains all numbers of a well-formed interval contains its bounds, and so encloses it. -/
theorem encloses_iff_forall_contains (hj : j.WellFormed) :
    i.encloses j = true ↔ ∀ x, j.contains x = true → i.contains x = true := by
  constructor
  · exact fun h x hx => contains_of_encloses h hx
  · intro h
    have hlo := (contains_iff i j.lo).1 (h j.lo hj.contains_lo)
    have hhi := (contains_iff i j.hi).1 (h j.hi hj.contains_hi)
    exact (encloses_iff i j).2 ⟨⟨hlo.1, ((wellFormed_iff j).1 hj).1⟩, hlo.2.2.1, hhi.2.2.2⟩

theorem encloses_union_iff (w : Interval) (hi : i.Bounded) (hj : j.Bounded) :
    w.encloses (i.union j) = true ↔ w.encloses i = true ∧ w.encloses j = true := by
  have hlo := Number.value_lesser hi.1 hj.1
  have hhi := Number.value_greater hi.2 hj.2
  have hunion := bounded_union hi hj
  rw [encloses_iff, encloses_iff, encloses_iff]
  change _ ∧ w.lo.value ≤ (Number.lesser i.lo j.lo).value ∧
    (Number.greater i.hi j.hi).value ≤ w.hi.value ↔ _
  rw [hlo.2, hhi.2, le_min_iff, max_le_iff]
  tauto

/-- A well-formed interval that encloses two others, and lies within every such one. -/
structure LeastEnclosing (u i j : Interval) : Prop where
  wellFormed : u.WellFormed
  left : u.encloses i = true
  right : u.encloses j = true
  least : ∀ k : Interval, k.WellFormed → k.encloses i = true → k.encloses j = true →
    k.encloses u = true

theorem leastEnclosing_union (hi : i.WellFormed) (hj : j.WellFormed) :
    LeastEnclosing (i.union j) i j := by
  have hunion := wellFormed_union hi hj
  rw [wellFormed_iff] at hi hj
  have hself := encloses_refl ((wellFormed_iff _).1 hunion).1
  obtain ⟨hleft, hright⟩ := (encloses_union_iff _ hi.1 hj.1).1 hself
  exact ⟨hunion, hleft, hright, fun k _ hki hkj =>
    (encloses_union_iff k hi.1 hj.1).2 ⟨hki, hkj⟩⟩

end Interval

theorem BooleanSet.encloses_union_iff (w s t : BooleanSet) :
    w.encloses (s.union t) = true ↔ w.encloses s = true ∧ w.encloses t = true := by
  cases w <;> cases s <;> cases t <;> decide

namespace AbstractValue

variable {a b c : AbstractValue}

theorem type_eq_of_encloses (h : a.encloses b = true) : a.type = b.type := by
  cases a <;> cases b <;> first | rfl | exact absurd h Bool.false_ne_true

theorem encloses_self (ha : a.Admits Interval.WellFormed) : a.encloses a = true := by
  cases a with
  | interval i => exact Interval.encloses_refl ((Interval.wellFormed_iff i).1 ha).1
  | boolean s => exact s.encloses_self
  | undefined => rfl

theorem contains_of_encloses {v : Value} (h : a.encloses b = true) (hv : b.contains v = true) :
    a.contains v = true := by
  obtain ⟨i, j, rfl, rfl⟩ | ⟨s, t, rfl, rfl⟩ | ⟨rfl, rfl⟩ :=
    cases_of_type_eq (type_eq_of_encloses h)
  · cases v with
    | number x => exact Interval.contains_of_encloses h hv
    | boolean | undefined => exact hv
  · cases v with
    | boolean b => exact BooleanSet.contains_of_encloses h hv
    | number | undefined => exact hv
  · exact hv

/-- Two descriptions are the same if each encloses the other. -/
theorem same_iff_encloses (a b : AbstractValue) :
    a.same b = true ↔ a.encloses b = true ∧ b.encloses a = true := by
  cases a with
  | interval i =>
    cases b with
    | interval j => exact Interval.same_iff_encloses i j
    | boolean | undefined => simp [same, encloses]
  | boolean s =>
    cases b with
    | boolean t => cases s <;> cases t <;> decide
    | interval | undefined => simp [same, encloses]
  | undefined => cases b <;> simp [same, encloses]

/-- Two descriptions are the same if the same ones enclose them. -/
theorem same_of_encloses_iff (ha : a.Admits Interval.WellFormed) (hb : b.Admits Interval.WellFormed)
    (h : ∀ w : AbstractValue, w.encloses a = true ↔ w.encloses b = true) : a.same b = true :=
  (same_iff_encloses a b).2 ⟨(h a).1 (encloses_self ha), (h b).2 (encloses_self hb)⟩

/-! ### Unions -/

theorem undefined_union (a : AbstractValue) : AbstractValue.undefined.union a = .undefined := rfl

theorem union_undefined (a : AbstractValue) : a.union .undefined = .undefined := by
  cases a <;> rfl

theorem union_of_type_ne (h : a.type ≠ b.type) : a.union b = .undefined := by
  cases a <;> cases b <;> first | rfl | exact absurd rfl h

theorem encloses_union_iff (w : AbstractValue) (ha : a.Admits Interval.WellFormed)
    (hb : b.Admits Interval.WellFormed) (htype : a.type = b.type) :
    w.encloses (a.union b) = true ↔ w.encloses a = true ∧ w.encloses b = true := by
  obtain ⟨i, j, rfl, rfl⟩ | ⟨s, t, rfl, rfl⟩ | ⟨rfl, rfl⟩ := cases_of_type_eq htype
  · cases w with
    | interval w =>
      exact Interval.encloses_union_iff w ((Interval.wellFormed_iff i).1 ha).1
        ((Interval.wellFormed_iff j).1 hb).1
    | boolean w => simp [union, encloses]
    | undefined => simp [union, encloses]
  · cases w with
    | boolean w => exact BooleanSet.encloses_union_iff w s t
    | interval w => simp [union, encloses]
    | undefined => simp [union, encloses]
  · exact (and_self_iff).symm

theorem admits_union (ha : a.Admits Interval.WellFormed) (hb : b.Admits Interval.WellFormed) :
    (a.union b).Admits Interval.WellFormed :=
  ha.union Soundness.closed_wellFormed hb

theorem same_union_comm (ha : a.Admits Interval.WellFormed) (hb : b.Admits Interval.WellFormed) :
    (a.union b).same (b.union a) = true := by
  by_cases htype : a.type = b.type
  · refine same_of_encloses_iff (admits_union ha hb) (admits_union hb ha) fun w => ?_
    rw [encloses_union_iff w ha hb htype, encloses_union_iff w hb ha htype.symm, and_comm]
  · rw [union_of_type_ne htype, union_of_type_ne (Ne.symm htype)]
    rfl

theorem same_union_assoc (ha : a.Admits Interval.WellFormed) (hb : b.Admits Interval.WellFormed)
    (hc : c.Admits Interval.WellFormed) :
    ((a.union b).union c).same (a.union (b.union c)) = true := by
  by_cases hab : a.type = b.type
  · by_cases hbc : b.type = c.type
    · have hleft : (a.union b).type = c.type := (type_union hab).trans (hab.trans hbc)
      have hright : a.type = (b.union c).type := hab.trans (type_union hbc).symm
      have hab' := admits_union ha hb
      have hbc' := admits_union hb hc
      refine same_of_encloses_iff (admits_union hab' hc) (admits_union ha hbc') fun w => ?_
      rw [encloses_union_iff w hab' hc hleft, encloses_union_iff w ha hbc' hright,
        encloses_union_iff w ha hb hab, encloses_union_iff w hb hc hbc, and_assoc]
    · have hleft : (a.union b).type ≠ c.type := fun h =>
        hbc (hab.symm.trans ((type_union hab).symm.trans h))
      rw [union_of_type_ne hleft, union_of_type_ne hbc, union_undefined]
      rfl
  · rw [union_of_type_ne hab, undefined_union]
    -- the union of the last two is of the type of `b`, or undefined
    by_cases hbc : b.type = c.type
    · have hright : a.type ≠ (b.union c).type := fun h => hab (h.trans (type_union hbc))
      rw [union_of_type_ne hright]
      rfl
    · rw [union_of_type_ne hbc, union_undefined]
      rfl

theorem same_union_self (ha : a.Admits Interval.WellFormed) : (a.union a).same a = true := by
  refine same_of_encloses_iff (admits_union ha ha) ha fun w => ?_
  rw [encloses_union_iff w ha ha rfl, and_self_iff]

/-- The union of two descriptions of one type describes all that either does. -/
theorem contains_union (ha : a.Admits Interval.WellFormed) (hb : b.Admits Interval.WellFormed)
    (htype : a.type = b.type) {v : Value} (h : a.contains v = true ∨ b.contains v = true) :
    (a.union b).contains v = true := by
  obtain ⟨hleft, hright⟩ :=
    (encloses_union_iff (a.union b) ha hb htype).1 (encloses_self (admits_union ha hb))
  exact h.elim (contains_of_encloses hleft) (contains_of_encloses hright)

/-- The laws of the union of descriptions, where descriptions with equal bounds are the same. -/
structure UnionLaws (a b c : AbstractValue) : Prop where
  comm : (a.union b).same (b.union a) = true
  assoc : ((a.union b).union c).same (a.union (b.union c)) = true
  self : (a.union a).same a = true
  undefined_left : AbstractValue.undefined.union a = .undefined
  undefined_right : a.union .undefined = .undefined
  contains : a.sameType b = true →
    ∀ v, a.contains v = true ∨ b.contains v = true → (a.union b).contains v = true
  apart : a.sameType b = false → a.union b = .undefined

/-- Intervals are ordered by what they contain, and their union is the least upper bound in that
order. The union of descriptions joins those of one type, in any order and grouping, and is
undefined where two types meet. -/
theorem union_lattice {i j : Interval} (hi : i.WellFormed) (hj : j.WellFormed)
    (ha : a.Admits Interval.WellFormed) (hb : b.Admits Interval.WellFormed)
    (hc : c.Admits Interval.WellFormed) :
    (i.encloses j = true ↔ ∀ x, j.contains x = true → i.contains x = true) ∧
      Interval.LeastEnclosing (i.union j) i j ∧ UnionLaws a b c where
  left := Interval.encloses_iff_forall_contains hj
  right := by
    refine ⟨Interval.leastEnclosing_union hi hj, ?_⟩
    exact {
      comm := same_union_comm ha hb
      assoc := same_union_assoc ha hb hc
      self := same_union_self ha
      undefined_left := undefined_union a
      undefined_right := union_undefined a
      contains := fun htype v h => contains_union ha hb (of_decide_eq_true htype) h
      apart := fun htype => union_of_type_ne (of_decide_eq_false htype) }

/-- The numbers that are not above zero, and those that are not below; the bounds in the middle are
different zeros. -/
def nonpositive : Interval := ⟨-Number.infinity, -0.0⟩

def nonnegative : Interval := ⟨0.0, Number.infinity⟩

theorem union_lattice_zeros :
    nonpositive.WellFormed ∧ nonnegative.WellFormed ∧ (Interval.singleton 0.0).WellFormed ∧
      (nonpositive.encloses nonnegative = true ↔
        ∀ x, nonnegative.contains x = true → nonpositive.contains x = true) ∧
      Interval.LeastEnclosing (nonpositive.union nonnegative) nonpositive nonnegative ∧
      UnionLaws (.interval nonpositive) (.interval nonnegative) (.interval (.singleton 0.0)) := by
  have hbelow : nonpositive.WellFormed := ⟨by decide +kernel, by decide +kernel, by decide +kernel⟩
  have habove : nonnegative.WellFormed := ⟨by decide +kernel, by decide +kernel, by decide +kernel⟩
  have hzero : (Interval.singleton 0.0).WellFormed :=
    ⟨by decide +kernel, by decide +kernel, by decide +kernel⟩
  have hlattice := @union_lattice (.interval nonpositive) (.interval nonnegative)
    (.interval (.singleton 0.0)) _ _ hbelow habove hbelow habove hzero
  exact ⟨hbelow, habove, hzero, hlattice⟩

end AbstractValue

end RangeRules
