import RangeRules.Proofs.Interval.WellFormed
import RangeRules.Value.Abstract

/-!
# How intervals come about

An interval has checked bounds, describes a value, is all numbers, or is computed from other
intervals. There is no other way, and none gives bounds that would not pass the check.

Some callers vouch for the bounds they make an interval of. A refusal is then no result but the end
of the run. `Interval.insist` is what they call, and their definitions are repeated here with that
end left visible; it is never reached.
-/
namespace RangeRules

/-- The end of a run that made an interval of bounds that are none. -/
structure Abort where
  cause : IntervalError

def Abort.message (abort : Abort) : String := s!"invalid interval: {abort.cause.message}"

namespace Interval

/-- The interval of two bounds that the caller vouches for. -/
def insist (lo hi : Number) : Except Abort Interval := (make? lo hi).mapError Abort.mk

/-- The interval of one number that the caller vouches for. -/
def insistPoint (x : Number) : Except Abort Interval := insist x x

theorem insist_eq_ok {lo hi : Number} {i : Interval} :
    insist lo hi = .ok i ↔ make? lo hi = .ok i := by
  unfold insist
  cases make? lo hi <;> simp [Except.mapError]

/-- A well-formed interval is what the check of its bounds gives. -/
theorem wellFormed_iff_make? (i : Interval) : i.WellFormed ↔ make? i.lo i.hi = .ok i := by
  rw [wellFormed_iff, make?_eq_ok, lt_top_iff_ne_top, bot_lt_iff_ne_bot]
  unfold Bounded
  simp only [and_true]

theorem WellFormed.insist_eq {lo hi : Number} (h : WellFormed ⟨lo, hi⟩) :
    insist lo hi = .ok ⟨lo, hi⟩ := by
  rw [insist_eq_ok]
  exact (wellFormed_iff_make? ⟨lo, hi⟩).1 h

theorem wellFormed_singleton {x : Number} (h : x.isFinite = true) : (singleton x).WellFormed :=
  wellFormed_of_make? (make?_of_isFinite h)

/-- The largest finite number and what is beyond. -/
theorem wellFormed_overflow : WellFormed ⟨Number.largest, Number.infinity⟩ :=
  ⟨by decide +kernel, by decide +kernel, by decide +kernel⟩

theorem wellFormed_underflow : WellFormed ⟨-Number.infinity, -Number.largest⟩ :=
  ⟨by decide +kernel, by decide +kernel, by decide +kernel⟩

end Interval

namespace Value

/-- The description of a value, which insists on its bounds. -/
def liftInsisting : Value → Except Abort AbstractValue
  | .number x =>
    if x.isNaN then .ok (.interval .entire)
    else if x == Number.infinity then
      (Interval.insist Number.largest Number.infinity).map .interval
    else if x == -Number.infinity then
      (Interval.insist (-Number.infinity) (-Number.largest)).map .interval
    else (Interval.insistPoint x).map .interval
  | .boolean b => .ok (.boolean (.singleton b))
  | .undefined => .ok .undefined

/-- The infinities are told apart before, so that a point is only made of a finite number. -/
theorem isFinite_of_ne {x : Number} (hnan : ¬ x.isNaN = true)
    (htop : ¬ (x == Number.infinity) = true) (hbot : ¬ (x == -Number.infinity) = true) :
    x.isFinite = true := by
  rw [Bool.not_eq_true] at hnan
  rw [Number.beq_infinity_iff] at htop
  rw [Number.beq_neg_infinity_iff] at hbot
  rw [Number.isFinite_iff]
  refine ⟨hnan, ?_⟩
  rintro (h | h)
  · exact htop ⟨hnan, h⟩
  · exact hbot ⟨hnan, h⟩

/-- A value is described without an end of the run, and by a well-formed interval if by any. -/
theorem liftInsisting_eq (v : Value) :
    v.liftInsisting = .ok v.lift ∧ ∀ i, v.lift = .interval i → i.WellFormed := by
  have hbranch : ∀ {lo hi : Number}, Interval.WellFormed ⟨lo, hi⟩ →
      (Interval.insist lo hi).map .interval = .ok (AbstractValue.interval ⟨lo, hi⟩) ∧
        ∀ i, AbstractValue.interval ⟨lo, hi⟩ = .interval i → i.WellFormed := by
    intro lo hi h
    rw [h.insist_eq]
    refine ⟨rfl, fun i hi => ?_⟩
    obtain rfl := AbstractValue.interval.inj hi
    exact h
  cases v with
  | boolean b => exact ⟨rfl, nofun⟩
  | undefined => exact ⟨rfl, nofun⟩
  | number x =>
    unfold liftInsisting lift
    dsimp only
    split
    · refine ⟨rfl, fun i hi => ?_⟩
      obtain rfl := AbstractValue.interval.inj hi
      exact Interval.wellFormed_entire
    · next hnan =>
      split
      · exact hbranch Interval.wellFormed_overflow
      · next htop =>
        split
        · exact hbranch Interval.wellFormed_underflow
        · next hbot =>
          exact hbranch (Interval.wellFormed_singleton (isFinite_of_ne hnan htop hbot))

end Value

namespace Interval

/-- The ways to come by an interval. -/
inductive Built : Interval → Prop where
  | checked {lo hi : Number} {i : Interval} (h : make? lo hi = .ok i) : Built i
  | insisted {lo hi : Number} {i : Interval} (h : insist lo hi = .ok i) : Built i
  | point {x : Number} {i : Interval} (h : insistPoint x = .ok i) : Built i
  | entire : Built entire
  | lifted {v : Value} {i : Interval} (h : v.lift = .interval i) : Built i
  | operation (op : Arithmetic) {i j : Interval} (left : Built i) (right : Built j) :
    Built (op.onIntervals i j)
  | union {i j : Interval} (left : Built i) (right : Built j) : Built (i.union j)

theorem Built.wellFormed {i : Interval} (h : i.Built) : i.WellFormed := by
  induction h with
  | checked h => exact wellFormed_of_make? h
  | insisted h => exact wellFormed_of_make? (insist_eq_ok.1 h)
  | point h => exact wellFormed_of_make? (insist_eq_ok.1 h)
  | entire => exact wellFormed_entire
  | @lifted v i h => exact v.liftInsisting_eq.2 i h
  | operation op _ _ ihl ihr => exact wellFormed_onIntervals op ihl ihr
  | union _ _ ihl ihr => exact wellFormed_union ihl ihr

/-- The bounds are those of an interval, and the check finds nothing wrong with them. -/
structure Accepted (i : Interval) : Prop where
  lo_isNaN : i.lo.isNaN = false
  hi_isNaN : i.hi.isNaN = false
  ordered : i.lo ≤ i.hi
  lo_ne : ¬ (i.lo == Number.infinity) = true
  hi_ne : ¬ (i.hi == -Number.infinity) = true
  accepted : make? i.lo i.hi = .ok i

theorem WellFormed.accepted {i : Interval} (h : i.WellFormed) : i.Accepted := by
  have hmake := (wellFormed_iff_make? i).1 h
  obtain ⟨hbounded, -, hlo, hhi⟩ := (wellFormed_iff i).1 h
  refine ⟨hbounded.1, hbounded.2, h.ordered, ?_, ?_, hmake⟩
  · rw [Number.beq_infinity_iff]
    exact fun heq => hlo.ne heq.2
  · rw [Number.beq_neg_infinity_iff]
    exact fun heq => hhi.ne' heq.2

end Interval

end RangeRules
