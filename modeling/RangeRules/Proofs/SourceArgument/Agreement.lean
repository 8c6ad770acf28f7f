import RangeRules.Proofs.Bindings.Lookup
import RangeRules.Proofs.Evaluation.Steps
import RangeRules.Proofs.Interval.WellFormed
import RangeRules.SourceArgument

/-!
# One list of arguments, two kinds of run

Arguments that name one value each can be given to a run on values. They describe the same sources
to a run on descriptions: the same names in the same order, and each value within its description.
The one exception is a range from an infinity to itself. It names a value, but there is no interval
of an infinity alone, so that only the run on descriptions refuses it.
-/
namespace RangeRules

theorem mapM_cons_eq_ok {E A B : Type} {f : A → Except E B} {x : A} {xs : List A} {ys : List B} :
    (x :: xs).mapM f = .ok ys ↔ ∃ y rest, f x = .ok y ∧ xs.mapM f = .ok rest ∧ ys = y :: rest := by
  rw [List.mapM_cons]
  constructor
  · intro h
    obtain ⟨y, hy, h⟩ := then_eq_ok.1 h
    obtain ⟨rest, hrest, h⟩ := then_eq_ok.1 h
    exact ⟨y, rest, hy, hrest, (Except.ok.inj h).symm⟩
  · rintro ⟨y, rest, hy, hrest, rfl⟩
    rw [hy, hrest]
    rfl

/-- What a list is gone through to is made of its elements. -/
theorem exists_of_mem_mapM {E A B : Type} {f : A → Except E B} {xs : List A} {ys : List B}
    (h : xs.mapM f = .ok ys) : ∀ y ∈ ys, ∃ x, f x = .ok y := by
  induction xs generalizing ys with
  | nil =>
    obtain rfl := Except.ok.inj h
    exact nofun
  | cons x xs ih =>
    obtain ⟨y, rest, hy, hrest, rfl⟩ := mapM_cons_eq_ok.1 h
    exact List.forall_mem_cons.2 ⟨⟨x, hy⟩, ih hrest⟩

/-! ### One specification -/

namespace SourceSpec

/-- A number that is read as a specification is finite. -/
theorem isFinite_of_read {cs : List Char} {x : Number} (h : read cs = .ok (.number x)) :
    x.isFinite = true := by
  have hnumeric : ∀ cs, numeric? cs = some (.number x) → x.isFinite = true := by
    intro cs h
    unfold numeric? at h
    split at h
    · simp [Option.bind_eq_some_iff] at h
    · obtain ⟨y, -, h⟩ := Option.bind_eq_some_iff.1 h
      split at h
      · next hfinite =>
        obtain rfl := SourceSpec.number.inj (Option.some.inj h)
        exact hfinite
      · exact nomatch h
  unfold read at h
  dsimp only at h
  split at h
  · exact nomatch h
  · exact nomatch h
  · exact nomatch h
  · split at h
    · next spec hspec =>
      obtain rfl := Except.ok.inj h
      exact hnumeric _ hspec
    · exact nomatch h

/-- The specification is a range from an infinity to itself. -/
def OnlyInfinity (spec : SourceSpec) : Prop :=
  ∃ lo hi, spec = .range lo hi ∧ (lo == hi) = true ∧ lo.isFinite = false

variable {lo hi : Number}

/-- A range of one finite number is the interval of that number. -/
theorem toAbstract_range (h : (lo == hi) = true) (hfinite : lo.isFinite = true) :
    toAbstract (.range lo hi) = .ok (.interval ⟨lo, hi⟩) ∧
      (AbstractValue.interval ⟨lo, hi⟩).contains (.number lo) = true := by
  obtain ⟨⟨hlo, hhi⟩, hvalue⟩ := (Number.beq_iff lo hi).1 h
  obtain ⟨-, hinfinite⟩ := (Number.isFinite_iff lo).1 hfinite
  have hmake : Interval.make? lo hi = .ok ⟨lo, hi⟩ :=
    Interval.make?_eq_ok.2 ⟨⟨hlo, hhi⟩, hvalue.le, fun htop => hinfinite (.inl htop),
      fun hbot => hinfinite (.inr (hvalue.trans hbot)), rfl⟩
  refine ⟨by rw [toAbstract, hmake], decide_eq_true ⟨?_, ?_⟩⟩
  · exact (Number.le_iff lo lo).2 ⟨⟨hlo, hlo⟩, le_rfl⟩
  · exact (Number.le_iff lo hi).2 ⟨⟨hlo, hhi⟩, hvalue.le⟩

/-- A range of an infinity alone has no real number in it. -/
theorem toAbstract_range_infinite (h : (lo == hi) = true) (hinfinite : lo.isFinite = false) :
    toAbstract (.range lo hi) = .error (.invalidRange (.noRealValue lo hi)) := by
  obtain ⟨⟨hlo, hhi⟩, hvalue⟩ := (Number.beq_iff lo hi).1 h
  have hmake : Interval.make? lo hi = .error (.noRealValue lo hi) := by
    unfold Interval.make?
    rw [hlo, hhi, if_neg (by simp), if_neg, if_pos]
    · rw [Number.beq_infinity_iff, Number.beq_neg_infinity_iff, ← hvalue]
      obtain hnan | htop | hbot := (Number.isFinite_eq_false_iff lo).1 hinfinite
      · exact nomatch hlo.symm.trans hnan
      · exact .inl ⟨hlo, htop⟩
      · exact .inr ⟨hhi, hbot⟩
    · rw [Number.lt_iff, hvalue]
      exact fun hlt => lt_irrefl _ hlt.2
  rw [toAbstract, hmake]

/-- A specification of one value describes the value, or is refused for lack of a real number. -/
theorem describes {spec : SourceSpec} {v : Value}
    (hnumber : ∀ x, spec = .number x → x.isFinite = true) (h : spec.toConcrete? = some v) :
    (¬ spec.OnlyInfinity ∧ ∃ a, spec.toAbstract = .ok a ∧ a.contains v = true) ∨
      (spec.OnlyInfinity ∧
        ∃ lo hi, spec.toAbstract = .error (.invalidRange (.noRealValue lo hi))) := by
  cases spec with
  | anyBoolean => exact nomatch h
  | boolean b =>
    obtain rfl := Option.some.inj h
    exact .inl ⟨nofun, _, rfl, by cases b <;> rfl⟩
  | number x =>
    obtain rfl := Option.some.inj h
    obtain ⟨hnan, -⟩ := (Number.isFinite_iff x).1 (hnumber x rfl)
    have hle : x ≤ x := (Number.le_iff x x).2 ⟨⟨hnan, hnan⟩, le_rfl⟩
    exact .inl ⟨nofun, _, rfl, decide_eq_true ⟨hle, hle⟩⟩
  | range lo hi =>
    obtain ⟨heq, hv⟩ := Option.ite_none_right_eq_some.1 h
    obtain rfl := Option.some.inj hv
    cases hfinite : lo.isFinite with
    | true =>
      refine .inl ⟨?_, _, toAbstract_range heq hfinite⟩
      rintro ⟨lo', hi', hrange, -, hinfinite⟩
      obtain ⟨rfl, rfl⟩ := SourceSpec.range.inj hrange
      exact nomatch hfinite.symm.trans hinfinite
    | false =>
      exact .inr ⟨⟨lo, hi, rfl, heq, hfinite⟩, lo, hi, toAbstract_range_infinite heq hfinite⟩

end SourceSpec

/-! ### All arguments -/

namespace SourceArgument

theorem isFinite_of_read {cs : List Char} {a : SourceArgument} (h : read cs = .ok a) {x : Number}
    (hspec : a.spec = .number x) : x.isFinite = true := by
  unfold read at h
  split at h
  · exact nomatch h
  · split at h
    · exact nomatch h
    · obtain ⟨spec, hread, h⟩ := then_eq_ok.1 h
      obtain rfl := Except.ok.inj h
      obtain rfl : spec = .number x := hspec
      exact SourceSpec.isFinite_of_read hread

/-- The entry that an argument adds to the sources of a run on descriptions. -/
def describe (a : SourceArgument) : Except SourceError (String × AbstractValue) := do
  return (a.name, ← a.spec.toAbstract)

/-- The entry that an argument adds to the sources of a run on values. -/
def evaluate (a : SourceArgument) : Except SourceError (String × Value) :=
  match a.spec.toConcrete? with
  | some v => .ok (a.name, v)
  | none => .error (.notConcrete a.name)

theorem evaluate_eq_ok {a : SourceArgument} {y : String × Value} :
    a.evaluate = .ok y ↔ a.name = y.1 ∧ a.spec.toConcrete? = some y.2 := by
  obtain ⟨name, v⟩ := y
  unfold evaluate
  split
  · next w hw =>
    rw [hw]
    simp
  · next hnone =>
    rw [hnone]
    exact ⟨nofun, fun h => nomatch h.2⟩

/-- Arguments of one value each describe these values, or one of them is refused. -/
theorem describes_all {args : List SourceArgument} {entries : List (String × Value)}
    (hnumber : ∀ a ∈ args, ∀ x, a.spec = .number x → x.isFinite = true)
    (h : args.mapM evaluate = .ok entries) :
    ((∀ a ∈ args, ¬ a.spec.OnlyInfinity) ∧ ∃ entries', args.mapM describe = .ok entries' ∧
      List.Forall₂ (fun x y => x.1 = y.1 ∧ x.2.contains y.2 = true) entries' entries) ∨
    ((∃ a ∈ args, a.spec.OnlyInfinity) ∧
      ∃ lo hi, args.mapM describe = .error (.invalidRange (.noRealValue lo hi))) := by
  induction args generalizing entries with
  | nil =>
    obtain rfl := Except.ok.inj h
    exact .inl ⟨nofun, [], rfl, .nil⟩
  | cons a args ih =>
    obtain ⟨y, rest, hy, hrest, rfl⟩ := mapM_cons_eq_ok.1 h
    obtain ⟨hname, hvalue⟩ := evaluate_eq_ok.1 hy
    rw [List.mapM_cons]
    obtain ⟨hhead, v, hv, hcontains⟩ | ⟨hhead, lo, hi, hrefused⟩ :=
      SourceSpec.describes (hnumber a List.mem_cons_self) hvalue
    · have hdescribe : a.describe = .ok (a.name, v) := by
        rw [describe, hv]
        rfl
      rw [hdescribe]
      obtain ⟨htail, rest', hrest', haligned⟩ | ⟨⟨b, hb, hinfinity⟩, lo, hi, hrefused⟩ :=
        ih (fun b hb => hnumber b (List.mem_cons_of_mem _ hb)) hrest
      · refine .inl ⟨List.forall_mem_cons.2 ⟨hhead, htail⟩, (a.name, v) :: rest', ?_,
          .cons ⟨hname, hcontains⟩ haligned⟩
        rw [hrest']
        rfl
      · refine .inr ⟨⟨b, List.mem_cons_of_mem _ hb, hinfinity⟩, lo, hi, ?_⟩
        rw [hrefused]
        rfl
    · refine .inr ⟨⟨a, List.mem_cons_self, hhead⟩, lo, hi, ?_⟩
      rw [describe, hrefused]
      rfl

/-- The sources without arguments agree as well. -/
theorem aligned_default :
    Bindings.Aligned (fun a v => a.contains v = true) defaultAbstract defaultConcrete :=
  Bindings.Aligned.ofList
    (.cons ⟨rfl, by decide⟩ (.cons ⟨rfl, by decide⟩ (.cons ⟨rfl, rfl⟩ .nil)))

theorem abstractSources_cons (a : SourceArgument) (args : List SourceArgument) :
    abstractSources (a :: args) = (do return .ofList (← (a :: args).mapM describe)) :=
  rfl

theorem concreteSources_cons (a : SourceArgument) (args : List SourceArgument) :
    concreteSources (a :: args) = (do return .ofList (← (a :: args).mapM evaluate)) :=
  rfl

/--
Arguments that name one value each, or no arguments, are the same sources to both kinds of run, with
each value within its description; unless one is a range from an infinity to itself, which has no
description.
-/
theorem aligned_sources {texts : List (List Char)} {args : List SourceArgument}
    {sources : Bindings Value} (hread : texts.mapM read = .ok args)
    (h : concreteSources args = .ok sources) :
    ((∀ a ∈ args, ¬ a.spec.OnlyInfinity) ∧ ∃ described, abstractSources args = .ok described ∧
      Bindings.Aligned (fun a v => a.contains v = true) described sources) ∨
    ((∃ a ∈ args, a.spec.OnlyInfinity) ∧
      ∃ lo hi, abstractSources args = .error (.invalidRange (.noRealValue lo hi))) := by
  have hnumber : ∀ a ∈ args, ∀ x, a.spec = .number x → x.isFinite = true := by
    intro a ha x hx
    obtain ⟨cs, hcs⟩ := exists_of_mem_mapM hread a ha
    exact isFinite_of_read hcs hx
  cases args with
  | nil =>
    obtain rfl := Except.ok.inj h
    exact .inl ⟨nofun, _, rfl, aligned_default⟩
  | cons a args =>
    rw [concreteSources_cons] at h
    rw [abstractSources_cons]
    obtain ⟨entries, hentries, h⟩ := then_eq_ok.1 h
    obtain rfl := Except.ok.inj h
    obtain ⟨hall, entries', hentries', haligned⟩ | ⟨hsome, lo, hi, hrefused⟩ :=
      describes_all hnumber hentries
    · refine .inl ⟨hall, .ofList entries', ?_, Bindings.Aligned.ofList haligned⟩
      rw [hentries']
      rfl
    · refine .inr ⟨hsome, lo, hi, ?_⟩
      rw [hrefused]
      rfl

/-- Three arguments for two sources, of which one is given twice. -/
def repeated : List (List Char) :=
  ["this.x=2..2".toList, "b=false".toList, " x = 7 ".toList]

theorem aligned_sources_repeated : ∃ args sources described,
    repeated.mapM read = .ok args ∧ concreteSources args = .ok sources ∧
      sources.names = ["x", "b"] ∧ abstractSources args = .ok described ∧
      Bindings.Aligned (fun a v => a.contains v = true) described sources := by
  have hrun : ((repeated.mapM read).toOption.map fun args =>
      ((concreteSources args).toOption.map (·.names), (abstractSources args).toOption.isSome)) =
      some (some ["x", "b"], true) := by
    decide +kernel
  obtain ⟨args, hargs, hpair⟩ := Option.map_eq_some_iff.1 hrun
  obtain ⟨hnames, hsome⟩ := Prod.mk.inj hpair
  obtain ⟨sources, hsources, hnames⟩ := Option.map_eq_some_iff.1 hnames
  obtain ⟨-, described, hdescribed, haligned⟩ | ⟨-, lo, hi, hrefused⟩ :=
    aligned_sources (ok_of_toOption hargs) (ok_of_toOption hsources)
  · exact ⟨args, sources, described, ok_of_toOption hargs, ok_of_toOption hsources, hnames,
      hdescribed, haligned⟩
  · rw [hrefused] at hsome
    exact nomatch hsome

/-- A run on values accepts an infinity as a range, and a run on descriptions does not. -/
theorem refused_infinity : ∃ args sources, ["x=inf..inf".toList].mapM read = .ok args ∧
    concreteSources args = .ok sources ∧ ∀ described, abstractSources args ≠ .ok described := by
  have hrun : ((["x=inf..inf".toList].mapM read).toOption.map fun args =>
      ((concreteSources args).toOption.isSome, (abstractSources args).toOption.isSome)) =
      some (true, false) := by
    decide +kernel
  obtain ⟨args, hargs, hpair⟩ := Option.map_eq_some_iff.1 hrun
  obtain ⟨hsources, hnone⟩ := Prod.mk.inj hpair
  obtain ⟨sources, hsources⟩ := Option.isSome_iff_exists.1 hsources
  refine ⟨args, sources, ok_of_toOption hargs, ok_of_toOption hsources, fun described h => ?_⟩
  rw [h] at hnone
  exact nomatch hnone

end SourceArgument

end RangeRules
