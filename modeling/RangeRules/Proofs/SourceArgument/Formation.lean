import RangeRules.Proofs.Evaluation.Simulation
import RangeRules.Proofs.Interval.Formation
import RangeRules.Proofs.SourceArgument.Agreement

/-!
# Arguments and the intervals they make

An argument that is one number makes a point of it without a check, and so do the sources used
without arguments make intervals of bounds written down. A number is only accepted as an argument
if it is finite, which is why no argument that is accepted ends the run.
-/
namespace RangeRules

namespace SourceSpec

/-- The values that a specification admits; a number insists on its interval. -/
def toAbstractInsisting : SourceSpec → ExceptT SourceError (Except Abort) AbstractValue
  | .number x => ExceptT.lift ((Interval.insistPoint x).map .interval)
  | .range lo hi => .mk (.ok (SourceSpec.range lo hi).toAbstract)
  | .boolean b => .mk (.ok (SourceSpec.boolean b).toAbstract)
  | .anyBoolean => .mk (.ok SourceSpec.anyBoolean.toAbstract)

theorem toAbstractInsisting_eq {spec : SourceSpec}
    (hnumber : ∀ x, spec = .number x → x.isFinite = true) :
    spec.toAbstractInsisting = .mk (.ok spec.toAbstract) := by
  cases spec with
  | number x =>
    have hpoint := Interval.wellFormed_singleton (hnumber x rfl)
    have hinsist : Interval.insistPoint x = .ok (.singleton x) := hpoint.insist_eq
    rw [toAbstractInsisting, hinsist]
    rfl
  | range lo hi => rfl
  | boolean b => rfl
  | anyBoolean => rfl

/-- An interval that a specification admits is one that checked bounds make. -/
theorem built_of_toAbstract {spec : SourceSpec} {a : AbstractValue}
    (hnumber : ∀ x, spec = .number x → x.isFinite = true) (h : spec.toAbstract = .ok a) :
    a.Admits Interval.Built := by
  cases spec with
  | number x =>
    obtain rfl := Except.ok.inj h
    have hpoint := Interval.wellFormed_singleton (hnumber x rfl)
    exact .checked ((Interval.wellFormed_iff_make? _).1 hpoint)
  | range lo hi =>
    rw [toAbstract] at h
    split at h
    · next i hmake =>
      obtain rfl := Except.ok.inj h
      exact .checked hmake
    · cases h
  | boolean b =>
    obtain rfl := Except.ok.inj h
    trivial
  | anyBoolean =>
    obtain rfl := Except.ok.inj h
    trivial

end SourceSpec

/-- A traversal whose steps do not end the run does not end it either. -/
theorem mapM_eq_mk {A B E : Type} {f : A → ExceptT E (Except Abort) B} {g : A → Except E B}
    {xs : List A} (h : ∀ x ∈ xs, f x = .mk (.ok (g x))) :
    xs.mapM f = ExceptT.mk (.ok (xs.mapM g)) := by
  induction xs with
  | nil => rfl
  | cons x xs ih =>
    have htail := ih fun y hy => h y (List.mem_cons_of_mem _ hy)
    rw [List.mapM_cons, List.mapM_cons, h x List.mem_cons_self, htail]
    cases g x with
    | error e => rfl
    | ok y => cases xs.mapM g <;> rfl

namespace SourceArgument

/-- The sources of a run without arguments, which insist on their intervals. -/
def defaultAbstractInsisting : Except Abort (Bindings AbstractValue) := do
  let x ← Interval.insist 0.0 10.0
  let y ← Interval.insist (-100.0) 100.0
  return .ofList [("x", .interval x), ("y", .interval y), ("b", .boolean .both)]

/-- The sources that arguments give to a run on abstract values, which may end that run. -/
def abstractSourcesInsisting (args : List SourceArgument) :
    ExceptT SourceError (Except Abort) (Bindings AbstractValue) :=
  if args.isEmpty then ExceptT.lift defaultAbstractInsisting
  else do
    return .ofList (← args.mapM fun a => do return (a.name, ← a.spec.toAbstractInsisting))

theorem wellFormed_default :
    Interval.WellFormed ⟨0.0, 10.0⟩ ∧ Interval.WellFormed ⟨-100.0, 100.0⟩ :=
  ⟨⟨by decide +kernel, by decide +kernel, by decide +kernel⟩,
    ⟨by decide +kernel, by decide +kernel, by decide +kernel⟩⟩

theorem defaultAbstractInsisting_eq : defaultAbstractInsisting = .ok defaultAbstract := by
  unfold defaultAbstractInsisting
  rw [wellFormed_default.1.insist_eq, wellFormed_default.2.insist_eq]
  rfl

/-- All numbers among the arguments are finite if they were read. -/
theorem isFinite_of_mapM_read {texts : List (List Char)} {args : List SourceArgument}
    (h : texts.mapM read = .ok args) :
    ∀ a ∈ args, ∀ x, a.spec = .number x → x.isFinite = true := by
  intro a ha x hx
  obtain ⟨cs, hcs⟩ := exists_of_mem_mapM h a ha
  exact isFinite_of_read hcs hx

/-- Accepted arguments do not end the run, whether or not their ranges are refused. -/
theorem abstractSourcesInsisting_eq {args : List SourceArgument}
    (hnumber : ∀ a ∈ args, ∀ x, a.spec = .number x → x.isFinite = true) :
    abstractSourcesInsisting args = .mk (.ok (abstractSources args)) := by
  cases args with
  | nil =>
    have hlift : abstractSourcesInsisting [] = ExceptT.lift defaultAbstractInsisting := rfl
    rw [hlift, defaultAbstractInsisting_eq]
    rfl
  | cons a args =>
    have hstep : ∀ b ∈ a :: args, (do return (b.name, ← b.spec.toAbstractInsisting) :
        ExceptT SourceError (Except Abort) (String × AbstractValue)) = .mk (.ok b.describe) := by
      intro b hb
      rw [SourceSpec.toAbstractInsisting_eq (hnumber b hb)]
      unfold describe
      cases b.spec.toAbstract <;> rfl
    have hlift : abstractSourcesInsisting (a :: args) = (do
        return .ofList (← (a :: args).mapM fun b => do
          return (b.name, ← b.spec.toAbstractInsisting))) := rfl
    rw [hlift, mapM_eq_mk hstep, abstractSources_cons]
    cases (a :: args).mapM describe <;> rfl

end SourceArgument

/-- What is read from a list of entries is one of them. -/
theorem Bindings.of_get?_ofList {V : Type} {p : V → Prop} {entries : List (String × V)}
    (h : ∀ x ∈ entries, p x.2) {name : String} {v : V}
    (hv : (Bindings.ofList entries).get? name = some v) : p v := by
  have haligned : Aligned (fun v _ => p v) (ofList entries) (ofList entries) :=
    Aligned.ofList (List.forall₂_same.2 fun x hx => ⟨rfl, h x hx⟩)
  obtain ⟨_, -, hp⟩ := Environment.exists_of_rel (hv ▸ haligned.get? name)
  exact hp

/-- All intervals among the descriptions come about in some way. -/
def Bindings.Built (described : Bindings AbstractValue) : Prop :=
  ∀ name a, described.get? name = some a → a.Admits Interval.Built

namespace SourceArgument

theorem built_of_mapM_describe {args : List SourceArgument}
    {entries : List (String × AbstractValue)}
    (hnumber : ∀ a ∈ args, ∀ x, a.spec = .number x → x.isFinite = true)
    (h : args.mapM describe = .ok entries) : ∀ x ∈ entries, x.2.Admits Interval.Built := by
  induction args generalizing entries with
  | nil =>
    obtain rfl := Except.ok.inj h
    exact nofun
  | cons a args ih =>
    obtain ⟨y, rest, hy, hrest, rfl⟩ := mapM_cons_eq_ok.1 h
    obtain ⟨v, hv, hy⟩ := then_eq_ok.1 hy
    obtain rfl := Except.ok.inj hy
    have hhead := SourceSpec.built_of_toAbstract (hnumber a List.mem_cons_self) hv
    exact List.forall_mem_cons.2
      ⟨hhead, ih (fun b hb => hnumber b (List.mem_cons_of_mem _ hb)) hrest⟩

/-- The sources that accepted arguments give have no intervals but such. -/
theorem built_of_abstractSources {args : List SourceArgument}
    {described : Bindings AbstractValue}
    (hnumber : ∀ a ∈ args, ∀ x, a.spec = .number x → x.isFinite = true)
    (h : abstractSources args = .ok described) : described.Built := by
  intro name v hv
  cases args with
  | nil =>
    obtain rfl := Except.ok.inj h
    refine Bindings.of_get?_ofList ?_ hv
    have hbuilt : ∀ {i : Interval}, i.WellFormed → i.Built := fun {i} hi =>
      .checked ((Interval.wellFormed_iff_make? i).1 hi)
    simp only [List.forall_mem_cons]
    exact ⟨hbuilt wellFormed_default.1, hbuilt wellFormed_default.2, trivial, nofun⟩
  | cons a args =>
    rw [abstractSources_cons] at h
    obtain ⟨entries, hentries, h⟩ := then_eq_ok.1 h
    obtain rfl := Except.ok.inj h
    exact Bindings.of_get?_ofList (built_of_mapM_describe hnumber hentries) hv

end SourceArgument

end RangeRules
