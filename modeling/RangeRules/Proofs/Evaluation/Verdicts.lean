import RangeRules.Program.Parse
import RangeRules.Proofs.Evaluation.Soundness
import RangeRules.Proofs.Interval.Absorption

/-!
# Definite verdicts and runs that overflow

The set of one boolean that a sink is described with is a verdict, and a run contradicts it with the
other boolean. Sources are finite here, but a run may overflow to infinities and go on from there to
what is not a number. No verdict is contradicted while every such result is described by all
numbers. Only a product of zero and of what is not finite escapes that, since bounds multiply as if
no factor were infinite. Where a narrower interval describes it, a comparison of it with a bound of
that interval is a verdict that the run contradicts.
-/
namespace RangeRules

/-- All numbers among the values are finite. -/
def Bindings.Finite (sources : Bindings Value) : Prop :=
  ∀ name x, sources.get? name = some (.number x) → x.isFinite = true

/-- The description is the set of one boolean, and the value is the other. -/
def Contradicts (a : AbstractValue) (v : Value) : Prop :=
  ∃ b, a = .boolean (.singleton b) ∧ v = .boolean (!b)

/-- No sink of a run has the boolean that the analysis shuts out. -/
def Program.NeverContradicted (p : Program) (options : AnalysisOptions)
    (described : Bindings AbstractValue) (sources : Bindings Value) : Prop :=
  ∀ e e', p.analyze described options = .ok e → p.interpret sources = .ok e' →
    ∀ name a v, e.sinks.get? name = some a → e'.sinks.get? name = some v → ¬ Contradicts a v

/-- The expression is a product, and its factors evaluate to zero and to what is not finite. -/
def Concrete.IndefiniteProduct (env : Environment Value) (e : Expr) : Prop :=
  ∃ span left right l r x y, e = .operate span (.arithmetic .mul) left right ∧
    eval env left = .ok l ∧ eval env right = .ok r ∧ l.value = .number x ∧ r.value = .number y ∧
    Interval.Indefinite x y

/-- The interval of all numbers describes every product of zero and of what is not finite. -/
def Program.Absorbs (p : Program) (options : AnalysisOptions)
    (described : Bindings AbstractValue) (sources : Bindings Value) : Prop :=
  ∀ there there' e, Meets options (.start described) (.start sources) p.statements there there' e →
    Concrete.IndefiniteProduct there' e →
    ∀ o i, Abstract.eval options there e = .ok o → o.value = .interval i → i.same .entire = true

/--
The programs that ask for what a run evaluates: the program itself, and up to each of its statements
one that goes on to compare a part evaluated there with a finite number.
-/
inductive Program.Asks (p : Program) (sources : Bindings Value) : Program → Prop where
  | self : Asks p sources p
  | compare {before after : List Statement} {s : Statement} {there : Environment Value}
    {part : Expr} (name : String) (op : Comparison) {bound : Number}
    (statements : p.statements = before ++ s :: after)
    (reached : environmentAfter Concrete.eval (.start sources) before = .ok there)
    (visited : Concrete.Visits there s.body part) (finite : bound.isFinite = true) :
    Asks p sources ⟨p.source, before ++
      [.sink name (.operate part.span (.comparison op) part (.number part.span bound))]⟩

namespace Verdicts

theorem membership_belongs : Membership Interval.WellFormed Interval.Belongs where
  closed := Soundness.closed_wellFormed
  literal h := .inl (Soundness.membership_contains.literal h)
  verdict op _ _ _ _ := Interval.contains_verdict_of_belongs op
  union hi hj := Interval.belongs_union ((Interval.wellFormed_iff _).1 hi).1
    ((Interval.wellFormed_iff _).1 hj).1

theorem not_contradicts {N : Interval → Number → Prop} {a : AbstractValue} {v : Value}
    (h : Related N a v) : ¬ Contradicts a v := by
  rintro ⟨b, rfl, rfl⟩
  cases h with
  | boolean h => cases b <;> exact nomatch h

/-- A finite number within its description belongs to it, and the description is well-formed. -/
theorem related_of_contains {a : AbstractValue} {v : Value} (h : a.contains v = true)
    (hfinite : ∀ x, v = .number x → x.isFinite = true) :
    a.Admits Interval.WellFormed ∧ Related Interval.Belongs a v := by
  refine ⟨?_, (Soundness.related_of_contains h).2.mono fun i x => .inl⟩
  cases a with
  | boolean s => trivial
  | undefined => trivial
  | interval i =>
    cases v with
    | number x => exact .of_contains h (hfinite x rfl)
    | boolean b => exact nomatch h
    | undefined => exact nomatch h

theorem related_sources {described : Bindings AbstractValue} {sources : Bindings Value}
    (h : described.Describes sources) (hfinite : sources.Finite) (name : String) :
    Option.Rel (fun a v => a.Admits Interval.WellFormed ∧ Related Interval.Belongs a v)
      (described.get? name) (sources.get? name) :=
  rel_imp (h name) fun _ _ _ hv hcontains =>
    related_of_contains hcontains fun x hx => hfinite name x (hx ▸ hv)

variable {p q : Program} {options : AnalysisOptions} {described : Bindings AbstractValue}
  {sources : Bindings Value}

/-- An operation belongs to its description, unless it is a product that is not absorbed. -/
theorem operates_belongs (habsorbs : p.Absorbs options described sources)
    {there : Environment AbstractValue} {there' : Environment Value} {n : Expr}
    (hmeets : Meets options (.start described) (.start sources) p.statements there there' n) :
    Abstract.Operates options Interval.WellFormed Interval.Belongs there there' n := by
  rintro span op left right rfl l r l' r' hl hr hl' hr' i j x y z hi hj hx hy hwi hwj hxi hyj hz
  -- Intervals keep to all else on their own; for this one product the hypothesis has to do it.
  by_cases hindefinite : op = .mul ∧ Interval.Indefinite x y
  · obtain ⟨rfl, hxy⟩ := hindefinite
    obtain rfl := Option.some.inj hz
    refine .inr ⟨hxy.isNaN, ?_⟩
    refine habsorbs there there' _ hmeets
      ⟨span, left, right, l', r', x, y, rfl, hl', hr', hx, hy, hxy⟩ _ _
      (Abstract.eval_operate_eq_ok.2 ⟨l, r, hl, hr, rfl⟩) ?_
    simp only [hi, hj]
    rfl
  · exact Interval.belongs_onIntervals op hwi hwj hxi hyj hz fun hop hxy => hindefinite ⟨hop, hxy⟩

theorem neverContradicted_of_absorbs (hsources : described.Describes sources)
    (hfinite : sources.Finite) (habsorbs : p.Absorbs options described sources) :
    p.NeverContradicted options described sources := by
  intro e e' h h' name a v ha hv
  have hsinks := Program.related_sinks membership_belongs (related_sources hsources hfinite) h h'
    fun _ _ _ hmeets => operates_belongs habsorbs hmeets
  have hname := hsinks.get? name
  rw [ha, hv] at hname
  cases hname with
  | some hrelated => exact not_contradicts hrelated.2

/-- A program that asks evaluates the same products, in the same places. -/
theorem meets_of_asks (h : p.Asks sources q) {there : Environment AbstractValue}
    {there' : Environment Value} {n : Expr}
    (hmeets : Meets options (.start described) (.start sources) q.statements there there' n)
    (hproduct : Concrete.IndefiniteProduct there' n) :
    Meets options (.start described) (.start sources) p.statements there there' n := by
  cases h with
  | self => exact hmeets
  | compare name op statements reached visited finite =>
    obtain ⟨before, s, after, hstatements, hbefore, hbefore', hvisits⟩ := hmeets
    rcases eq_or_exists_of_append_singleton hstatements with ⟨rfl, rfl⟩ | ⟨rest, rfl⟩
    · -- The comparison at the end is no product, and the part it compares is one of the program.
      obtain rfl := Except.ok.inj (reached.symm.trans hbefore')
      refine ⟨_, _, _, statements, hbefore, hbefore', ?_⟩
      obtain ⟨_, _, _, _, _, _, _, rfl, -⟩ := hproduct
      cases hvisits with
      | left hpart => exact visited.trans hpart
      | right hbound => cases hbound
    · rw [List.append_assoc] at statements
      exact ⟨before, s, _, statements, hbefore, hbefore', hvisits⟩

theorem absorbs_of_asks (h : p.Asks sources q) (habsorbs : p.Absorbs options described sources) :
    q.Absorbs options described sources :=
  fun there there' n hmeets hproduct =>
    habsorbs there there' n (meets_of_asks h hmeets hproduct) hproduct

/-- What is not a number contradicts the verdict on a bound of a narrower interval. -/
theorem contradicts_of_narrow {env : Environment AbstractValue} {env' : Environment Value}
    {e : Expr} {o : Outcome AbstractValue} {o' : Outcome Value} {i : Interval} {x : Number}
    (ho : Abstract.eval options env e = .ok o) (hi : o.value = .interval i)
    (ho' : Concrete.eval env' e = .ok o') (hx : o'.value = .number x) (hnan : x.isNaN = true)
    (hwf : i.WellFormed) (hnarrow : i.same .entire ≠ true) :
    ∃ (op : Comparison) (bound : Number) (r : Outcome AbstractValue) (r' : Outcome Value),
      bound.isFinite = true ∧
      Abstract.eval options env
        (.operate e.span (.comparison op) e (.number e.span bound)) = .ok r ∧
      Concrete.eval env' (.operate e.span (.comparison op) e (.number e.span bound)) = .ok r' ∧
      Contradicts r.value r'.value := by
  obtain ⟨op, bound, hbound, hverdict, hfails⟩ := Interval.exists_definite hwf hnarrow
  have hpoint := Interval.make?_of_isFinite hbound
  refine ⟨op, bound, _, _, hbound,
    Abstract.eval_operate_eq_ok.2 ⟨o, _, ho, Abstract.eval_number_eq_ok.2 ⟨_, hpoint, rfl⟩, rfl⟩,
    Concrete.eval_operate_eq_ok.2 ⟨o', ⟨.number bound, []⟩, ho', rfl, rfl⟩, true, ?_, ?_⟩
  · simp only [hi, Abstract.operate, Abstract.compute, hverdict]
    rfl
  · simp only [hx, Concrete.operate, Concrete.compute, hfails x hnan]
    rfl

theorem absorbs_of_neverContradicted (hsources : described.Describes sources)
    (hfinite : sources.Finite)
    (hnever : ∀ q, p.Asks sources q → q.NeverContradicted options described sources) :
    p.Absorbs options described sources := by
  rintro there there' n ⟨before, s, after, hstatements, hbefore, hbefore', hvisits⟩ hproduct o i ho
    hi
  by_contra hnarrow
  have hstart : (Environment.start described).Agrees (fun a _ => a.Admits Interval.WellFormed)
      (.start sources) :=
    (Environment.agrees_start (related_sources hsources hfinite)).mono fun _ _ => And.left
  have hkeeps : Keeps (Abstract.eval options) Concrete.eval
      (fun a _ => a.Admits Interval.WellFormed) (.start described) (.start sources)
      (before ++ s :: after) := keeps_admits Soundness.closed_wellFormed
  have hagrees := agrees_environmentAfter hstart hkeeps hbefore hbefore'
  have hwf : i.WellFormed := by
    have hvalue := Abstract.admits_eval Soundness.closed_wellFormed (hagrees.each fun _ _ => id) n ho
    rwa [hi] at hvalue
  obtain ⟨span, left, right, l, r, x, y, rfl, hl, hr, hx, hy, hxy⟩ := hproduct
  have hvalue : (Concrete.operate span (.arithmetic .mul) left.span right.span l.value
      r.value).value = .number (x * y) := by
    rw [hx, hy]
    rfl
  obtain ⟨op, bound, v, v', hbound, hv, hv', hcontradicts⟩ := contradicts_of_narrow ho hi
    (Concrete.eval_operate_eq_ok.2 ⟨l, r, hl, hr, rfl⟩) hvalue hxy.isNaN hwf hnarrow
  obtain ⟨e, he, hsink⟩ := exists_runFrom_append_sink hbefore hv
  obtain ⟨e', he', hsink'⟩ := exists_runFrom_append_sink hbefore' hv'
  exact hnever _ (.compare "verdict" op hstatements hbefore' hvisits hbound) e e' he he' "verdict"
    _ _ hsink hsink' hcontradicts

end Verdicts

/--
No verdict is contradicted, also not on what the program evaluates on the way to its sinks, exactly
if every product of zero and of what is not finite is described by all numbers.
-/
theorem Program.neverContradicted_iff_absorbs {p : Program} {options : AnalysisOptions}
    {described : Bindings AbstractValue} {sources : Bindings Value}
    (hsources : described.Describes sources) (hfinite : sources.Finite) :
    (∀ q, p.Asks sources q → q.NeverContradicted options described sources) ↔
      p.Absorbs options described sources := by
  constructor
  · exact Verdicts.absorbs_of_neverContradicted hsources hfinite
  · intro habsorbs q hq
    exact Verdicts.neverContradicted_of_absorbs hsources hfinite
      (Verdicts.absorbs_of_asks hq habsorbs)

namespace Verdicts

/-- `(this.x + this.x) * this.y` -/
def product : Expr :=
  .operate ⟨0, 0⟩ (.arithmetic .mul)
    (.operate ⟨0, 0⟩ (.arithmetic .add) (.source ⟨0, 0⟩ "x") (.source ⟨0, 0⟩ "x"))
    (.source ⟨0, 0⟩ "y")

/-- `z: (this.x + this.x) * this.y >= 0` -/
def signed : Program :=
  ⟨[], [.sink "z" (.operate ⟨0, 0⟩ (.comparison .ge) product (.number ⟨0, 0⟩ 0.0))]⟩

/-- Ranges whose product is described by all numbers. -/
def around : Bindings AbstractValue :=
  ⟨[("x", .interval ⟨0.0, Number.largest⟩), ("y", .interval ⟨-1.0, 1.0⟩)]⟩

/-- Sources whose product is none of an infinity and of zero. -/
def overflowing : Bindings Value := ⟨[("x", .number Number.largest), ("y", .number 0.0)]⟩

theorem describes_overflowing : around.Describes overflowing :=
  Bindings.Aligned.get? (.cons ⟨rfl, by decide⟩ (.cons ⟨rfl, by decide⟩ .nil))

theorem finite_overflowing : overflowing.Finite := by
  intro name x hx
  have hmem := Bindings.mem_of_get? hx
  simp only [overflowing, List.mem_cons, Prod.mk.injEq, Value.number.injEq, List.not_mem_nil,
    or_false] at hmem
  rcases hmem with ⟨-, rfl⟩ | ⟨-, rfl⟩
  · decide
  · decide

theorem indefiniteProduct_overflowing :
    Concrete.IndefiniteProduct (.start overflowing) product :=
  ⟨_, _, _, _, _, _, _, rfl, rfl, rfl, rfl, rfl, .inr ⟨by decide, by decide⟩⟩

theorem absorbs_signed : signed.Absorbs .plain around overflowing := by
  rintro there there' n ⟨before, s, after, hstatements, hbefore, -, hvisits⟩ hproduct o i ho hi
  obtain ⟨rfl, rfl⟩ := eq_of_singleton_eq_append hstatements
  obtain rfl := Except.ok.inj hbefore
  obtain ⟨span, left, right, -, -, -, -, rfl, -⟩ := hproduct
  cases hvisits with
  | right h => cases h
  | left h =>
    cases h with
    | right h => cases h
    | left h => cases h with
      | left h => cases h
      | right h => cases h
    | self =>
      obtain rfl := Except.ok.inj ho
      obtain rfl := AbstractValue.interval.inj hi
      decide

end Verdicts

theorem Program.neverContradicted_iff_absorbs_overflowing :
    Concrete.IndefiniteProduct (.start Verdicts.overflowing) Verdicts.product ∧
      ∀ q, Verdicts.signed.Asks Verdicts.overflowing q →
        q.NeverContradicted .plain Verdicts.around Verdicts.overflowing :=
  ⟨Verdicts.indefiniteProduct_overflowing,
    (Program.neverContradicted_iff_absorbs Verdicts.describes_overflowing
      Verdicts.finite_overflowing).2 Verdicts.absorbs_signed⟩

namespace Verdicts

/-- The set of booleans, if it is one, that a sink is described with. -/
def verdict? (p : Program) (options : AnalysisOptions) (described : Bindings AbstractValue)
    (name : String) : Option BooleanSet := do
  let e ← (p.analyze described options).toOption
  let a ← e.sinks.get? name
  a.boolean?

/-- The boolean, if it is one, that a sink has in a run. -/
def answer? (p : Program) (sources : Bindings Value) (name : String) : Option Bool := do
  let e ← (p.interpret sources).toOption
  let v ← e.sinks.get? name
  v.boolean?

theorem not_neverContradicted {name : String} {b : Bool}
    (hverdict : verdict? p options described name = some (.singleton b))
    (hanswer : answer? p sources name = some (!b)) :
    ¬ p.NeverContradicted options described sources := by
  intro hnever
  obtain ⟨e, he, hrest⟩ := Option.bind_eq_some_iff.1 hverdict
  obtain ⟨a, ha, hset⟩ := Option.bind_eq_some_iff.1 hrest
  obtain ⟨e', he', hrest'⟩ := Option.bind_eq_some_iff.1 hanswer
  obtain ⟨v, hv, hboolean⟩ := Option.bind_eq_some_iff.1 hrest'
  refine hnever e e' (ok_of_toOption he) (ok_of_toOption he') name a v ha hv ⟨b, ?_, ?_⟩
  · cases a with
    | boolean s => exact congrArg _ (Option.some.inj hset)
    | interval i => exact nomatch hset
    | undefined => exact nomatch hset
  · cases v with
    | boolean c => exact congrArg _ (Option.some.inj hboolean)
    | number x => exact nomatch hboolean
    | undefined => exact nomatch hboolean

/-- A description of one number, whose square overflows. -/
def point : Bindings AbstractValue := ⟨[("x", .interval ⟨1e200, 1e200⟩)]⟩

/-- The number described. -/
def large : Bindings Value := ⟨[("x", .number 1e200)]⟩

theorem describes_large : point.Describes large :=
  Bindings.Aligned.get? (.cons ⟨rfl, by decide +kernel⟩ .nil)

theorem finite_large : large.Finite := by
  intro name x hx
  have hentry := List.mem_singleton.1 (Bindings.mem_of_get? hx)
  obtain rfl := Value.number.inj (Prod.mk.inj hentry).2
  decide +kernel

end Verdicts

/-- Sources of one finite number contradict the verdict that zero times its square is zero. -/
theorem Program.contradicted_square :
    ∃ p, Program.parse "z: (this.x * this.x) * 0 == 0".toList = .ok p ∧
      Verdicts.point.Describes Verdicts.large ∧ Verdicts.large.Finite ∧
      ¬ p.NeverContradicted .plain Verdicts.point Verdicts.large := by
  have hboth : ((Program.parse "z: (this.x * this.x) * 0 == 0".toList).toOption.map fun p =>
      (Verdicts.verdict? p .plain Verdicts.point "z", Verdicts.answer? p Verdicts.large "z")) =
      some (some .onlyTrue, some false) := by
    decide +kernel
  obtain ⟨p, hp, hpair⟩ := Option.map_eq_some_iff.1 hboth
  obtain ⟨hverdict, hanswer⟩ := Prod.mk.inj hpair
  exact ⟨p, ok_of_toOption hp, Verdicts.describes_large, Verdicts.finite_large,
    @Verdicts.not_neverContradicted p .plain _ _ "z" true hverdict hanswer⟩

end RangeRules
