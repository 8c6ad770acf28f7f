import RangeRules.Proofs.Evaluation.Trace
import RangeRules.Proofs.Interval.Points
import RangeRules.Proofs.Program.Check
import RangeRules.Proofs.Program.Nodes

/-!
# Analysis of given values

A program without `when` expressions is analyzed from points as it is run on the numbers themselves,
as long as the run stays within the finite numbers and divides by no zero: sinks get the points of
their values, and the same problems are found in the same order. The invariant is that what can be
read is a point, a certain boolean or undefined, on both sides alike.
-/
namespace RangeRules

/-- The description of one value only, which is finite if it is a number. -/
inductive AbstractValue.Pinpoints : AbstractValue → Value → Prop where
  | number {i : Interval} {x : Number} (h : i.PointOf x) : Pinpoints (.interval i) (.number x)
  | boolean (b : Bool) : Pinpoints (.boolean (.singleton b)) (.boolean b)
  | undefined : Pinpoints .undefined .undefined

namespace AbstractValue

theorem lift_of_isFinite {x : Number} (h : x.isFinite = true) :
    (Value.number x).lift = .interval (.singleton x) := by
  have hnan := ((Number.isFinite_iff x).1 h).1
  obtain ⟨htop, hbot⟩ := Number.not_beq_infinity h
  simp only [Value.lift]
  rw [hnan, if_neg Bool.false_ne_true, if_neg htop, if_neg hbot]

/-- A value without an infinite number is described by itself alone. -/
theorem pinpoints_lift {v : Value} (h : ∀ x, v = .number x → x.isFinite = true) :
    v.lift.Pinpoints v := by
  cases v with
  | number x =>
    rw [lift_of_isFinite (h x rfl)]
    exact .number (Interval.pointOf_singleton (h x rfl))
  | boolean b => exact .boolean b
  | undefined => exact .undefined

/-- Up to which zero a bound is, a point is the description that its number has. -/
theorem Pinpoints.same_lift {a : AbstractValue} {v : Value} (h : a.Pinpoints v) :
    a.same v.lift = true := by
  cases h with
  | number h =>
    rw [lift_of_isFinite h.finite]
    exact h.same
  | boolean b => exact decide_eq_true rfl
  | undefined => rfl

end AbstractValue

open AbstractValue (Pinpoints)

/-- The same problems, and a description of the one value. -/
structure Outcome.Exact (o : Outcome AbstractValue) (o' : Outcome Value) : Prop where
  value : o.value.Pinpoints o'.value
  findings : o.findings = o'.findings

/-- No operation of the run gives a number that is infinite or none at all. -/
def Program.OverflowFree (p : Program) (sources : Bindings Value) : Prop :=
  ∀ there span op left right, p.Reaches sources there (.operate span (.arithmetic op) left right) →
    ∀ o x, Concrete.eval there (.operate span (.arithmetic op) left right) = .ok o →
      o.value = .number x → x.isFinite = true

instance (p : Program) (sources : Bindings Value) : Decidable (p.OverflowFree sources) :=
  decidable_of_iff _ Concrete.all_trace

/-- No expression of the program is a `when` expression. -/
def Program.WhenFree (p : Program) : Prop := ∀ span branches, .choose span branches ∉ p.nodes

namespace Abstract

/-- An operator applied to points gives a point, and no divisor may be zero that is not. -/
theorem exact_compute (options : AnalysisOptions) (span rightSpan : Text.Span) (op : Operator)
    {i j : Interval} {x y : Number} (hi : i.PointOf x) (hj : j.PointOf y)
    (hfinite : ∀ f z, op = .arithmetic f → f.result? x y = some z → z.isFinite = true)
    (hdivision : ∀ f ∈ (Concrete.compute span op x y).findings, f.problem ≠ .divisionByZero) :
    (compute options op rightSpan i j).Exact (Concrete.compute span op x y) := by
  cases op with
  | comparison op =>
    refine ⟨?_, rfl⟩
    change Pinpoints (.boolean (op.onIntervals i j)) _
    rw [hi.verdict op hj]
    exact .boolean _
  | arithmetic op =>
    have hresult : ∃ z, op.result? x y = some z := by
      cases hz : op.result? x y with
      | some z => exact ⟨z, rfl⟩
      | none =>
        simp only [Concrete.compute, hz] at hdivision
        exact absurd rfl (hdivision _ List.mem_cons_self)
    obtain ⟨z, hz⟩ := hresult
    have hloss : (options.precisionLoss && op = .div && j.containsZero) = false := by
      cases op with
      | div =>
        have hzero : ¬ j.containsZero = true := by
          rw [hj.containsZero_iff, (Interval.result?_div_eq_some.1 hz).1]
          exact Bool.false_ne_true
        rw [Bool.not_eq_true] at hzero
        rw [hzero, Bool.and_false]
      | _ => rw [decide_eq_false nofun, Bool.and_false, Bool.false_and]
    unfold compute Concrete.compute
    dsimp only
    rw [hz, hloss]
    exact ⟨.number (hi.onIntervals op hj hz (hfinite op z rfl hz)), rfl⟩

theorem exact_operate (options : AnalysisOptions) (span leftSpan rightSpan : Text.Span)
    (op : Operator) {a b : AbstractValue} {v w : Value} (ha : a.Pinpoints v) (hb : b.Pinpoints w)
    (hfinite : ∀ f x, op = .arithmetic f →
      (Concrete.operate span op leftSpan rightSpan v w).value = .number x → x.isFinite = true)
    (hdivision : ∀ f ∈ (Concrete.operate span op leftSpan rightSpan v w).findings,
      f.problem ≠ .divisionByZero) :
    (operate options op leftSpan rightSpan a b).Exact
      (Concrete.operate span op leftSpan rightSpan v w) := by
  cases ha with
  | undefined => cases hb <;> exact ⟨.undefined, rfl⟩
  | boolean c => cases hb <;> exact ⟨.undefined, rfl⟩
  | number hi =>
    cases hb with
    | undefined => exact ⟨.undefined, rfl⟩
    | boolean c => exact ⟨.undefined, rfl⟩
    | number hj =>
      refine exact_compute options span rightSpan op hi hj ?_ hdivision
      rintro f z rfl hz
      refine hfinite f z rfl ?_
      simp only [Concrete.operate, Concrete.compute, hz]

theorem exact_require {a? : Option AbstractValue} {v? : Option Value} {missing : ContractViolation}
    {o' : Outcome Value} (hvalues : Option.Rel Pinpoints a? v?) (h : require v? missing = .ok o') :
    ∃ o, require a? missing = .ok o ∧ o.Exact o' := by
  obtain ⟨v, rfl, rfl⟩ := require_eq_ok.1 h
  cases hvalues with
  | some hvalue => exact ⟨_, rfl, hvalue, rfl⟩

/-- What an expression without `when` gives of values, the analysis gives of their points. -/
theorem exact_eval (options : AnalysisOptions) {env : Environment AbstractValue}
    {env' : Environment Value} {declared : List String} (henv : env.Agrees Pinpoints env')
    (e : Expr) {o' : Outcome Value} (hready : e.Ready declared)
    (hwhen : ∀ span branches, .choose span branches ∉ e.nodes)
    (h : Concrete.eval env' e = .ok o')
    (hfinite : ∀ span op left right,
      Concrete.Visits env' e (.operate span (.arithmetic op) left right) →
      ∀ o x, Concrete.eval env' (.operate span (.arithmetic op) left right) = .ok o →
        o.value = .number x → x.isFinite = true)
    (hdivision : ∀ f ∈ o'.findings, f.problem ≠ .divisionByZero) :
    ∃ o, eval options env e = .ok o ∧ o.Exact o' := by
  induction e using Expr.clauseInduction generalizing o' with
  | number span x =>
    obtain rfl := Except.ok.inj h
    exact ⟨_, eval_number_eq_ok.2 ⟨_, Interval.make?_of_isFinite hready, rfl⟩,
      .number (Interval.pointOf_singleton hready), rfl⟩
  | boolean span b =>
    obtain rfl := Except.ok.inj h
    exact ⟨_, rfl, .boolean b, rfl⟩
  | source span name => exact exact_require (henv.sources name) h
  | «variable» span name => exact exact_require (henv.locals name) h
  | operate span op left right ihl ihr =>
    obtain ⟨l', r', hl', hr', rfl⟩ := Concrete.eval_operate_eq_ok.1 h
    simp only [List.forall_mem_append] at hdivision
    obtain ⟨⟨hdl, hdr⟩, hdo⟩ := hdivision
    obtain ⟨l, hl, hleft⟩ := ihl hready.1
      (fun s b hb => hwhen s b (Expr.nodes_left_subset span op left right hb)) hl'
      (fun s f a b hn => hfinite s f a b (.left hn)) hdl
    obtain ⟨r, hr, hright⟩ := ihr hready.2
      (fun s b hb => hwhen s b (Expr.nodes_right_subset span op left right hb)) hr'
      (fun s f a b hn => hfinite s f a b (.right hn)) hdr
    have hop := exact_operate options span left.span right.span op hleft.value hright.value
      (by rintro f x rfl hx; exact hfinite span f left right (.self _) _ x h hx) hdo
    refine ⟨_, eval_operate_eq_ok.2 ⟨l, r, hl, hr, rfl⟩, hop.value, ?_⟩
    change l.findings ++ r.findings ++ _ = l'.findings ++ r'.findings ++ _
    rw [hleft.findings, hright.findings, hop.findings]
  | choose span branches _ _ => exact absurd (Expr.self_mem_nodes _) (hwhen span branches)

end Abstract

/-- A run goes on along another one, if what the other makes of each statement it makes too. -/
theorem exists_runFrom {V W : Type} {R : V → W → Prop} (eval : Evaluator V) {eval' : Evaluator W}
    {statements : List Statement} {env : Environment V} {env' : Environment W}
    (done : Evaluation V) {done' e' : Evaluation W} (henv : env.Agrees R env')
    (hsinks : Bindings.Aligned R done.sinks done'.sinks)
    (hfindings : done.findings = done'.findings)
    (h : runFrom eval' env' done' statements = .ok e')
    (heval : ∀ before s after there there', statements = before ++ s :: after →
      environmentAfter eval' env' before = .ok there' → there.Agrees R there' →
      ∀ r', eval' there' s.body = .ok r' →
        ∃ r, eval there s.body = .ok r ∧ R r.value r'.value ∧ r.findings = r'.findings) :
    ∃ e, runFrom eval env done statements = .ok e ∧ Bindings.Aligned R e.sinks e'.sinks ∧
      e.findings = e'.findings := by
  induction statements generalizing env env' done done' with
  | nil =>
    obtain rfl := Except.ok.inj h
    exact ⟨done, rfl, hsinks, hfindings⟩
  | cons s rest ih =>
    obtain ⟨r', hr', hrest⟩ := runFrom_cons_eq_ok.1 h
    obtain ⟨r, hr, hvalue, hfound⟩ := heval [] s rest env env' rfl rfl henv r' hr'
    have hfindings' : done.findings ++ r.findings = done'.findings ++ r'.findings := by
      rw [hfindings, hfound]
    obtain ⟨e, he, hexact⟩ := ih ⟨_, done.findings ++ r.findings⟩ (s.agrees_update henv hvalue)
      (s.aligned_record hsinks hvalue) hfindings' hrest
      fun before t after there there' hstatements hbefore =>
        heval (s :: before) t after there there' (by rw [hstatements, List.cons_append])
          (environmentAfter_cons_eq_ok.2 ⟨r', hr', hbefore⟩)
    exact ⟨e, runFrom_cons_eq_ok.2 ⟨r, hr, he⟩, hexact⟩

/-- Each statement of scoped ones reads variables that were assigned before it. -/
theorem Scoped.exists_ready {declared sinks : List String} {statements : List Statement}
    (h : Scoped declared sinks statements) :
    ∀ s ∈ statements, ∃ assigned, s.body.Ready assigned := by
  induction h with
  | nil => exact nofun
  | assign ready _ ih => exact List.forall_mem_cons.2 ⟨⟨_, ready⟩, ih⟩
  | sink ready _ _ ih => exact List.forall_mem_cons.2 ⟨⟨_, ready⟩, ih⟩

/-- Values without an infinite number are described by themselves alone, under each name. -/
theorem Bindings.pinpoints_lift {sources : Bindings Value}
    (h : ∀ name x, (name, Value.number x) ∈ sources.entries → x.isFinite = true) :
    ∀ name, Option.Rel Pinpoints ((sources.map Value.lift).get? name) (sources.get? name) := by
  refine Bindings.Aligned.get? ?_
  unfold Bindings.Aligned Bindings.map
  rw [List.forall₂_map_left_iff, List.forall₂_same]
  rintro ⟨name, v⟩ hmem
  refine ⟨rfl, AbstractValue.pinpoints_lift ?_⟩
  rintro x rfl
  exact h name x hmem

/--
From the points of finite sources the analysis of a parsed program without `when` expressions gives
what the run on the sources themselves gives, if that stays within the finite numbers and divides by
no zero: for each sink the point of its value, and the same diagnostics.
-/
theorem Program.analyze_points {limit : Nat} {source : Text.Source} {p : Program}
    {sources : Bindings Value} {e' : Evaluation Value}
    (hparse : Program.parseWithin limit source = .ok p) (hwhen : p.WhenFree)
    (hsources : ∀ name x, (name, Value.number x) ∈ sources.entries → x.isFinite = true)
    (h : p.interpret sources = .ok e') (hfinite : p.OverflowFree sources)
    (hdivision : ∀ f ∈ e'.findings, f.problem ≠ .divisionByZero) (options : AnalysisOptions) :
    ∃ e, p.analyze (sources.map Value.lift) options = .ok e ∧
      Bindings.Aligned (fun a v => a.same v.lift = true) e.sinks e'.sinks ∧
      e.diagnostics source = e'.diagnostics source := by
  have hscoped := (scoped_of_parseWithin hparse).exists_ready
  have hstart := Environment.agrees_start (Bindings.pinpoints_lift hsources)
  obtain ⟨e, he, hsinks, hfindings⟩ := exists_runFrom (Abstract.eval options) ⟨.empty, []⟩ hstart
      (Bindings.aligned_empty _) rfl h <| by
    intro before s after there there' hstatements hbefore hthere r' hr'
    have hrun : runFrom Concrete.eval (.start sources) ⟨.empty, []⟩ (before ++ s :: after) =
        .ok e' := hstatements ▸ h
    obtain ⟨mid, o, hmid, ho, hsubset⟩ := eval_of_runFrom hrun
    obtain rfl := Except.ok.inj (hbefore.symm.trans hmid)
    obtain rfl := Except.ok.inj (hr'.symm.trans ho)
    have hs : s ∈ p.statements := hstatements ▸ List.mem_append_right _ List.mem_cons_self
    obtain ⟨assigned, hready⟩ := hscoped s hs
    obtain ⟨r, hr, hexact⟩ := Abstract.exact_eval options hthere s.body hready
      (fun span branches hn => hwhen span branches (List.mem_flatMap.2 ⟨s, hs, hn⟩)) hr'
      (fun span op left right hn =>
        hfinite there' span op left right ⟨before, s, after, hstatements, hbefore, hn⟩)
      fun f hf => hdivision f (hsubset hf)
    exact ⟨r, hr, hexact.value, hexact.findings⟩
  refine ⟨e, he, hsinks.mono fun _ _ hvalue => hvalue.same_lift, ?_⟩
  unfold Evaluation.diagnostics
  rw [hfindings]

namespace Points

/-- A product that is minus zero, where the bounds of its interval are zero. -/
def vanishing : Text.Source := "z: this.x * 0 - this.y / 4".toList

def difference : Expr :=
  .operate ⟨3, 26⟩ (.arithmetic .sub)
    (.operate ⟨3, 13⟩ (.arithmetic .mul) (.source ⟨3, 9⟩ "x") (.number ⟨12, 13⟩ 0.0))
    (.operate ⟨16, 26⟩ (.arithmetic .div) (.source ⟨16, 22⟩ "y") (.number ⟨25, 26⟩ 4.0))

def program : Program := ⟨vanishing, [.sink "z" difference]⟩

def sources : Bindings Value := ⟨[("x", .number (-3.0)), ("y", .number 2.0)]⟩

theorem parse_vanishing : Program.parseWithin 8 vanishing = .ok program := by
  have hparse : (Program.parseWithin 8 vanishing).toOption.map (fun p => (p.source, p.statements)) =
      some (vanishing, [.sink "z" difference]) := by
    decide +kernel
  obtain ⟨⟨source, statements⟩, hp, hpair⟩ := Option.map_eq_some_iff.1 hparse
  obtain ⟨hsource, hstatements⟩ := Prod.mk.inj hpair
  obtain rfl : source = vanishing := hsource
  obtain rfl : statements = [.sink "z" difference] := hstatements
  exact ok_of_toOption hp

theorem overflowFree_program : program.OverflowFree sources := by
  decide +kernel

end Points

theorem Program.analyze_points_vanishing :
    ∃ e e', Program.parseWithin 8 Points.vanishing = .ok Points.program ∧
      Points.program.interpret Points.sources = .ok e' ∧
      Points.program.analyze (Points.sources.map Value.lift) ⟨true, true⟩ = .ok e ∧
      Bindings.Aligned (fun a v => a.same v.lift = true) e.sinks e'.sinks ∧
      e.diagnostics Points.vanishing = e'.diagnostics Points.vanishing := by
  have hwhen : Points.program.WhenFree := by
    intro span branches
    simp [Points.program, Points.difference, Program.nodes, Statement.body, Expr.nodes, Expr.parts]
  have hsources : ∀ name x, (name, Value.number x) ∈ Points.sources.entries →
      x.isFinite = true := by
    simp only [Points.sources, List.mem_cons, Prod.mk.injEq, Value.number.injEq, List.not_mem_nil,
      or_false]
    rintro name x (⟨-, rfl⟩ | ⟨-, rfl⟩) <;> decide +kernel
  obtain ⟨e, he, hexact⟩ := @Program.analyze_points 8 _ _ _ _ Points.parse_vanishing hwhen hsources
    rfl Points.overflowFree_program nofun ⟨true, true⟩
  exact ⟨e, _, Points.parse_vanishing, rfl, he, hexact⟩

end RangeRules
