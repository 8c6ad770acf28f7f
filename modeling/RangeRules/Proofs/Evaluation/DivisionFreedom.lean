import RangeRules.Proofs.Evaluation.Soundness
import RangeRules.Proofs.Evaluation.TypeSafety

/-!
# Programs free of divisions by zero

If the analysis is asked to report divisors that may be zero and reports neither one of those nor an
error, then no run within the ranges divides by zero, and no sink is left without a value. Every
division that a run evaluates was analyzed, in the branches that it takes as in all others, and its
divisor lies within an interval without zero.
-/
namespace RangeRules

namespace Concrete

variable {env : Environment Value}

/-- The expression is a division whose divisor is evaluated to zero. -/
def DividesByZero (env : Environment Value) (e : Expr) : Prop :=
  ∃ span left right r y, e = .operate span (.arithmetic .div) left right ∧
    eval env right = .ok r ∧ r.value = .number y ∧ y.isZero = true

theorem isZero_of_compute {span : Text.Span} {op : Operator} {x y : Number} {f : Finding}
    (hf : f ∈ (compute span op x y).findings) :
    op = .arithmetic .div ∧ y.isZero = true := by
  cases op with
  | comparison op => exact absurd hf List.not_mem_nil
  | arithmetic op =>
    cases op with
    | div =>
      refine ⟨rfl, ?_⟩
      by_contra hy
      simp [compute, Arithmetic.result?, hy] at hf
    | _ => exact absurd hf List.not_mem_nil

/-- Only a division by zero is reported as one. -/
theorem operands_of_divisionByZero {span : Text.Span} {op : Operator}
    {leftSpan rightSpan : Text.Span} {v w : Value} {f : Finding}
    (hf : f ∈ (operate span op leftSpan rightSpan v w).findings)
    (hproblem : f.problem = .divisionByZero) :
    op = .arithmetic .div ∧ ∃ y, w = .number y ∧ y.isZero = true := by
  cases v with
  | undefined => cases w <;> exact nomatch hf
  | boolean b =>
    cases w with
    | undefined => exact nomatch hf
    | _ =>
      obtain rfl := List.mem_singleton.1 hf
      exact nomatch hproblem
  | number x =>
    cases w with
    | undefined => exact nomatch hf
    | boolean c =>
      obtain rfl := List.mem_singleton.1 hf
      exact nomatch hproblem
    | number y =>
      obtain ⟨hop, hy⟩ := isZero_of_compute hf
      exact ⟨hop, y, rfl, hy⟩

/-- Where a division by zero is found, one is evaluated. -/
theorem dividesByZero_of_eval (e : Expr) {o : Outcome Value} (h : eval env e = .ok o)
    {f : Finding} (hf : f ∈ o.findings) (hproblem : f.problem = .divisionByZero) :
    ∃ n, Visits env e n ∧ DividesByZero env n := by
  obtain ⟨n, hvisits, hn⟩ := arises_of_eval e h hf
  cases hn with
  | operate _ hr hmem =>
    obtain ⟨rfl, y, hy, hzero⟩ := operands_of_divisionByZero hmem hproblem
    exact ⟨_, hvisits, _, _, _, _, y, rfl, hr, hy, hzero⟩
  | predicate _ _ _ heq =>
    rw [heq] at hproblem
    exact nomatch hproblem

end Concrete

namespace Abstract

/-- A divisor that is evaluated to zero within its interval is reported. -/
theorem precisionLoss_of_dividesByZero {options : AnalysisOptions}
    (hoptions : options.precisionLoss = true) {env : Environment AbstractValue}
    {env' : Environment Value} (henv : env.Each Defined) {n : Expr} {o : Outcome AbstractValue}
    (h : eval options env n = .ok o) (hclean : Clean o.findings)
    (hn : Concrete.DividesByZero env' n)
    (hrelated : ∀ m r r', Concrete.Visits env' n m → eval options env m = .ok r →
      Concrete.eval env' m = .ok r' →
      Related (fun i x => i.contains x = true) r.value r'.value) :
    ∃ f ∈ o.findings, f.problem = .precisionLoss := by
  obtain ⟨span, left, right, r', y, rfl, hr', hy, hzero⟩ := hn
  obtain ⟨l, r, hl, hr, rfl⟩ := eval_operate_eq_ok.1 h
  simp only [clean_append] at hclean
  obtain ⟨⟨hcl, hcr⟩, hco⟩ := hclean
  obtain ⟨i, j, hi, hj⟩ := operands_of_clean (defined_eval henv left hl hcl)
    (defined_eval henv right hr hcr) hco
  have hdivisor := hrelated right r r' (.right (.self _)) hr hr'
  rw [hj, hy] at hdivisor
  cases hdivisor with
  | number hcontains =>
    have hj' := Interval.containsZero_of_isZero hcontains hzero
    refine ⟨⟨.precisionLoss, right.span, right.span⟩, List.mem_append_right _ ?_, rfl⟩
    rw [hi, hj]
    simp [operate, compute, hoptions, hj']

end Abstract

/-- Along an analysis without errors everything that can be read is defined. -/
theorem keeps_defined {W : Type} {eval' : Evaluator W} {options : AnalysisOptions}
    {env : Environment AbstractValue} {env' : Environment W} {statements : List Statement}
    {done e : Evaluation AbstractValue}
    (h : runFrom (Abstract.eval options) env done statements = .ok e) (hclean : Clean e.findings) :
    Keeps (Abstract.eval options) eval' (fun a _ => Abstract.Defined a) env env' statements := by
  rintro before s after there there' rfl hbefore - hthere r r' hr -
  obtain ⟨there, o, hthere', ho, hsubset⟩ := eval_of_runFrom h
  obtain rfl := Except.ok.inj (hbefore.symm.trans hthere')
  obtain rfl := Except.ok.inj (hr.symm.trans ho)
  exact Abstract.defined_eval (hthere.each fun _ _ => id) s.body hr (hclean.subset hsubset)

/-- Descriptions of values that are not undefined fix their types. -/
theorem Bindings.Describes.types {described : Bindings AbstractValue} {sources : Bindings Value}
    (h : described.Describes sources)
    (hdefined : ∀ name a, described.get? name = some a → a.isUndefined = false) :
    described.Types sources := by
  refine fun name => rel_imp (h name) fun a v ha _ hcontains => ⟨hdefined name a ha, ?_⟩
  cases a <;> cases v <;> first | rfl | exact nomatch hcontains

section WithinRanges

variable {p : Program} {options : AnalysisOptions} {described : Bindings AbstractValue}
  {sources : Bindings Value} {e : Evaluation AbstractValue}

/-- What a run may read is defined and within its description, if the analysis found no error. -/
theorem agrees_of_clean (hsources : described.Describes sources)
    (hdefined : ∀ name a, described.get? name = some a → a.isUndefined = false)
    (h : p.analyze described options = .ok e) (hclean : Clean e.findings)
    (hnan : p.NaNFree sources) {before after : List Statement}
    (hstatements : p.statements = before ++ after) {there : Environment AbstractValue}
    {there' : Environment Value}
    (hthere : environmentAfter (Abstract.eval options) (.start described) before = .ok there)
    (hthere' : environmentAfter Concrete.eval (.start sources) before = .ok there') :
    there.Agrees (fun a v => Abstract.Defined a ∧ a.Admits Interval.Bounded ∧
      Related (fun i x => i.contains x = true) a v) there' := by
  have hrun : runFrom (Abstract.eval options) (.start described) ⟨.empty, []⟩ (before ++ after) =
      .ok e := hstatements ▸ h
  refine agrees_environmentAfter (Environment.agrees_start fun name => ?_)
    ((keeps_defined hrun hclean).and
      (keeps_related Soundness.membership_contains fun _ _ _ hmeets =>
        Soundness.operates_contains hnan (hstatements ▸ hmeets))) hthere hthere'
  exact rel_imp (hsources.related name) fun a _ ha _ hrelated =>
    ⟨of_decide_eq_false (hdefined name a ha), hrelated⟩

/-- A run within the ranges finds nothing, where the analysis found no error and no loss. -/
theorem Program.findings_eq_nil {e' : Evaluation Value}
    (hoptions : options.precisionLoss = true) (hsources : described.Describes sources)
    (hdefined : ∀ name a, described.get? name = some a → a.isUndefined = false)
    (h : p.analyze described options = .ok e) (hclean : Clean e.findings)
    (hloss : ∀ f ∈ e.findings, f.problem ≠ .precisionLoss) (hnan : p.NaNFree sources)
    (h' : p.interpret sources = .ok e') (hfindings : OnlyDivisionByZero e'.findings) :
    e'.findings = [] := by
  rw [List.eq_nil_iff_forall_not_mem]
  intro f hf
  rcases mem_findings_of_runFrom h' hf with hnil | ⟨before, s, after, there', r', hstatements,
    hthere', hr', hmem⟩
  · exact nomatch hnil
  obtain ⟨n, hvisits, hn⟩ := Concrete.dividesByZero_of_eval s.body hr' hmem (hfindings f hf)
  have hrun : runFrom (Abstract.eval options) (.start described) ⟨.empty, []⟩
      (before ++ s :: after) = .ok e := hstatements ▸ h
  obtain ⟨there, r, hthere, hr, hsubset⟩ := eval_of_runFrom hrun
  have henv := agrees_of_clean hsources hdefined h hclean hnan hstatements hthere hthere'
  have heach : there.Each Abstract.Defined := henv.each fun _ _ => And.left
  have hcleanr : Clean r.findings := hclean.subset hsubset
  obtain ⟨o, ho, hsubset'⟩ :=
    (Abstract.visits_of_clean heach s.body hr hcleanr hvisits).exists_eval hr
  have hrelated : ∀ m r r', Concrete.Visits there' n m → Abstract.eval options there m = .ok r →
      Concrete.eval there' m = .ok r' →
      Related (fun i x => i.contains x = true) r.value r'.value := fun m r r' hm hr hr' =>
    Abstract.related_eval Soundness.membership_contains (henv.mono fun _ _ => And.right) m hr hr'
      fun k hk => Soundness.operates_contains hnan
        ⟨before, s, after, hstatements, hthere, hthere', hvisits.trans (hm.trans hk)⟩
  obtain ⟨g, hg, hgloss⟩ := Abstract.precisionLoss_of_dividesByZero hoptions heach ho
    (hcleanr.subset hsubset') hn hrelated
  exact hloss g (hsubset (hsubset' hg)) hgloss

end WithinRanges

/--
A run within the ranges succeeds, finds nothing and leaves no sink undefined, where the analysis was
to report divisors that may be zero and found neither one nor an error.
-/
theorem Program.interpret_of_no_loss {p : Program} {options : AnalysisOptions}
    {described : Bindings AbstractValue} {sources : Bindings Value}
    {e : Evaluation AbstractValue} (hoptions : options.precisionLoss = true)
    (hsources : described.Describes sources)
    (hdefined : ∀ name a, described.get? name = some a → a.isUndefined = false)
    (h : p.analyze described options = .ok e)
    (herrors : Log.hasErrors (e.diagnostics p.source) = false)
    (hloss : ∀ f ∈ e.findings, f.problem ≠ .precisionLoss) (hnan : p.NaNFree sources) :
    ∃ e', p.interpret sources = .ok e' ∧ e'.findings = [] ∧
      ∀ sink ∈ e'.sinks.entries, sink.2.isUndefined = false := by
  have hclean := (hasErrors_diagnostics p.source e).1 herrors
  obtain ⟨e', he', hfindings, hsinks⟩ :=
    Program.safe_run (hsources.types hdefined) h hclean
  have hnil := Program.findings_eq_nil hoptions hsources hdefined h hclean hloss hnan he' hfindings
  refine ⟨e', he', hnil, fun sink hsink => ?_⟩
  obtain ⟨entry, -, -, htyped⟩ := hsinks.exists_of_mem hsink
  rcases htyped.type with htype | ⟨-, hne⟩
  · exact decide_eq_false (htype ▸ htyped.defined)
  · exact absurd hnil hne

theorem Program.naNFree_reciprocal : Program.reciprocal.NaNFree ⟨[("x", .number 2.0)]⟩ := by
  decide +kernel

theorem Program.interpret_of_no_loss_reciprocal :
    ∃ e e', Program.reciprocal.analyze ⟨[("x", .interval ⟨1.0, 4.0⟩)]⟩ ⟨true, false⟩ = .ok e ∧
      e.findings = [] ∧ Program.reciprocal.interpret ⟨[("x", .number 2.0)]⟩ = .ok e' ∧
      e'.findings = [] ∧ ∀ sink ∈ e'.sinks.entries, sink.2.isUndefined = false := by
  have hsources : Bindings.Describes ⟨[("x", .interval ⟨1.0, 4.0⟩)]⟩ ⟨[("x", .number 2.0)]⟩ :=
    Bindings.Aligned.get? (.cons ⟨rfl, by decide⟩ .nil)
  have hdefined : ∀ name a, Bindings.get? ⟨[("x", AbstractValue.interval ⟨1.0, 4.0⟩)]⟩ name =
      some a → a.isUndefined = false := by
    intro name a ha
    have hentry := List.mem_singleton.1 (Bindings.mem_of_get? ha)
    obtain rfl := (Prod.mk.inj hentry).2
    rfl
  obtain ⟨e', he'⟩ := @Program.interpret_of_no_loss Program.reciprocal ⟨true, false⟩ _ _ _ rfl
    hsources hdefined rfl rfl nofun Program.naNFree_reciprocal
  exact ⟨_, e', rfl, rfl, he'⟩

end RangeRules
