import RangeRules.Proofs.Evaluation.Clean

/-!
# Programs analyzed without errors do not go wrong

If the analysis of a program finds no error, then a run on values of the same types succeeds, finds
nothing but divisions by zero, and gives every sink a value of the type it was analyzed to, or none
after such a division. The values need not lie in the ranges analyzed: only their types matter.
-/
namespace RangeRules

/-- All findings are divisions by zero. -/
def OnlyDivisionByZero (findings : List Finding) : Prop :=
  ∀ f ∈ findings, f.problem = .divisionByZero

theorem onlyDivisionByZero_nil : OnlyDivisionByZero [] := nofun

theorem onlyDivisionByZero_append {fs gs : List Finding} :
    OnlyDivisionByZero (fs ++ gs) ↔ OnlyDivisionByZero fs ∧ OnlyDivisionByZero gs := by
  unfold OnlyDivisionByZero
  simp only [List.mem_append, or_imp, forall_and]

/-- A value of the type of its description, or none if that is excused. -/
structure Typed (excused : Prop) (a : AbstractValue) (v : Value) : Prop where
  defined : a.type ≠ .undefined
  type : v.type = a.type ∨ v.type = .undefined ∧ excused

theorem Typed.mono {P Q : Prop} (h : P → Q) {a : AbstractValue} {v : Value} (ht : Typed P a v) :
    Typed Q a v :=
  ⟨ht.defined, ht.type.imp id fun hv => ⟨hv.1, h hv.2⟩⟩

/-- An outcome with no findings but divisions by zero, which excuse a missing value. -/
structure Safe (excused : Prop) (a : AbstractValue) (o : Outcome Value) : Prop where
  findings : OnlyDivisionByZero o.findings
  typed : Typed (excused ∨ o.findings ≠ []) a o.value

theorem Safe.mono {P Q : Prop} (h : P → Q) {a : AbstractValue} {o : Outcome Value}
    (hs : Safe P a o) : Safe Q a o :=
  ⟨hs.findings, hs.typed.mono (Or.imp h id)⟩

section

variable {D : Prop}

/-- What goes wrong before is found, and excuses what is missing after. -/
theorem Safe.after {a : AbstractValue} {o : Outcome Value} {fs : List Finding}
    (hfs : OnlyDivisionByZero fs) (h : Safe (D ∨ fs ≠ []) a o) :
    Safe D a ⟨o.value, fs ++ o.findings⟩ := by
  refine ⟨onlyDivisionByZero_append.2 ⟨hfs, h.findings⟩, h.typed.mono fun hexcused => ?_⟩
  rw [Ne, List.append_eq_nil_iff, not_and_or]
  tauto

theorem Safe.congr {a b : AbstractValue} {o : Outcome Value} (hab : a.type = b.type)
    (h : Safe D a o) : Safe D b o :=
  ⟨h.findings, hab ▸ h.typed.defined, hab ▸ h.typed.type⟩

/-- A predicate that is a set of booleans is a boolean, or missing. -/
theorem Typed.boolean_cases {set : BooleanSet} {v : Value} (h : Typed D (.boolean set) v) :
    (∃ b, v = .boolean b) ∨ v = .undefined ∧ D := by
  cases v with
  | number x => exact absurd h.type (by simp [Value.type, AbstractValue.type])
  | boolean b => exact .inl ⟨b, rfl⟩
  | undefined => exact .inr ⟨rfl, by simpa [Value.type, AbstractValue.type] using h.type⟩

end

namespace Abstract

variable {options : AnalysisOptions} {D : Prop}

theorem safe_operate {op : Operator} {span leftSpan rightSpan : Text.Span} {i j : Interval}
    {v w : Value} (hv : Typed D (.interval i) v) (hw : Typed D (.interval j) w) :
    Safe D (compute options op rightSpan i j).value
      (Concrete.operate span op leftSpan rightSpan v w) := by
  have hdefined : Defined (compute options op rightSpan i j).value :=
    defined_compute op rightSpan i j
  cases v with
  | boolean b => exact absurd hv.type (by simp [Value.type, AbstractValue.type])
  | undefined =>
    have hexcused : D := by simpa [Value.type, AbstractValue.type] using hv.type
    cases w <;> exact ⟨onlyDivisionByZero_nil, hdefined, .inr ⟨rfl, .inl hexcused⟩⟩
  | number x =>
    cases w with
    | boolean b => exact absurd hw.type (by simp [Value.type, AbstractValue.type])
    | undefined =>
      have hexcused : D := by simpa [Value.type, AbstractValue.type] using hw.type
      exact ⟨onlyDivisionByZero_nil, hdefined, .inr ⟨rfl, .inl hexcused⟩⟩
    | number y =>
      cases op with
      | comparison op => exact ⟨onlyDivisionByZero_nil, hdefined, .inl rfl⟩
      | arithmetic op =>
        unfold Concrete.operate Concrete.compute
        dsimp only
        split
        · exact ⟨onlyDivisionByZero_nil, hdefined, .inl rfl⟩
        · refine ⟨?_, hdefined, .inr ⟨rfl, .inr (by simp)⟩⟩
          intro f hf
          obtain rfl := List.mem_singleton.1 hf
          rfl

theorem each_defined {env : Environment AbstractValue} {env' : Environment Value}
    (henv : env.Agrees (Typed D) env') : env.Each Defined :=
  henv.each fun _ _ => Typed.defined

mutual

/-- Where the analysis finds no error, evaluation on values of the same types is safe. -/
theorem safe_eval {env : Environment AbstractValue} {env' : Environment Value}
    (henv : env.Agrees (Typed D) env') :
    ∀ (e : Expr) {o : Outcome AbstractValue}, eval options env e = .ok o → Clean o.findings →
      ∃ o', Concrete.eval env' e = .ok o' ∧ Safe D o.value o'
  | .number _ x, _, h, _ => by
    obtain ⟨i, -, rfl⟩ := eval_number_eq_ok.1 h
    exact ⟨_, rfl, onlyDivisionByZero_nil, nofun, .inl rfl⟩
  | .boolean _ b, _, h, _ => by
    obtain rfl := Except.ok.inj h
    exact ⟨_, rfl, onlyDivisionByZero_nil, nofun, .inl rfl⟩
  | .source span name, _, h, _ => by
    obtain ⟨a, ha, rfl⟩ := require_eq_ok.1 h
    obtain ⟨v, hv, htyped⟩ := Environment.exists_of_rel (ha ▸ henv.sources name)
    exact ⟨⟨v, []⟩, require_eq_ok.2 ⟨v, hv, rfl⟩, onlyDivisionByZero_nil, htyped.mono .inl⟩
  | .variable span name, _, h, _ => by
    obtain ⟨a, ha, rfl⟩ := require_eq_ok.1 h
    obtain ⟨v, hv, htyped⟩ := Environment.exists_of_rel (ha ▸ henv.locals name)
    exact ⟨⟨v, []⟩, require_eq_ok.2 ⟨v, hv, rfl⟩, onlyDivisionByZero_nil, htyped.mono .inl⟩
  | .operate span op left right, _, h, hclean => by
    obtain ⟨l, r, hl, hr, rfl⟩ := eval_operate_eq_ok.1 h
    simp only [clean_append] at hclean
    obtain ⟨⟨hcl, hcr⟩, hco⟩ := hclean
    obtain ⟨l', hl', hleft⟩ := safe_eval henv left hl hcl
    obtain ⟨r', hr', hright⟩ := safe_eval henv right hr hcr
    obtain ⟨i, j, hi, hj⟩ := operands_of_clean hleft.typed.defined hright.typed.defined hco
    refine ⟨_, Concrete.eval_operate_eq_ok.2 ⟨l', r', hl', hr', rfl⟩, ?_⟩
    refine Safe.after (onlyDivisionByZero_append.2 ⟨hleft.findings, hright.findings⟩) ?_
    have hexcused : ∀ {fs : List Finding}, fs ⊆ l'.findings ++ r'.findings → D ∨ fs ≠ [] →
        D ∨ l'.findings ++ r'.findings ≠ [] := fun hsubset => Or.imp id fun hne heq =>
      hne (List.subset_nil.1 (heq ▸ hsubset))
    have hl'' := hleft.typed.mono (hexcused (List.subset_append_left _ _))
    have hr'' := hright.typed.mono (hexcused (List.subset_append_right _ _))
    rw [hi] at hl''
    rw [hj] at hr''
    rw [hi, hj]
    exact safe_operate hl'' hr''
  | .choose _ branches, _, h, hclean => by
    obtain ⟨parts, hparts, hdefined, rfl⟩ :=
      parts_of_defined h (defined_eval (each_defined henv) _ h hclean)
    obtain ⟨htype, hsame⟩ := united_of_defined hparts hdefined
    obtain ⟨o', ho', hsafe⟩ := safe_choose henv branches hparts
      (hclean.subset (parts.inner_subset options branches)) htype
    exact ⟨o', ho', hsafe.congr hsame.symm⟩

/-- So is choosing among branches whose parts are of one type. -/
theorem safe_choose {env : Environment AbstractValue} {env' : Environment Value}
    (henv : env.Agrees (Typed D) env') :
    ∀ (branches : Branches) {parts : Parts}, PartsOf options env branches parts →
      Clean parts.inner → (∀ a ∈ parts.consequents.value, parts.fallback.value.type = a.type) →
      ∃ o', Concrete.choose env' branches = .ok o' ∧ Safe D parts.fallback.value o'
  | .otherwise e, _, hparts, hclean, _ => by
    obtain ⟨d, hd, rfl⟩ := hparts.of_otherwise
    exact safe_eval henv e hd hclean
  | .clause p c rest, _, hparts, hclean, htype => by
    obtain ⟨v, set, w, tail, htail, rfl, hv, hset, hw⟩ := hparts.of_clause
    obtain ⟨hvsub, hwsub, htailsub⟩ := tail.inner_cons v set w
    obtain ⟨v', hv', hpredicate⟩ := safe_eval henv p hv (hclean.subset hvsub)
    obtain ⟨w', hw', hconsequent⟩ := safe_eval henv c hw (hclean.subset hwsub)
    obtain ⟨o', ho', hrest⟩ := safe_choose henv rest htail (hclean.subset htailsub) fun a ha =>
      htype a (List.mem_cons_of_mem _ ha)
    have hdefined := hrest.typed.defined
    have hp := hpredicate.typed
    rw [hset] at hp
    rcases hp.boolean_cases with ⟨b, hb⟩ | ⟨hmissing, hexcused⟩
    · cases b with
      | true =>
        refine ⟨_, Concrete.choose_clause_eq_ok.2 ⟨v', hv', .consequent hb hw'⟩, ?_⟩
        have hcongr := hconsequent.congr (htype w.value List.mem_cons_self).symm
        exact Safe.after hpredicate.findings (hcongr.mono .inl)
      | false =>
        refine ⟨_, Concrete.choose_clause_eq_ok.2 ⟨v', hv', .rest hb ho'⟩, ?_⟩
        exact Safe.after hpredicate.findings (hrest.mono .inl)
    · refine ⟨_, Concrete.choose_clause_eq_ok.2 ⟨v', hv', .undefined hmissing⟩, ?_⟩
      exact ⟨hpredicate.findings, hdefined, .inr ⟨rfl, hexcused⟩⟩

end

end Abstract

/-- A run of statements that are analyzed without errors is safe. -/
theorem safe_runFrom {options : AnalysisOptions} {statements : List Statement}
    {env : Environment AbstractValue} {env' : Environment Value}
    {done e : Evaluation AbstractValue} {done' : Evaluation Value}
    (h : runFrom (Abstract.eval options) env done statements = .ok e) (hclean : Clean e.findings)
    (hdone : OnlyDivisionByZero done'.findings)
    (henv : env.Agrees (Typed (done'.findings ≠ [])) env')
    (hsinks : Bindings.Aligned (Typed (done'.findings ≠ [])) done.sinks done'.sinks) :
    ∃ e', runFrom Concrete.eval env' done' statements = .ok e' ∧ OnlyDivisionByZero e'.findings ∧
      Bindings.Aligned (Typed (e'.findings ≠ [])) e.sinks e'.sinks := by
  induction statements generalizing env env' done done' with
  | nil =>
    obtain rfl := Except.ok.inj h
    exact ⟨done', rfl, hdone, hsinks⟩
  | cons s rest ih =>
    obtain ⟨r, hr, hrest⟩ := runFrom_cons_eq_ok.1 h
    obtain ⟨news, hnews⟩ := findings_of_runFrom hrest
    have hcleanr : Clean r.findings := hclean.subset fun f hf => by
      rw [hnews]
      exact List.mem_append_left _ (List.mem_append_right _ hf)
    obtain ⟨r', hr', hsafe⟩ := Abstract.safe_eval henv s.body hr hcleanr
    have hmono : ∀ a v, Typed (done'.findings ≠ []) a v →
        Typed (done'.findings ++ r'.findings ≠ []) a v := fun _ _ ht =>
      ht.mono fun hne heq => hne (List.append_eq_nil_iff.1 heq).1
    have hvalue : Typed (done'.findings ++ r'.findings ≠ []) r.value r'.value :=
      hsafe.typed.mono fun hne heq => by
        obtain ⟨hnil, hnil'⟩ := List.append_eq_nil_iff.1 heq
        exact hne.elim (fun hne => hne hnil) fun hne => hne hnil'
    obtain ⟨e', he', hfindings, hsinks'⟩ :=
      @ih _ _ _ ⟨s.record done'.sinks r'.value, done'.findings ++ r'.findings⟩ hrest
        (onlyDivisionByZero_append.2 ⟨hdone, hsafe.findings⟩)
        (s.agrees_update (henv.mono hmono) hvalue)
        (s.aligned_record (hsinks.mono hmono) hvalue)
    exact ⟨e', runFrom_cons_eq_ok.2 ⟨r', hr', he'⟩, hfindings, hsinks'⟩

/-- Sources of the types of their descriptions, none of which is undefined. -/
def Bindings.Types (described : Bindings AbstractValue) (sources : Bindings Value) : Prop :=
  ∀ name, Option.Rel (fun a v => a.isUndefined = false ∧ v.type = a.type)
    (described.get? name) (sources.get? name)

theorem Program.safe_run {p : Program} {options : AnalysisOptions}
    {described : Bindings AbstractValue} {sources : Bindings Value}
    {e : Evaluation AbstractValue} (hsources : described.Types sources)
    (h : p.analyze described options = .ok e) (hclean : Clean e.findings) :
    ∃ e', p.interpret sources = .ok e' ∧ OnlyDivisionByZero e'.findings ∧
      Bindings.Aligned (Typed (e'.findings ≠ [])) e.sinks e'.sinks := by
  have htyped : (Environment.start described).Agrees (Typed (([] : List Finding) ≠ []))
      (.start sources) := by
    refine (Environment.agrees_start hsources).mono fun a v hav => ⟨?_, .inl hav.2⟩
    exact of_decide_eq_false hav.1
  exact safe_runFrom h hclean onlyDivisionByZero_nil htyped (Bindings.aligned_empty _)

/--
A run succeeds where the analysis found no error, finds nothing but divisions by zero, and gives
every sink a value of its type, or none after such a division.
-/
theorem Program.interpret_of_clean {p : Program} {options : AnalysisOptions}
    {described : Bindings AbstractValue} {sources : Bindings Value}
    {e : Evaluation AbstractValue} (hsources : described.Types sources)
    (h : p.analyze described options = .ok e)
    (herrors : Log.hasErrors (e.diagnostics p.source) = false) :
    ∃ e', p.interpret sources = .ok e' ∧ (∀ f ∈ e'.findings, f.problem = .divisionByZero) ∧
      Bindings.Aligned
        (fun a v => v.type = a.type ∨
          v.isUndefined = true ∧ ∃ f ∈ e'.findings, f.problem = .divisionByZero)
        e.sinks e'.sinks := by
  obtain ⟨e', he', hfindings, hsinks⟩ :=
    Program.safe_run hsources h ((hasErrors_diagnostics p.source e).1 herrors)
  refine ⟨e', he', hfindings, hsinks.mono fun a v hav => hav.type.imp id ?_⟩
  rintro ⟨hundefined, hne⟩
  obtain ⟨f, hf⟩ := List.exists_mem_of_ne_nil _ hne
  exact ⟨decide_eq_true hundefined, f, hf, hfindings f hf⟩

/-- `z: 1 / this.x` -/
def Program.reciprocal : Program :=
  ⟨[], [.sink "z" (.operate ⟨0, 0⟩ (.arithmetic .div) (.number ⟨0, 0⟩ 1.0) (.source ⟨0, 0⟩ "x"))]⟩

theorem Program.interpret_of_clean_reciprocal :
    ∃ e e', Program.reciprocal.analyze ⟨[("x", .interval ⟨-1.0, 1.0⟩)]⟩ .plain = .ok e ∧
      Log.hasErrors (e.diagnostics Program.reciprocal.source) = false ∧
      Program.reciprocal.interpret ⟨[("x", .number 0.0)]⟩ = .ok e' ∧
      (∀ f ∈ e'.findings, f.problem = .divisionByZero) ∧
      Bindings.Aligned
        (fun a v => v.type = a.type ∨
          v.isUndefined = true ∧ ∃ f ∈ e'.findings, f.problem = .divisionByZero)
        e.sinks e'.sinks := by
  have hsources : Bindings.Types ⟨[("x", .interval ⟨-1.0, 1.0⟩)]⟩ ⟨[("x", .number 0.0)]⟩ :=
    Bindings.Aligned.get? (.cons ⟨rfl, rfl, rfl⟩ .nil)
  obtain ⟨e', he'⟩ := @Program.interpret_of_clean Program.reciprocal .plain _ _ _ hsources rfl rfl
  exact ⟨_, e', rfl, rfl, he'⟩

end RangeRules
