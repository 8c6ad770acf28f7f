import RangeRules.Proofs.Program.Contract

/-!
# A statement within a run

A run that succeeds is a run of the statements before a given one, its evaluation, and a run of
those after it. The findings of the statement stand in between in those of the whole. If its name is
a sink of no other statement, its value is also what the whole run leaves there.
-/
namespace RangeRules

section Split

variable {V : Type} {eval : Evaluator V} {env : Environment V} {done e : Evaluation V}
  {before after statements : List Statement} {s : Statement}

theorem environmentAfter_concat {there : Environment V} {r : Outcome V}
    (h : environmentAfter eval env before = .ok there) (hr : eval there s.body = .ok r) :
    environmentAfter eval env (before ++ [s]) = .ok (s.update there r.value) := by
  induction before generalizing env with
  | nil =>
    obtain rfl := Except.ok.inj h
    exact environmentAfter_cons_eq_ok.2 ⟨r, hr, rfl⟩
  | cons t before ih =>
    obtain ⟨o, ho, hrest⟩ := environmentAfter_cons_eq_ok.1 h
    exact environmentAfter_cons_eq_ok.2 ⟨o, ho, ih hrest⟩

theorem sinkNamesOf_append (first second : List Statement) :
    sinkNamesOf (first ++ second) = sinkNamesOf first ++ sinkNamesOf second :=
  List.filterMap_append

/-- A run leaves the sinks alone that are none of its statements'. -/
theorem get?_of_runFrom (h : runFrom eval env done statements = .ok e) {name : String}
    (hname : name ∉ sinkNamesOf statements) : e.sinks.get? name = done.sinks.get? name := by
  induction statements generalizing env done with
  | nil =>
    obtain rfl := Except.ok.inj h
    rfl
  | cons s rest ih =>
    obtain ⟨r, -, hrest⟩ := runFrom_cons_eq_ok.1 h
    cases s with
    | «variable» other body =>
      exact @ih _ ⟨done.sinks, done.findings ++ r.findings⟩ hrest hname
    | sink other body =>
      obtain ⟨hother, hname⟩ := not_or.1 (mt List.mem_cons.2 hname)
      rw [ih hrest hname]
      exact (Bindings.get?_put done.sinks other name r.value).trans (if_neg hother)

/-- A sink that is filled keeps its value, if no later statement fills it. -/
theorem get?_of_runFrom_put {name : String} {value : V} {findings : List Finding}
    (h : runFrom eval env ⟨done.sinks.put name value, findings⟩ statements = .ok e)
    (hname : name ∉ sinkNamesOf statements) : e.sinks.get? name = some value := by
  rw [get?_of_runFrom h hname]
  exact (Bindings.get?_put done.sinks name name value).trans (if_pos rfl)

end Split

/-- What a run of the program makes of the statement that stands after some others. -/
structure Program.Comes {V : Type} (p : Program) (eval : Evaluator V) (sources : Bindings V)
    (e : Evaluation V) (before : List Statement) (s : Statement) (there : Environment V)
    (r : Outcome V) : Prop where
  /-- It is evaluated among the variables that the statements before it assign. -/
  environment_eq : environmentAfter eval (.start sources) before = .ok there
  eval_eq : eval there s.body = .ok r
  /-- What it finds comes after what is found before it. -/
  findings_eq : ∃ mid later, runFrom eval (.start sources) ⟨.empty, []⟩ before = .ok mid ∧
    e.findings = mid.findings ++ r.findings ++ later
  /-- Its value is read by the next statements, if it assigns a variable. -/
  next_eq : environmentAfter eval (.start sources) (before ++ [s]) = .ok (s.update there r.value)
  sink_eq : ∀ name body, s = .sink name body → e.sinks.get? name = some r.value

/-- A run that succeeds comes to each of its statements. -/
theorem Program.exists_comes {V : Type} {p : Program} {eval : Evaluator V} {sources : Bindings V}
    {e : Evaluation V} (h : p.run eval sources = .ok e) (hnodup : p.sinkNames.Nodup)
    {before after : List Statement} {s : Statement} (hs : p.statements = before ++ s :: after) :
    ∃ there r, p.Comes eval sources e before s there r := by
  have hrun : runFrom eval (.start sources) ⟨.empty, []⟩ (before ++ s :: after) = .ok e := hs ▸ h
  obtain ⟨there, mid, r, hthere, hmid, hr, hafter⟩ := runFrom_append_cons hrun
  obtain ⟨later, hlater⟩ := findings_of_runFrom hafter
  refine ⟨there, r, hthere, hr, ⟨mid, later, hmid, hlater⟩, environmentAfter_concat hthere hr, ?_⟩
  rintro name body rfl
  have hnames : p.sinkNames = sinkNamesOf before ++ name :: sinkNamesOf after := by
    change sinkNamesOf p.statements = _
    rw [hs, sinkNamesOf_append]
    rfl
  rw [hnames] at hnodup
  exact get?_of_runFrom_put hafter (List.nodup_cons.1 hnodup.of_append_right).1

end RangeRules
