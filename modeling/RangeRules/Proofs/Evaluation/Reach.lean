import RangeRules.Proofs.Bindings.Lookup
import RangeRules.Proofs.Evaluation.Steps

/-!
# What a run on values evaluates

An expression is reached by a run when the run evaluates it: in some statement, among the variables
as they stand there. Of a `when` expression only the predicates up to the first that holds are
reached, and one consequent. Properties that speak of all intermediate results quantify over these.
-/
namespace RangeRules

namespace Statement

variable {V : Type}

/-- The environment of the next statement, when this one has the given value. -/
def update (s : Statement) (env : Environment V) (value : V) : Environment V :=
  match s with
  | .variable name _ => env.bind name value
  | .sink .. => env

/-- The sinks after a statement that has the given value. -/
def record (s : Statement) (sinks : Bindings V) (value : V) : Bindings V :=
  match s with
  | .variable .. => sinks
  | .sink name _ => sinks.put name value

end Statement

theorem runFrom_cons {V : Type} (eval : Evaluator V) (env : Environment V) (done : Evaluation V)
    (s : Statement) (rest : List Statement) :
    runFrom eval env done (s :: rest) = eval env s.body >>= fun r =>
      runFrom eval (s.update env r.value)
        ⟨s.record done.sinks r.value, done.findings ++ r.findings⟩ rest := by
  cases s <;> rfl

theorem runFrom_cons_eq_ok {V : Type} {eval : Evaluator V} {env : Environment V}
    {done : Evaluation V} {s : Statement} {rest : List Statement} {e : Evaluation V} :
    runFrom eval env done (s :: rest) = .ok e ↔ ∃ r, eval env s.body = .ok r ∧
      runFrom eval (s.update env r.value)
        ⟨s.record done.sinks r.value, done.findings ++ r.findings⟩ rest = .ok e := by
  rw [runFrom_cons, then_eq_ok]

/-- The environment after some statements, given the one before. -/
def environmentAfter {V : Type} (eval : Evaluator V) (env : Environment V) :
    List Statement → Except ContractViolation (Environment V)
  | [] => .ok env
  | s :: rest => do
    let r ← eval env s.body
    environmentAfter eval (s.update env r.value) rest

theorem environmentAfter_cons_eq_ok {V : Type} {eval : Evaluator V} {env env' : Environment V}
    {s : Statement} {rest : List Statement} :
    environmentAfter eval env (s :: rest) = .ok env' ↔ ∃ r, eval env s.body = .ok r ∧
      environmentAfter eval (s.update env r.value) rest = .ok env' := by
  rw [environmentAfter, then_eq_ok]

namespace Statement

variable {V W : Type} {R : V → W → Prop}

theorem agrees_update {env : Environment V} {env' : Environment W} (h : env.Agrees R env')
    (s : Statement) {v : V} {w : W} (hvalue : R v w) :
    (s.update env v).Agrees R (s.update env' w) := by
  cases s with
  | sink name body => exact h
  | _ name body => exact h.bind name hvalue

theorem aligned_record {b : Bindings V} {c : Bindings W} (h : Bindings.Aligned R b c)
    (s : Statement) {v : V} {w : W} (hvalue : R v w) :
    Bindings.Aligned R (s.record b v) (s.record c w) := by
  cases s with
  | sink name body => exact h.put name hvalue
  | _ name body => exact h

end Statement

/-- What two evaluators make of a statement is related, wherever in two runs it stands. -/
def Keeps {V W : Type} (eval : Evaluator V) (eval' : Evaluator W) (R : V → W → Prop)
    (env : Environment V) (env' : Environment W) (statements : List Statement) : Prop :=
  ∀ before s after there there', statements = before ++ s :: after →
    environmentAfter eval env before = .ok there →
    environmentAfter eval' env' before = .ok there' →
    there.Agrees R there' → ∀ r r', eval there s.body = .ok r → eval' there' s.body = .ok r' →
    R r.value r'.value

/-- Two ways of being related that are kept apart are kept together. -/
theorem Keeps.and {V W : Type} {eval : Evaluator V} {eval' : Evaluator W} {R S : V → W → Prop}
    {env : Environment V} {env' : Environment W} {statements : List Statement}
    (hr : Keeps eval eval' R env env' statements) (hs : Keeps eval eval' S env env' statements) :
    Keeps eval eval' (fun v w => R v w ∧ S v w) env env' statements := by
  intro before s after there there' hstatements hbefore hbefore' hthere r r' heval heval'
  exact ⟨hr before s after there there' hstatements hbefore hbefore'
      (hthere.mono fun _ _ => And.left) r r' heval heval',
    hs before s after there there' hstatements hbefore hbefore'
      (hthere.mono fun _ _ => And.right) r r' heval heval'⟩

section SideBySide

variable {V W : Type} {eval : Evaluator V} {eval' : Evaluator W} {R : V → W → Prop}
  {env : Environment V} {env' : Environment W} {s : Statement} {rest : List Statement}
  {r : Outcome V} {r' : Outcome W}

theorem Keeps.tail (h : Keeps eval eval' R env env' (s :: rest)) (hr : eval env s.body = .ok r)
    (hr' : eval' env' s.body = .ok r') :
    Keeps eval eval' R (s.update env r.value) (s.update env' r'.value) rest := by
  rintro before t after there there' rfl hbefore hbefore'
  exact h (s :: before) t after there there' rfl
    (environmentAfter_cons_eq_ok.2 ⟨r, hr, hbefore⟩)
    (environmentAfter_cons_eq_ok.2 ⟨r', hr', hbefore'⟩)

/-- Environments stay related along two runs. -/
theorem agrees_environmentAfter {before after : List Statement} {there : Environment V}
    {there' : Environment W} (henv : env.Agrees R env')
    (hkeeps : Keeps eval eval' R env env' (before ++ after))
    (h : environmentAfter eval env before = .ok there)
    (h' : environmentAfter eval' env' before = .ok there') : there.Agrees R there' := by
  induction before generalizing env env' with
  | nil =>
    obtain rfl := Except.ok.inj h
    obtain rfl := Except.ok.inj h'
    exact henv
  | cons s rest ih =>
    obtain ⟨r, hr, hrest⟩ := environmentAfter_cons_eq_ok.1 h
    obtain ⟨r', hr', hrest'⟩ := environmentAfter_cons_eq_ok.1 h'
    have hvalue := hkeeps [] s _ env env' rfl rfl rfl henv r r' hr hr'
    exact ih (s.agrees_update henv hvalue) (hkeeps.tail hr hr') hrest hrest'

/-- Sinks stay related along two runs. -/
theorem aligned_runFrom {statements : List Statement} {done e : Evaluation V}
    {done' e' : Evaluation W} (henv : env.Agrees R env')
    (hsinks : Bindings.Aligned R done.sinks done'.sinks)
    (hkeeps : Keeps eval eval' R env env' statements)
    (h : runFrom eval env done statements = .ok e)
    (h' : runFrom eval' env' done' statements = .ok e') :
    Bindings.Aligned R e.sinks e'.sinks := by
  induction statements generalizing env env' done done' with
  | nil =>
    obtain rfl := Except.ok.inj h
    obtain rfl := Except.ok.inj h'
    exact hsinks
  | cons s rest ih =>
    obtain ⟨r, hr, hrest⟩ := runFrom_cons_eq_ok.1 h
    obtain ⟨r', hr', hrest'⟩ := runFrom_cons_eq_ok.1 h'
    have hvalue := hkeeps [] s _ env env' rfl rfl rfl henv r r' hr hr'
    exact ih (s.agrees_update henv hvalue) (s.aligned_record hsinks hvalue) (hkeeps.tail hr hr')
      hrest hrest'

end SideBySide

section Findings

variable {V : Type} {eval : Evaluator V} {env : Environment V}
  {before after statements : List Statement} {s : Statement} {done e : Evaluation V}

/-- A run adds its findings to those made before it. -/
theorem findings_of_runFrom (h : runFrom eval env done statements = .ok e) :
    ∃ news, e.findings = done.findings ++ news := by
  induction statements generalizing env done with
  | nil =>
    obtain rfl := Except.ok.inj h
    exact ⟨[], (List.append_nil _).symm⟩
  | cons s rest ih =>
    obtain ⟨r, -, hrest⟩ := runFrom_cons_eq_ok.1 h
    obtain ⟨news, hnews⟩ := ih hrest
    exact ⟨r.findings ++ news, by rw [hnews, List.append_assoc]⟩

/-- A run goes on from where its first statements leave it. -/
theorem runFrom_append_cons (h : runFrom eval env done (before ++ s :: after) = .ok e) :
    ∃ there mid r, environmentAfter eval env before = .ok there ∧
      runFrom eval env done before = .ok mid ∧ eval there s.body = .ok r ∧
      runFrom eval (s.update there r.value)
        ⟨s.record mid.sinks r.value, mid.findings ++ r.findings⟩ after = .ok e := by
  induction before generalizing env done with
  | nil =>
    obtain ⟨r, hr, hrest⟩ := runFrom_cons_eq_ok.1 h
    exact ⟨env, done, r, rfl, rfl, hr, hrest⟩
  | cons t before ih =>
    obtain ⟨o, ho, hrest⟩ := runFrom_cons_eq_ok.1 h
    obtain ⟨there, mid, r, hthere, hmid, hr, hafter⟩ := ih hrest
    exact ⟨there, mid, r, environmentAfter_cons_eq_ok.2 ⟨o, ho, hthere⟩,
      runFrom_cons_eq_ok.2 ⟨o, ho, hmid⟩, hr, hafter⟩

theorem runFrom_append {there : Environment V} {mid : Evaluation V}
    (hthere : environmentAfter eval env before = .ok there)
    (hmid : runFrom eval env done before = .ok mid) (rest : List Statement) :
    runFrom eval env done (before ++ rest) = runFrom eval there mid rest := by
  induction before generalizing env done with
  | nil =>
    obtain rfl := Except.ok.inj hthere
    obtain rfl := Except.ok.inj hmid
    rfl
  | cons s before ih =>
    obtain ⟨r, hr, hthere⟩ := environmentAfter_cons_eq_ok.1 hthere
    obtain ⟨r', hr', hmid⟩ := runFrom_cons_eq_ok.1 hmid
    obtain rfl := Except.ok.inj (hr.symm.trans hr')
    rw [List.cons_append, runFrom_cons, hr]
    exact ih hthere hmid

/-- Each statement of a run that succeeds is evaluated, and the run has its findings. -/
theorem eval_of_runFrom (h : runFrom eval env done (before ++ s :: after) = .ok e) :
    ∃ there r, environmentAfter eval env before = .ok there ∧ eval there s.body = .ok r ∧
      r.findings ⊆ e.findings := by
  obtain ⟨there, mid, r, hthere, -, hr, hafter⟩ := runFrom_append_cons h
  obtain ⟨news, hnews⟩ := findings_of_runFrom hafter
  refine ⟨there, r, hthere, hr, fun f hf => ?_⟩
  rw [hnews]
  exact List.mem_append_left _ (List.mem_append_right _ hf)

/-- A sink added where a run stands gets the value of its expression there. -/
theorem exists_runFrom_append_sink {there : Environment V} {name : String} {body : Expr}
    {r : Outcome V} (h : environmentAfter eval env before = .ok there)
    (hr : eval there body = .ok r) :
    ∃ e, runFrom eval env done (before ++ [.sink name body]) = .ok e ∧
      e.sinks.get? name = some r.value := by
  induction before generalizing env done with
  | nil =>
    obtain rfl := Except.ok.inj h
    refine ⟨_, runFrom_cons_eq_ok.2 ⟨r, hr, rfl⟩, ?_⟩
    exact (Bindings.get?_put _ name name r.value).trans (if_pos rfl)
  | cons s rest ih =>
    obtain ⟨o, ho, hrest⟩ := environmentAfter_cons_eq_ok.1 h
    obtain ⟨e, he, hname⟩ := ih hrest
    exact ⟨e, runFrom_cons_eq_ok.2 ⟨o, ho, he⟩, hname⟩

/-- A finding of a run is one of some statement. -/
theorem mem_findings_of_runFrom (h : runFrom eval env done statements = .ok e) {f : Finding}
    (hf : f ∈ e.findings) :
    f ∈ done.findings ∨ ∃ before s after there r, statements = before ++ s :: after ∧
      environmentAfter eval env before = .ok there ∧ eval there s.body = .ok r ∧
      f ∈ r.findings := by
  induction statements generalizing env done with
  | nil =>
    obtain rfl := Except.ok.inj h
    exact .inl hf
  | cons s rest ih =>
    obtain ⟨r, hr, hrest⟩ := runFrom_cons_eq_ok.1 h
    rcases ih hrest with hdone | ⟨before, t, after, there, r', rfl, hthere, hr', hmem⟩
    · rcases List.mem_append.1 hdone with hdone | hmem
      · exact .inl hdone
      · exact .inr ⟨[], s, rest, env, r, rfl, rfl, hr, hmem⟩
    · exact .inr ⟨s :: before, t, after, there, r', rfl,
        environmentAfter_cons_eq_ok.2 ⟨r, hr, hthere⟩, hr', hmem⟩

end Findings

namespace Concrete

mutual

/-- Evaluating the first expression among the given variables evaluates the second. -/
inductive Visits (env : Environment Value) : Expr → Expr → Prop where
  | self (e : Expr) : Visits env e e
  | left {span : Text.Span} {op : Operator} {l r e : Expr} (h : Visits env l e) :
    Visits env (.operate span op l r) e
  | right {span : Text.Span} {op : Operator} {l r e : Expr} (h : Visits env r e) :
    Visits env (.operate span op l r) e
  | choose {span : Text.Span} {branches : Branches} {e : Expr}
    (h : VisitsBranches env branches e) : Visits env (.choose span branches) e

/-- Choosing among the branches evaluates the expression. -/
inductive VisitsBranches (env : Environment Value) : Branches → Expr → Prop where
  | otherwise {value e : Expr} (h : Visits env value e) : VisitsBranches env (.otherwise value) e
  | predicate {p c : Expr} {rest : Branches} {e : Expr} (h : Visits env p e) :
    VisitsBranches env (.clause p c rest) e
  | consequent {p c : Expr} {rest : Branches} {e : Expr} {o : Outcome Value}
    (ok : eval env p = .ok o) (holds : o.value = .boolean true) (h : Visits env c e) :
    VisitsBranches env (.clause p c rest) e
  | rest {p c : Expr} {rest : Branches} {e : Expr} {o : Outcome Value}
    (ok : eval env p = .ok o) (fails : o.value = .boolean false)
    (h : VisitsBranches env rest e) : VisitsBranches env (.clause p c rest) e

end

mutual

theorem Visits.trans {env : Environment Value} {e f g : Expr} :
    Visits env e f → Visits env f g → Visits env e g
  | .self _, h => h
  | .left hef, h => .left (hef.trans h)
  | .right hef, h => .right (hef.trans h)
  | .choose hef, h => .choose (hef.trans h)

theorem VisitsBranches.trans {env : Environment Value} {b : Branches} {f g : Expr} :
    VisitsBranches env b f → Visits env f g → VisitsBranches env b g
  | .otherwise hef, h => .otherwise (hef.trans h)
  | .predicate hef, h => .predicate (hef.trans h)
  | .consequent ok holds hef, h => .consequent ok holds (hef.trans h)
  | .rest ok fails hef, h => .rest ok fails (hef.trans h)

end

end Concrete

/-- One more statement at the end is what a statement is, or it stands before that. -/
theorem eq_or_exists_of_append_singleton {before before' after' : List Statement}
    {s s' : Statement} (h : before ++ [s] = before' ++ s' :: after') :
    (before = before' ∧ s = s') ∨ ∃ rest, before = before' ++ s' :: rest := by
  rcases List.eq_nil_or_concat after' with rfl | ⟨rest, t, rfl⟩
  · obtain ⟨hbefore, hs⟩ := List.append_inj' h rfl
    exact .inl ⟨hbefore, (List.cons.inj hs).1⟩
  · rw [List.concat_eq_append, ← List.cons_append, ← List.append_assoc] at h
    exact .inr ⟨rest, (List.append_inj' h rfl).1⟩

theorem eq_of_singleton_eq_append {s t : Statement} {before after : List Statement}
    (h : [s] = before ++ t :: after) : before = [] ∧ s = t := by
  rcases @eq_or_exists_of_append_singleton [] before after s t h with ⟨rfl, rfl⟩ | ⟨rest, hrest⟩
  · exact ⟨rfl, rfl⟩
  · simp at hrest

/-- The statements hold one that evaluates the expression, among the given variables there. -/
def Concrete.Reaches (env : Environment Value) (statements : List Statement)
    (there : Environment Value) (e : Expr) : Prop :=
  ∃ before s after, statements = before ++ s :: after ∧
    environmentAfter Concrete.eval env before = .ok there ∧ Visits there s.body e

/-- Running the program on some sources evaluates the expression. -/
def Program.Reaches (p : Program) (sources : Bindings Value) (there : Environment Value)
    (e : Expr) : Prop :=
  Concrete.Reaches (.start sources) p.statements there e

/-- No operation of the run gives what is not a number; infinities may occur. -/
def Program.NaNFree (p : Program) (sources : Bindings Value) : Prop :=
  ∀ there span op left right, p.Reaches sources there (.operate span (.arithmetic op) left right) →
    ∀ o x, Concrete.eval there (.operate span (.arithmetic op) left right) = .ok o →
      o.value = .number x → x.isNaN = false

end RangeRules
