import RangeRules.Proofs.Evaluation.Reach

/-!
# The two evaluators side by side

A run on values and a run on descriptions of them are compared node by node. How a number belongs
to an interval is left open: `Membership` asks of it what literals, comparisons and unions need, and
`Operates` what the operations evaluated by the run on values need. What is proved of both runs is
that values are related to their descriptions at every sink. An undefined value on either side is
related to everything, so that nothing is claimed where a problem was met.
-/
namespace RangeRules

namespace AbstractValue

/-- The interval that a description is, if it is one, has a property. -/
def Admits (P : Interval → Prop) : AbstractValue → Prop
  | .interval i => P i
  | .boolean _ | .undefined => True

end AbstractValue

/-- A property of intervals that every computed interval has. -/
structure Closed (P : Interval → Prop) : Prop where
  literal : ∀ {x : Number} {i : Interval}, Interval.make? x x = .ok i → P i
  operation : ∀ (op : Arithmetic) {i j : Interval}, P i → P j → P (op.onIntervals i j)
  union : ∀ {i j : Interval}, P i → P j → P (i.union j)

/-- A way for numbers to belong to intervals that literals, verdicts and unions keep to. -/
structure Membership (P : Interval → Prop) (N : Interval → Number → Prop) : Prop where
  closed : Closed P
  literal : ∀ {x : Number} {i : Interval}, Interval.make? x x = .ok i → N i x
  verdict : ∀ (op : Comparison) {i j : Interval} {x y : Number}, P i → P j → N i x → N j y →
    (op.onIntervals i j).contains (op.holds x y) = true
  union : ∀ {i j : Interval} {x : Number}, P i → P j → N i x ∨ N j x → N (i.union j) x

/-- A value as its description has it; nothing is said where either is undefined. -/
inductive Related (N : Interval → Number → Prop) : AbstractValue → Value → Prop where
  | unknown (v : Value) : Related N .undefined v
  | missing (a : AbstractValue) : Related N a .undefined
  | number {i : Interval} {x : Number} (h : N i x) : Related N (.interval i) (.number x)
  | boolean {s : BooleanSet} {b : Bool} (h : s.contains b = true) :
    Related N (.boolean s) (.boolean b)

theorem Related.mono {N M : Interval → Number → Prop} {a : AbstractValue} {v : Value}
    (h : Related N a v) (himp : ∀ i x, N i x → M i x) : Related M a v := by
  cases h with
  | unknown v => exact .unknown v
  | missing a => exact .missing a
  | number h => exact .number (himp _ _ h)
  | boolean h => exact .boolean h

theorem BooleanSet.contains_union {s t : BooleanSet} {b : Bool}
    (h : s.contains b = true ∨ t.contains b = true) : (s.union t).contains b = true := by
  cases s <;> cases t <;> cases b <;> revert h <;> decide

namespace AbstractValue

variable {P : Interval → Prop} {N : Interval → Number → Prop}

theorem Admits.union (closed : Closed P) {a b : AbstractValue} (ha : a.Admits P)
    (hb : b.Admits P) : (a.union b).Admits P := by
  cases a <;> cases b <;> first | exact trivial | exact closed.union ha hb

theorem related_union (member : Membership P N) {a b : AbstractValue} {v : Value}
    (htype : a.type = b.type) (ha : a.Admits P) (hb : b.Admits P)
    (h : Related N a v ∨ Related N b v) : Related N (a.union b) v := by
  cases a with
  | undefined => exact .unknown v
  | interval i =>
    cases b with
    | boolean t => exact nomatch htype
    | undefined => exact nomatch htype
    | interval j =>
      cases v with
      | undefined => exact .missing _
      | boolean b => rcases h with h | h <;> exact nomatch h
      | number x =>
        refine .number (member.union ha hb ?_)
        rcases h with h | h <;> cases h with
        | number h => first | exact .inl h | exact .inr h
  | boolean s =>
    cases b with
    | interval j => exact nomatch htype
    | undefined => exact nomatch htype
    | boolean t =>
      cases v with
      | undefined => exact .missing _
      | number x => rcases h with h | h <;> exact nomatch h
      | boolean b =>
        refine .boolean (BooleanSet.contains_union ?_)
        rcases h with h | h <;> cases h with
        | boolean h => first | exact .inl h | exact .inr h

end AbstractValue

namespace Abstract

variable {P : Interval → Prop} {N : Interval → Number → Prop}

/-- A clause that may apply and has a value of the given kind. -/
def SomeClause (R : AbstractValue → Prop) (sets : List BooleanSet)
    (values : List AbstractValue) : Prop :=
  ∃ set value, (set, value) ∈ sets.zip values ∧ set.contains true = true ∧ R value

theorem someClause_cons {R : AbstractValue → Prop} {set : BooleanSet} {sets : List BooleanSet}
    {value : AbstractValue} {values : List AbstractValue} :
    SomeClause R (set :: sets) (value :: values) ↔
      (set.contains true = true ∧ R value) ∨ SomeClause R sets values := by
  unfold SomeClause
  simp only [List.zip_cons_cons, List.mem_cons, Prod.mk.injEq]
  constructor
  · rintro ⟨s, a, ⟨rfl, rfl⟩ | hmem, hs, ha⟩
    · exact .inl ⟨hs, ha⟩
    · exact .inr ⟨s, a, hmem, hs, ha⟩
  · rintro (⟨hs, ha⟩ | ⟨s, a, hmem, hs, ha⟩)
    · exact ⟨set, value, .inl ⟨rfl, rfl⟩, hs, ha⟩
    · exact ⟨s, a, .inr hmem, hs, ha⟩

theorem not_someClause_nil {R : AbstractValue → Prop} {sets : List BooleanSet} :
    ¬ SomeClause R sets [] := by
  rintro ⟨s, a, hmem, -⟩
  rw [List.zip_nil_right] at hmem
  exact nomatch hmem

/-- What relates to `otherwise` or to a clause that may apply relates to all of them united. -/
theorem related_unite (member : Membership P N) {v : Value} {values : List AbstractValue}
    (sets : List BooleanSet) {d : AbstractValue} (htype : ∀ a ∈ values, d.type = a.type)
    (hvalues : ∀ a ∈ values, a.Admits P) (hd : d.Admits P)
    (h : Related N d v ∨ SomeClause (Related N · v) sets values) :
    Related N (unite sets values d) v := by
  induction sets generalizing values d with
  | nil => exact h.resolve_right fun ⟨_, _, hmem, _⟩ => nomatch hmem
  | cons set sets ih =>
    cases values with
    | nil => exact h.resolve_right not_someClause_nil
    | cons value values =>
      have hhead := htype value List.mem_cons_self
      have hvalue := hvalues value List.mem_cons_self
      have htail : ∀ a ∈ values, a.Admits P := fun a ha =>
        hvalues a (List.mem_cons_of_mem _ ha)
      rw [someClause_cons] at h
      rw [unite_cons]
      split
      · next hset =>
        have htype' : ∀ a ∈ values, (d.union value).type = a.type := fun a ha =>
          (AbstractValue.type_union hhead).trans (htype a (List.mem_cons_of_mem _ ha))
        refine ih htype' htail (hd.union member.closed hvalue) ?_
        rcases h with h | ⟨-, h⟩ | h
        · exact .inl (AbstractValue.related_union member hhead hd hvalue (.inl h))
        · exact .inl (AbstractValue.related_union member hhead hd hvalue (.inr h))
        · exact .inr h
      · next hset =>
        refine ih (fun a ha => htype a (List.mem_cons_of_mem _ ha)) htail hd ?_
        rcases h with h | ⟨hs, -⟩ | h
        · exact .inl h
        · exact absurd hs hset
        · exact .inr h

theorem admits_unite (closed : Closed P) (sets : List BooleanSet) {values : List AbstractValue}
    {d : AbstractValue} (hvalues : ∀ a ∈ values, a.Admits P) (hd : d.Admits P) :
    (unite sets values d).Admits P := by
  induction sets generalizing values d with
  | nil => exact hd
  | cons set sets ih =>
    cases values with
    | nil => exact hd
    | cons value values =>
      rw [unite_cons]
      refine ih (fun a ha => hvalues a (List.mem_cons_of_mem _ ha)) ?_
      split
      · exact hd.union closed (hvalues value List.mem_cons_self)
      · exact hd

theorem admits_operate (closed : Closed P) (options : AnalysisOptions) (op : Operator)
    (leftSpan rightSpan : Text.Span) {a b : AbstractValue} (ha : a.Admits P) (hb : b.Admits P) :
    (operate options op leftSpan rightSpan a b).value.Admits P := by
  cases a <;> cases b <;> try trivial
  cases op with
  | comparison op => trivial
  | arithmetic op => exact closed.operation op ha hb

mutual

/-- Every computed description has a property that every description read has. -/
theorem admits_eval (closed : Closed P) {options : AnalysisOptions}
    {env : Environment AbstractValue} (henv : env.Each (·.Admits P)) :
    ∀ (e : Expr) {o : Outcome AbstractValue}, eval options env e = .ok o → o.value.Admits P
  | .number _ _, _, h => by
    obtain ⟨i, hi, rfl⟩ := eval_number_eq_ok.1 h
    exact closed.literal hi
  | .boolean _ _, _, h => by
    obtain rfl := Except.ok.inj h
    trivial
  | .source _ name, _, h => by
    obtain ⟨a, ha, rfl⟩ := require_eq_ok.1 h
    exact henv.sources name a ha
  | .variable _ name, _, h => by
    obtain ⟨a, ha, rfl⟩ := require_eq_ok.1 h
    exact henv.locals name a ha
  | .operate _ op left right, _, h => by
    obtain ⟨l, r, hl, hr, rfl⟩ := eval_operate_eq_ok.1 h
    exact admits_operate closed options op _ _ (admits_eval closed henv left hl)
      (admits_eval closed henv right hr)
  | .choose _ branches, _, h => by
    rcases eval_choose_eq_ok.1 h with ⟨ps, -, -, rfl⟩ | ⟨parts, hparts, rfl⟩
    · trivial
    · obtain ⟨hcs, hd⟩ := admits_parts closed henv branches hparts
      have hselects := hparts.selects
      change (parts.chosen branches).value.Admits P
      generalize parts.chosen branches = chosen at hselects
      cases hselects with
      | undefined => trivial
      | mismatch => trivial
      | united => exact admits_unite closed parts.sets hcs hd

theorem admits_parts (closed : Closed P) {options : AnalysisOptions}
    {env : Environment AbstractValue} (henv : env.Each (·.Admits P)) :
    ∀ (branches : Branches) {parts : Parts}, PartsOf options env branches parts →
      (∀ a ∈ parts.consequents.value, a.Admits P) ∧ parts.fallback.value.Admits P
  | .otherwise e, _, h => by
    obtain ⟨d, hd, rfl⟩ := h.of_otherwise
    exact ⟨nofun, admits_eval closed henv e hd⟩
  | .clause p c rest, _, h => by
    obtain ⟨v, set, w, tail, htail, rfl, -, -, hw⟩ := h.of_clause
    obtain ⟨hcs, hd⟩ := admits_parts closed henv rest htail
    refine ⟨fun a ha => ?_, hd⟩
    rcases List.mem_cons.1 ha with rfl | ha
    · exact admits_eval closed henv c hw
    · exact hcs a ha

end

/-- An operation that is evaluated keeps its result in what it makes of the intervals. -/
def Operates (options : AnalysisOptions) (P : Interval → Prop) (N : Interval → Number → Prop)
    (env : Environment AbstractValue) (env' : Environment Value) (e : Expr) : Prop :=
  ∀ span op left right, e = .operate span (.arithmetic op) left right →
    ∀ l r l' r', eval options env left = .ok l → eval options env right = .ok r →
      Concrete.eval env' left = .ok l' → Concrete.eval env' right = .ok r' →
      ∀ i j x y z, l.value = .interval i → r.value = .interval j → l'.value = .number x →
        r'.value = .number y → P i → P j → N i x → N j y → op.result? x y = some z →
        N (op.onIntervals i j) z

/-- Environments whose values are described, by descriptions that have the property. -/
abbrev Describes (P : Interval → Prop) (N : Interval → Number → Prop)
    (env : Environment AbstractValue) (env' : Environment Value) : Prop :=
  env.Agrees (fun a v => a.Admits P ∧ Related N a v) env'

theorem Describes.each {env : Environment AbstractValue} {env' : Environment Value}
    (h : Describes P N env env') : env.Each (·.Admits P) :=
  Environment.Agrees.each h fun _ _ => And.left

theorem related_operate (member : Membership P N) {options : AnalysisOptions} {op : Operator}
    {span leftSpan rightSpan : Text.Span} {a b : AbstractValue} {v w : Value}
    (ha : a.Admits P) (hb : b.Admits P) (hav : Related N a v) (hbw : Related N b w)
    (hop : ∀ f i j x y z, op = .arithmetic f → a = .interval i → b = .interval j →
      v = .number x → w = .number y → P i → P j → N i x → N j y → f.result? x y = some z →
      N (f.onIntervals i j) z) :
    Related N (operate options op leftSpan rightSpan a b).value
      (Concrete.operate span op leftSpan rightSpan v w).value := by
  cases hav with
  | unknown v => cases b <;> exact .unknown _
  | missing a => cases w <;> exact .missing _
  | boolean h => cases hbw <;> first | exact .unknown _ | exact .missing _
  | @number i x hi =>
    cases hbw with
    | unknown w => exact .unknown _
    | missing b => exact .missing _
    | boolean h => exact .unknown _
    | @number j y hj =>
      cases op with
      | comparison op => exact .boolean (member.verdict op ha hb hi hj)
      | arithmetic op =>
        change Related N (.interval (op.onIntervals i j))
          (Concrete.compute span (.arithmetic op) x y).value
        unfold Concrete.compute
        dsimp only
        split
        · next z hz => exact .number (hop op i j x y z rfl rfl rfl rfl rfl ha hb hi hj hz)
        · exact .missing _

mutual

/-- What is computed is related to its description, if all operations evaluated keep to that. -/
theorem related_eval (member : Membership P N) {options : AnalysisOptions}
    {env : Environment AbstractValue} {env' : Environment Value} (henv : Describes P N env env') :
    ∀ (e : Expr) {o : Outcome AbstractValue} {o' : Outcome Value},
      eval options env e = .ok o → Concrete.eval env' e = .ok o' →
      (∀ n, Concrete.Visits env' e n → Operates options P N env env' n) →
      Related N o.value o'.value
  | .number _ _, _, _, h, h', _ => by
    obtain ⟨i, hi, rfl⟩ := eval_number_eq_ok.1 h
    obtain rfl := Except.ok.inj h'
    exact .number (member.literal hi)
  | .boolean _ b, _, _, h, h', _ => by
    obtain rfl := Except.ok.inj h
    obtain rfl := Except.ok.inj h'
    cases b <;> exact .boolean rfl
  | .source _ name, _, _, h, h', _ => by
    obtain ⟨a, ha, rfl⟩ := require_eq_ok.1 h
    obtain ⟨v, hv, rfl⟩ := require_eq_ok.1 h'
    have hname := henv.sources name
    rw [ha, hv] at hname
    cases hname with
    | some h => exact h.2
  | .variable _ name, _, _, h, h', _ => by
    obtain ⟨a, ha, rfl⟩ := require_eq_ok.1 h
    obtain ⟨v, hv, rfl⟩ := require_eq_ok.1 h'
    have hname := henv.locals name
    rw [ha, hv] at hname
    cases hname with
    | some h => exact h.2
  | .operate span op left right, _, _, h, h', hvisits => by
    obtain ⟨l, r, hl, hr, rfl⟩ := eval_operate_eq_ok.1 h
    obtain ⟨l', r', hl', hr', rfl⟩ := Concrete.eval_operate_eq_ok.1 h'
    have hleft := related_eval member henv left hl hl' fun n hn => hvisits n (.left hn)
    have hright := related_eval member henv right hr hr' fun n hn => hvisits n (.right hn)
    refine related_operate member (admits_eval member.closed henv.each left hl)
      (admits_eval member.closed henv.each right hr) hleft hright ?_
    rintro f i j x y z rfl hi hj hx hy
    exact hvisits _ (.self _) span f left right rfl l r l' r' hl hr hl' hr' i j x y z hi hj hx hy
  | .choose _ branches, _, _, h, h', hvisits => by
    rcases eval_choose_eq_ok.1 h with ⟨ps, -, -, rfl⟩ | ⟨parts, hparts, rfl⟩
    · exact .unknown _
    · have hchosen := related_choose member henv branches hparts h' fun n hn =>
        hvisits n (.choose hn)
      obtain ⟨hcs, hd⟩ := admits_parts member.closed henv.each branches hparts
      have hselects := hparts.selects
      change Related N (parts.chosen branches).value _
      generalize parts.chosen branches = chosen at hselects
      cases hselects with
      | undefined => exact .unknown _
      | mismatch => exact .unknown _
      | united _ htype => exact related_unite member parts.sets htype hcs hd hchosen

/-- What is chosen is related to `otherwise` or to a clause that may apply. -/
theorem related_choose (member : Membership P N) {options : AnalysisOptions}
    {env : Environment AbstractValue} {env' : Environment Value} (henv : Describes P N env env') :
    ∀ (branches : Branches) {parts : Parts} {o' : Outcome Value},
      PartsOf options env branches parts → Concrete.choose env' branches = .ok o' →
      (∀ n, Concrete.VisitsBranches env' branches n → Operates options P N env env' n) →
      Related N parts.fallback.value o'.value ∨
        SomeClause (Related N · o'.value) parts.sets parts.consequents.value
  | .otherwise e, _, _, h, h', hvisits => by
    obtain ⟨d, hd, rfl⟩ := h.of_otherwise
    exact .inl (related_eval member henv e hd h' fun n hn => hvisits n (.otherwise hn))
  | .clause p c rest, _, _, h, h', hvisits => by
    obtain ⟨v, set, w, tail, htail, rfl, hv, hset, hw⟩ := h.of_clause
    obtain ⟨v', hv', hchooses⟩ := Concrete.choose_clause_eq_ok.1 h'
    have hp := related_eval member henv p hv hv' fun n hn => hvisits n (.predicate hn)
    change Related N tail.fallback.value _ ∨
      SomeClause (Related N · _) (set :: tail.sets) (w.value :: tail.consequents.value)
    rw [someClause_cons]
    rw [hset] at hp
    cases hchooses with
    | undefined => exact .inl (.missing _)
    | mismatch => exact .inl (.missing _)
    | @consequent w' holds hw' =>
      rw [holds] at hp
      cases hp with
      | boolean htrue =>
        have hc := related_eval member henv c hw hw' fun n hn =>
          hvisits n (.consequent hv' holds hn)
        exact .inr (.inl ⟨htrue, hc⟩)
    | @rest r fails hr =>
      have hrest := related_choose member henv rest htail hr fun n hn =>
        hvisits n (.rest hv' fails hn)
      exact hrest.imp id .inr

end

end Abstract

/-- Both runs reach the expression, in the same statement and among the given variables. -/
def Meets (options : AnalysisOptions) (env : Environment AbstractValue) (env' : Environment Value)
    (statements : List Statement) (there : Environment AbstractValue)
    (there' : Environment Value) (e : Expr) : Prop :=
  ∃ before s after, statements = before ++ s :: after ∧
    environmentAfter (Abstract.eval options) env before = .ok there ∧
    environmentAfter Concrete.eval env' before = .ok there' ∧
    Concrete.Visits there' s.body e

variable {P : Interval → Prop} {N : Interval → Number → Prop}

/-- A property that all descriptions at the start have is one that all computed ones have. -/
theorem keeps_admits (closed : Closed P) {options : AnalysisOptions} {statements : List Statement}
    {env : Environment AbstractValue} {env' : Environment Value} :
    Keeps (Abstract.eval options) Concrete.eval (fun a _ => a.Admits P) env env' statements :=
  fun _ s _ _ _ _ _ _ hthere _ _ hr _ =>
    Abstract.admits_eval closed (hthere.each fun _ _ => id) s.body hr

/-- Values and descriptions stay related, if all operations evaluated keep to that. -/
theorem keeps_related (member : Membership P N) {options : AnalysisOptions}
    {statements : List Statement} {env : Environment AbstractValue} {env' : Environment Value}
    (hoperates : ∀ there there' n, Meets options env env' statements there there' n →
      Abstract.Operates options P N there there' n) :
    Keeps (Abstract.eval options) Concrete.eval (fun a v => a.Admits P ∧ Related N a v) env env'
      statements := by
  intro before s after there there' hstatements hbefore hbefore' hthere r r' hr hr'
  refine ⟨Abstract.admits_eval member.closed (Abstract.Describes.each hthere) s.body hr, ?_⟩
  refine Abstract.related_eval member hthere s.body hr hr' fun n hn => ?_
  exact hoperates there there' n ⟨before, s, after, hstatements, hbefore, hbefore', hn⟩

/-- Two runs of a program have related sinks, if all operations evaluated keep to that. -/
theorem Program.related_sinks (member : Membership P N) {options : AnalysisOptions} {p : Program}
    {described : Bindings AbstractValue} {sources : Bindings Value}
    {e : Evaluation AbstractValue} {e' : Evaluation Value}
    (hsources : ∀ name, Option.Rel (fun a v => a.Admits P ∧ Related N a v)
      (described.get? name) (sources.get? name))
    (h : p.analyze described options = .ok e) (h' : p.interpret sources = .ok e')
    (hoperates : ∀ there there' n,
      Meets options (.start described) (.start sources) p.statements there there' n →
      Abstract.Operates options P N there there' n) :
    Bindings.Aligned (fun a v => a.Admits P ∧ Related N a v) e.sinks e'.sinks :=
  aligned_runFrom (Environment.agrees_start hsources) (Bindings.aligned_empty _)
    (keeps_related member hoperates) h h'

end RangeRules
