import RangeRules.Proofs.Evaluation.Reach

/-!
# The trace of a run

What a run on values evaluates, as a list: every expression that is reached, with the environment it
is evaluated in. A condition on all intermediate results of one given run, such as that none of them
is infinite, is decided by looking through the list.
-/
namespace RangeRules

namespace Concrete

mutual

/-- The expressions that are visited in evaluating one, itself first. -/
def visited (env : Environment Value) : Expr → List Expr
  | .operate span op l r => .operate span op l r :: (visited env l ++ visited env r)
  | .choose span b => .choose span b :: visitedBranches env b
  | .number span x => [.number span x]
  | .boolean span b => [.boolean span b]
  | .source span name => [.source span name]
  | .variable span name => [.variable span name]

/-- The expressions that are visited in choosing among branches. -/
def visitedBranches (env : Environment Value) : Branches → List Expr
  | .otherwise e => visited env e
  | .clause p c rest => visited env p ++
    match eval env p with
    | .ok ⟨.boolean true, _⟩ => visited env c
    | .ok ⟨.boolean false, _⟩ => visitedBranches env rest
    | _ => []

end

variable {env : Environment Value}

mutual

theorem mem_visited : ∀ {e n : Expr}, n ∈ visited env e ↔ Visits env e n
  | .number .., n | .boolean .., n | .source .., n | .variable .., n => by
    rw [visited, List.mem_singleton]
    constructor
    · rintro rfl
      exact .self _
    · intro h
      cases h
      rfl
  | .operate span op l r, n => by
    rw [visited, List.mem_cons, List.mem_append, mem_visited, mem_visited]
    constructor
    · rintro (rfl | h | h)
      · exact .self _
      · exact .left h
      · exact .right h
    · intro h
      cases h with
      | self => exact .inl rfl
      | left h => exact .inr (.inl h)
      | right h => exact .inr (.inr h)
  | .choose span b, n => by
    rw [visited, List.mem_cons, mem_visitedBranches]
    constructor
    · rintro (rfl | h)
      · exact .self _
      · exact .choose h
    · intro h
      cases h with
      | self => exact .inl rfl
      | choose h => exact .inr h

theorem mem_visitedBranches : ∀ {b : Branches} {n : Expr},
    n ∈ visitedBranches env b ↔ VisitsBranches env b n
  | .otherwise e, n => by
    rw [visitedBranches, mem_visited]
    constructor
    · exact .otherwise
    · intro h
      cases h with
      | otherwise h => exact h
  | .clause p c rest, n => by
    rw [visitedBranches, List.mem_append, mem_visited]
    constructor
    · rintro (h | h)
      · exact .predicate h
      · split at h
        · next hp => exact .consequent hp rfl (mem_visited.1 h)
        · next hp => exact .rest hp rfl (mem_visitedBranches.1 h)
        · exact nomatch h
    · intro h
      cases h with
      | predicate h => exact .inl h
      | @consequent _ _ _ _ o ok holds h =>
        obtain ⟨v, findings⟩ := o
        obtain rfl : v = .boolean true := holds
        rw [ok]
        exact .inr (mem_visited.2 h)
      | @rest _ _ _ _ o ok fails h =>
        obtain ⟨v, findings⟩ := o
        obtain rfl : v = .boolean false := fails
        rw [ok]
        exact .inr (mem_visitedBranches.2 h)

end

/-- What a run of statements evaluates, each expression with its environment. -/
def trace (env : Environment Value) : List Statement → List (Environment Value × Expr)
  | [] => []
  | s :: rest => (visited env s.body).map (env, ·) ++
    match eval env s.body with
    | .ok r => trace (s.update env r.value) rest
    | .error _ => []

theorem mem_trace {statements : List Statement} {there : Environment Value} {e : Expr} :
    (there, e) ∈ trace env statements ↔ Reaches env statements there e := by
  induction statements generalizing env with
  | nil =>
    refine ⟨nofun, ?_⟩
    rintro ⟨before, s, after, hstatements, -⟩
    exact absurd hstatements (List.append_ne_nil_of_right_ne_nil _ (List.cons_ne_nil _ _)).symm
  | cons s rest ih =>
    rw [trace, List.mem_append]
    constructor
    · rintro (h | h)
      · obtain ⟨n, hn, heq⟩ := List.mem_map.1 h
        obtain ⟨rfl, rfl⟩ := Prod.mk.inj heq
        exact ⟨[], s, rest, rfl, rfl, mem_visited.1 hn⟩
      · split at h
        · next r hr =>
          obtain ⟨before, t, after, rfl, hthere, hvisits⟩ := ih.1 h
          exact ⟨s :: before, t, after, rfl, environmentAfter_cons_eq_ok.2 ⟨r, hr, hthere⟩, hvisits⟩
        · exact nomatch h
    · rintro ⟨before, t, after, hstatements, hthere, hvisits⟩
      cases before with
      | nil =>
        obtain ⟨rfl, rfl⟩ := List.cons.inj hstatements
        obtain rfl := Except.ok.inj hthere
        exact .inl (List.mem_map.2 ⟨e, mem_visited.2 hvisits, rfl⟩)
      | cons t' before =>
        obtain ⟨rfl, rfl⟩ := List.cons.inj hstatements
        obtain ⟨r, hr, hthere⟩ := environmentAfter_cons_eq_ok.1 hthere
        rw [hr]
        exact .inr (ih.2 ⟨before, t, after, rfl, hthere, hvisits⟩)

/-- Every number that the operation computes, if the expression is one, has the property. -/
def computes (property : Number → Bool) (env : Environment Value) : Expr → Bool
  | .operate span (.arithmetic op) l r =>
    match eval env (.operate span (.arithmetic op) l r) with
    | .ok ⟨.number x, _⟩ => property x
    | _ => true
  | _ => true

theorem computes_arithmetic {property : Number → Bool} {span : Text.Span} {op : Arithmetic}
    {l r : Expr} : computes property env (.operate span (.arithmetic op) l r) = true ↔
      ∀ o x, eval env (.operate span (.arithmetic op) l r) = .ok o → o.value = .number x →
        property x = true := by
  rw [computes]
  constructor
  · rintro h ⟨v, findings⟩ x ho hx
    obtain rfl : v = .number x := hx
    simpa only [ho] using h
  · intro h
    split
    · next x _ ho => exact h _ x ho rfl
    · rfl

/-- A property of all that a run computes holds of each entry of the trace. -/
theorem all_trace {property : Number → Bool} {statements : List Statement} :
    ((trace env statements).all fun entry => computes property entry.1 entry.2) = true ↔
      ∀ there span op left right,
        Reaches env statements there (.operate span (.arithmetic op) left right) →
        ∀ o x, eval there (.operate span (.arithmetic op) left right) = .ok o →
          o.value = .number x → property x = true := by
  rw [List.all_eq_true]
  constructor
  · intro h there span op left right hreaches
    exact computes_arithmetic.1 (h _ (mem_trace.2 hreaches))
  · rintro h ⟨there, e⟩ hentry
    cases e with
    | operate span op left right =>
      cases op with
      | arithmetic op =>
        exact computes_arithmetic.2 (h there span op left right (mem_trace.1 hentry))
      | _ => rfl
    | _ => rfl

end Concrete

instance (p : Program) (sources : Bindings Value) : Decidable (p.NaNFree sources) :=
  decidable_of_iff
    (((Concrete.trace (.start sources) p.statements).all fun entry =>
      Concrete.computes (!·.isNaN) entry.1 entry.2) = true)
    (by simp only [Concrete.all_trace, Program.NaNFree, Program.Reaches, Bool.not_eq_true'])

end RangeRules
