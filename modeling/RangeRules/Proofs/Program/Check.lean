import RangeRules.Program.Parse
import RangeRules.Proofs.Evaluation.Steps

/-!
# What the checks of a parse let through

Checking an expression never changes its tree. It asks that the expression has few enough levels,
that its numbers are finite and that its variables are declared, and each of these is a condition
on the expression as a whole. Checking statements adds that no sink has the name of an earlier one.
-/
namespace RangeRules

mutual

/-- The numbers are finite, and the variables are among the declared ones. -/
def Expr.Ready (declared : List String) : Expr → Prop
  | .number _ x => x.isFinite = true
  | .boolean .. | .source .. => True
  | .variable _ name => name ∈ declared
  | .operate _ _ l r => l.Ready declared ∧ r.Ready declared
  | .choose _ branches => branches.Ready declared

def Branches.Ready (declared : List String) : Branches → Prop
  | .otherwise e => e.Ready declared
  | .clause p c rest => p.Ready declared ∧ c.Ready declared ∧ rest.Ready declared

end

@[simp]
theorem Expr.ready_withSpan {declared : List String} {span : Text.Span} {e : Expr} :
    (e.withSpan span).Ready declared ↔ e.Ready declared := by
  cases e <;> rfl

mutual

/-- The tree of a term, whatever its levels, numbers and names. -/
def Term.tree : Term → Expr
  | .number span digits => .number span (Number.ofLiteral digits)
  | .boolean span value => .boolean span value
  | .source span name => .source span name
  | .variable span name => .variable span name
  | .group span inner => inner.tree.withSpan span
  | .operate op left right => .operate (.cover left.span right.span) op left.tree right.tree

def Phrase.tree : Phrase → Expr
  | .chain _ top => top.tree
  | .choose span branches => .choose span branches.tree

def PhraseBranches.tree : PhraseBranches → Branches
  | .otherwise value => .otherwise value.tree
  | .clause p c rest => .clause p.tree c.tree rest.tree

end

/-! ### What is checked -/

mutual

/-- The numbers and variables of a term, as the tokens that spell them. -/
def Term.atoms : Term → List Token
  | .number span digits => [⟨.number digits, span⟩]
  | .variable span name => [⟨.name name, span⟩]
  | .boolean .. | .source .. => []
  | .group _ inner => inner.atoms
  | .operate _ left right => left.atoms ++ right.atoms

def Phrase.atoms : Phrase → List Token
  | .chain _ top => top.atoms
  | .choose _ branches => branches.atoms

def PhraseBranches.atoms : PhraseBranches → List Token
  | .otherwise value => value.atoms
  | .clause p c rest => p.atoms ++ c.atoms ++ rest.atoms

end

/-- Nothing is wrong with a number or a variable. -/
def Scope.Takes (scope : Scope) (t : Token) : Prop :=
  match t.kind with
  | .number digits => (Number.ofLiteral digits).isFinite = true
  | .name name => name ∈ scope.declared
  | _ => True

variable {scope : Scope}

mutual

theorem Term.ready_tree : ∀ t : Term,
    t.tree.Ready scope.declared ↔ ∀ a ∈ t.atoms, scope.Takes a
  | .number .. | .variable .. => by simp [Term.tree, Expr.Ready, Term.atoms, Scope.Takes]
  | .boolean .. | .source .. => by simp [Term.tree, Expr.Ready, Term.atoms]
  | .group _ inner => by
    rw [Term.tree, Expr.ready_withSpan, Term.atoms]
    exact inner.ready_tree
  | .operate _ left right => by
    simp only [Term.tree, Expr.Ready, Term.atoms, left.ready_tree, right.ready_tree,
      List.forall_mem_append]

theorem Phrase.ready_tree : ∀ p : Phrase,
    p.tree.Ready scope.declared ↔ ∀ a ∈ p.atoms, scope.Takes a
  | .chain _ top => top.ready_tree
  | .choose _ branches => branches.ready_tree

theorem PhraseBranches.ready_tree : ∀ b : PhraseBranches,
    b.tree.Ready scope.declared ↔ ∀ a ∈ b.atoms, scope.Takes a
  | .otherwise value => value.ready_tree
  | .clause p c rest => by
    simp only [PhraseBranches.tree, Branches.Ready, PhraseBranches.atoms, p.ready_tree,
      c.ready_tree, rest.ready_tree, List.forall_mem_append, and_assoc]

end

/-! ### What a check finds -/

/-- The gauge after a part that went down to the level `depth`. -/
def Gauge.reach (g : Gauge) (depth : Nat) : Gauge := { g with deepest := max g.deepest depth }

theorem Gauge.reach_reach (g : Gauge) (depth depth' : Nat) :
    (g.reach depth).reach depth' = g.reach (max depth depth') := by
  unfold reach
  rw [Nat.max_assoc]

/-- What may be wrong with a part of some atoms that goes down to the level `depth`. -/
inductive Scope.Refuses (scope : Scope) (depth : Nat) (atoms : List Token) : Fault → Prop where
  /-- One level too many, however deep the part goes. -/
  | tooDeep (span : Text.Span) (deep : scope.limit < depth) :
    Refuses scope depth atoms ⟨.maxDepthExceeded (scope.limit + 1) scope.limit, span⟩
  | number {span : Text.Span} {digits : List Char} (mem : ⟨.number digits, span⟩ ∈ atoms)
    (infinite : (Number.ofLiteral digits).isFinite = false) :
    Refuses scope depth atoms ⟨.invalidNumber (String.ofList digits), span⟩
  | variable {span : Text.Span} {name : String} (mem : ⟨.name name, span⟩ ∈ atoms)
    (unassigned : name ∉ scope.declared) :
    Refuses scope depth atoms ⟨.unboundVariable name, span⟩

theorem Scope.Refuses.mono {depth depth' : Nat} {atoms atoms' : List Token} {f : Fault}
    (h : scope.Refuses depth atoms f) (hdepth : depth ≤ depth') (hatoms : atoms ⊆ atoms') :
    scope.Refuses depth' atoms' f := by
  cases h with
  | tooDeep span deep => exact .tooDeep span (Nat.lt_of_lt_of_le deep hdepth)
  | number mem infinite => exact .number (hatoms mem) infinite
  | «variable» mem unassigned => exact .variable (hatoms mem) unassigned

/-- The outcome of checking a part, from the gauge `g`, that should become `a`. -/
inductive Scope.Finds (scope : Scope) {α : Type} (a : α) (g : Gauge) (depth : Nat)
    (atoms : List Token) : Except Fault (α × Gauge) → Prop where
  | nothing (shallow : depth ≤ scope.limit) (taken : ∀ t ∈ atoms, scope.Takes t) :
    Finds scope a g depth atoms (.ok (a, g.reach depth))
  | fault {f : Fault} (refused : scope.Refuses depth atoms f) :
    Finds scope a g depth atoms (.error f)

namespace Scope

section Steps

variable {α β : Type} {a : α} {g : Gauge} {depth level base : Nat} {atoms : List Token}
  {span : Text.Span}

theorem Finds.map {x : Check α} (h : scope.Finds a g depth atoms (x g)) (f : α → β) :
    scope.Finds (f a) g depth atoms ((do return f (← x)) g) := by
  change scope.Finds (f a) g depth atoms (x g >>= fun r => .ok (f r.1, r.2))
  generalize x g = outcome at h ⊢
  cases h with
  | nothing shallow taken => exact .nothing shallow taken
  | fault refused => exact .fault refused

/-- Two parts are checked one after the other, the second only if nothing is wrong with the first. -/
theorem Finds.then {x : Check α} {next : α → Check β} {b : β} {depth' : Nat} {atoms' : List Token}
    (h : scope.Finds a g depth atoms (x g))
    (hnext : depth ≤ scope.limit →
      scope.Finds b (g.reach depth) depth' atoms' (next a (g.reach depth))) :
    scope.Finds b g (max depth depth') (atoms ++ atoms') ((x >>= next) g) := by
  change scope.Finds b g (max depth depth') (atoms ++ atoms') (x g >>= fun r => next r.1 r.2)
  generalize x g = outcome at h ⊢
  cases h with
  | fault refused =>
    exact .fault (refused.mono (Nat.le_max_left ..) (List.subset_append_left ..))
  | nothing shallow taken =>
    have hsecond := hnext shallow
    change scope.Finds b g (max depth depth') (atoms ++ atoms') (next a (g.reach depth))
    generalize next a (g.reach depth) = outcome at hsecond ⊢
    cases hsecond with
    | fault refused =>
      exact .fault (refused.mono (Nat.le_max_right ..) (List.subset_append_right ..))
    | nothing shallow' taken' =>
      rw [Gauge.reach_reach]
      refine .nothing (Nat.max_le.2 ⟨shallow, shallow'⟩) ?_
      exact List.forall_mem_append.2 ⟨taken, taken'⟩

theorem enter_of_le (span : Text.Span) (h : depth ≤ scope.limit) :
    scope.enter depth span g = .ok ((), g.reach depth) := by
  unfold enter
  rw [if_pos h]
  rfl

theorem enter_of_lt (span : Text.Span) (h : scope.limit < depth) :
    scope.enter depth span g = .error ⟨.maxDepthExceeded depth scope.limit, span⟩ := by
  unfold enter
  rw [if_neg (Nat.not_le.2 h)]
  rfl

/-- A level that is refused is the first one beyond the limit. -/
theorem finds_enter (h : depth ≤ scope.limit + 1) :
    scope.Finds () g depth [] (scope.enter depth span g) := by
  by_cases hdepth : depth ≤ scope.limit
  · rw [enter_of_le span hdepth]
    exact .nothing hdepth nofun
  · have heq : depth = scope.limit + 1 := by omega
    rw [enter_of_lt span (Nat.lt_of_not_le hdepth), heq]
    exact .tooDeep span (Nat.lt_succ_self _) |> .fault

theorem below_of_le {part : Check α} (h : g.level + 1 ≤ scope.limit) :
    scope.below span part g = part ⟨g.level + 1, max g.deepest (g.level + 1)⟩ >>= fun r =>
      .ok (r.1, ⟨g.level, r.2.deepest⟩) := by
  have hbelow : scope.below span part g = scope.enter (g.level + 1) span g >>= fun r =>
      part ⟨g.level + 1, r.2.deepest⟩ >>= fun r => .ok (r.1, ⟨g.level, r.2.deepest⟩) := rfl
  rw [hbelow, enter_of_le span h]
  rfl

theorem below_of_lt {part : Check α} (h : scope.limit < g.level + 1) :
    scope.below span part g = .error ⟨.maxDepthExceeded (g.level + 1) scope.limit, span⟩ := by
  have hbelow : scope.below span part g = scope.enter (g.level + 1) span g >>= fun r =>
      part ⟨g.level + 1, r.2.deepest⟩ >>= fun r => .ok (r.1, ⟨g.level, r.2.deepest⟩) := rfl
  rw [hbelow, enter_of_lt span h]
  rfl

/-- The level is back where it was after a part further down. -/
theorem finds_below {part : Check α} {deepest : Nat} (hlevel : level ≤ scope.limit)
    (hdepth : level < depth)
    (hpart : ∀ deepest, level + 1 ≤ deepest → level + 1 ≤ scope.limit →
      scope.Finds a ⟨level + 1, deepest⟩ depth atoms (part ⟨level + 1, deepest⟩)) :
    scope.Finds a ⟨level, deepest⟩ depth atoms (scope.below span part ⟨level, deepest⟩) := by
  by_cases h : level + 1 ≤ scope.limit
  · have hinner := hpart (max deepest (level + 1)) (Nat.le_max_right ..) h
    rw [below_of_le h]
    generalize part ⟨level + 1, max deepest (level + 1)⟩ = outcome at hinner ⊢
    cases hinner with
    | fault refused => exact .fault refused
    | nothing shallow taken =>
      have hreach : (⟨level, max (max deepest (level + 1)) depth⟩ : Gauge) =
          Gauge.reach ⟨level, deepest⟩ depth := by
        unfold Gauge.reach
        rw [Nat.max_assoc, Nat.max_eq_right hdepth]
      change scope.Finds a _ depth atoms (.ok (a, ⟨level, max (max deepest (level + 1)) depth⟩))
      rw [hreach]
      exact .nothing shallow taken
  · have heq : level + 1 = scope.limit + 1 := by omega
    rw [below_of_lt (Nat.lt_of_not_le h), heq]
    exact .fault (.tooDeep span (by omega))

/-- The deepest level so far is kept apart while an operand is measured. -/
theorem finds_operand {part : Check α} {deepest height : Nat} (hlevel : level ≤ scope.limit)
    (hheight : 0 < height)
    (hpart : ∀ deepest, level + 1 ≤ deepest → level + 1 ≤ scope.limit →
      scope.Finds a ⟨level + 1, deepest⟩ (level + height) atoms (part ⟨level + 1, deepest⟩)) :
    scope.Finds (a, height) ⟨level, deepest⟩ (level + height) atoms
      (scope.operand level span part ⟨level, deepest⟩) := by
  have hdepth : level < level + height := by omega
  have hbelow := @finds_below scope α a (level + height) level atoms span part level hlevel
    hdepth hpart
  change scope.Finds (a, height) ⟨level, deepest⟩ (level + height) atoms
    (scope.below span part ⟨level, level⟩ >>= fun r =>
      .ok ((r.1, r.2.deepest - level), ⟨r.2.level, max r.2.deepest deepest⟩))
  generalize scope.below span part ⟨level, level⟩ = outcome at hbelow ⊢
  cases hbelow with
  | fault refused => exact .fault refused
  | nothing shallow taken =>
    change scope.Finds (a, height) ⟨level, deepest⟩ (level + height) atoms
      (.ok ((a, max level (level + height) - level), ⟨level, max (max level (level + height)) deepest⟩))
    rw [Nat.max_eq_right (Nat.le_of_lt hdepth), Nat.max_comm, Nat.add_sub_cancel_left]
    exact .nothing shallow taken

/-- A part that goes no further down leaves the gauge as it is. -/
theorem finds_leaf {deepest : Nat} (hdeepest : depth ≤ deepest) (hlimit : depth ≤ scope.limit)
    (htaken : ∀ t ∈ atoms, scope.Takes t) :
    scope.Finds a ⟨level, deepest⟩ depth atoms (.ok (a, ⟨level, deepest⟩)) := by
  have hreach : Gauge.reach ⟨level, deepest⟩ depth = ⟨level, deepest⟩ := by
    unfold Gauge.reach
    rw [Nat.max_eq_left hdeepest]
  have h : scope.Finds a ⟨level, deepest⟩ depth atoms _ := .nothing hlimit htaken
  rwa [hreach] at h

end Steps

end Scope

open Scope

mutual

/-- The operands are measured as the term's levels say, and each operator with them. -/
theorem Term.finds {level deepest : Nat} (hlevel : level ≤ scope.limit) : ∀ t : Term,
    scope.Finds (t.tree, t.levels) ⟨level, deepest⟩ (level + t.levels) t.atoms
      (t.check scope level ⟨level, deepest⟩)
  | .number span digits => by
    rw [Term.check]
    refine finds_operand hlevel Nat.one_pos fun deepest hdeepest hlimit => ?_
    by_cases h : (Number.ofLiteral digits).isFinite = true
    · rw [if_pos h]
      exact finds_leaf hdeepest hlimit (List.forall_mem_singleton.2 h)
    · rw [if_neg h]
      exact .fault (.number (List.mem_singleton_self _) (Bool.eq_false_iff.2 h))
  | .boolean span value => by
    rw [Term.check]
    exact finds_operand hlevel Nat.one_pos fun deepest hdeepest hlimit =>
      finds_leaf hdeepest hlimit nofun
  | .source span name => by
    rw [Term.check]
    exact finds_operand hlevel Nat.one_pos fun deepest hdeepest hlimit =>
      finds_leaf hdeepest hlimit nofun
  | .variable span name => by
    rw [Term.check]
    refine finds_operand hlevel Nat.one_pos fun deepest hdeepest hlimit => ?_
    by_cases h : scope.declared.contains name = true
    · rw [if_pos h]
      exact finds_leaf hdeepest hlimit (List.forall_mem_singleton.2 (List.contains_iff_mem.1 h))
    · rw [if_neg h]
      refine .fault (.variable (List.mem_singleton_self _) fun hmem => h ?_)
      exact List.contains_iff_mem.2 hmem
  | .group span inner => by
    rw [Term.check]
    refine finds_operand hlevel (Nat.succ_pos _) fun deepest hdeepest hlimit => ?_
    have hinner := (@Phrase.finds (level + 1) deepest hlimit inner).map (Expr.withSpan span)
    rw [Nat.add_right_comm] at hinner
    exact hinner
  | .operate op left right => by
    rw [Term.check]
    have hdepth : max (level + left.levels) (max (level + right.levels)
        (level + (max left.levels right.levels + 1))) = level + (Term.operate op left right).levels := by
      simp only [Term.levels]
      omega
    have hatoms : left.atoms ++ (right.atoms ++ []) = (Term.operate op left right).atoms := by
      rw [List.append_nil, Term.atoms]
    rw [← hdepth, ← hatoms]
    refine (left.finds hlevel).then fun hl => ?_
    refine (right.finds hlevel).then fun hr => ?_
    have henter : level + (max left.levels right.levels + 1) ≤ scope.limit + 1 := by omega
    exact (finds_enter henter).map fun _ =>
      ((Term.operate op left right).tree, max left.levels right.levels + 1)

theorem Phrase.finds {level deepest : Nat} (hlevel : level ≤ scope.limit) : ∀ p : Phrase,
    scope.Finds p.tree ⟨level, deepest⟩ (level + p.levels) p.atoms
      (p.check scope ⟨level, deepest⟩)
  | .chain span top => by
    rw [Phrase.check]
    refine finds_below hlevel (by simp only [Phrase.levels]; omega) fun deepest hdeepest hlimit => ?_
    have htop := (@Term.finds (level + 1) deepest hlimit top).map Prod.fst
    rw [Nat.add_right_comm] at htop
    exact htop
  | .choose span branches => by
    rw [Phrase.check]
    refine finds_below hlevel (by simp only [Phrase.levels]; omega) fun deepest hdeepest hlimit => ?_
    have hbranches := (@PhraseBranches.finds (level + 1) deepest hlimit branches).map (Expr.choose span)
    rw [Nat.add_right_comm] at hbranches
    exact hbranches

theorem PhraseBranches.finds {level deepest : Nat} (hlevel : level ≤ scope.limit) :
    ∀ b : PhraseBranches, scope.Finds b.tree ⟨level, deepest⟩ (level + b.levels) b.atoms
      (b.check scope ⟨level, deepest⟩)
  | .otherwise value => by
    rw [PhraseBranches.check]
    exact (value.finds hlevel).map Branches.otherwise
  | .clause p c rest => by
    rw [PhraseBranches.check]
    have hdepth : max (level + p.levels) (max (level + c.levels) (level + rest.levels)) =
        level + (PhraseBranches.clause p c rest).levels := by
      simp only [PhraseBranches.levels]
      omega
    have hatoms : p.atoms ++ (c.atoms ++ rest.atoms) = (PhraseBranches.clause p c rest).atoms := by
      rw [PhraseBranches.atoms, List.append_assoc]
    rw [← hdepth, ← hatoms]
    refine (p.finds hlevel).then fun _ => ?_
    refine (c.finds hlevel).then fun _ => ?_
    exact (rest.finds hlevel).map (Branches.clause p.tree c.tree)

end

namespace WrittenStatement

/-- The statement that a written one becomes. -/
def tree (s : WrittenStatement) : Statement :=
  if s.isSink then .sink s.name s.body.tree else .variable s.name s.body.tree

/-- The variables assigned after the statement. -/
def declare (s : WrittenStatement) (declared : List String) : List String :=
  if s.isSink then declared else s.name :: declared

/-- The sinks assigned after the statement. -/
def fill (s : WrittenStatement) (sinks : List String) : List String :=
  if s.isSink then s.name :: sinks else sinks

/-- Nothing is wrong with the statement after others that assigned `declared` and `sinks`. -/
structure Passes (s : WrittenStatement) (limit : Nat) (declared sinks : List String) : Prop where
  levels_le : s.body.levels ≤ limit
  ready : s.body.tree.Ready declared
  fresh : s.isSink = true → s.name ∉ sinks

end WrittenStatement

/-- Nothing is wrong with any of some statements, after others. -/
def PassAll (limit : Nat) (declared sinks : List String) : List WrittenStatement → Prop
  | [] => True
  | s :: rest =>
    s.Passes limit declared sinks ∧ PassAll limit (s.declare declared) (s.fill sinks) rest

/-- The variables assigned after some statements. -/
def declareAll (declared : List String) (written : List WrittenStatement) : List String :=
  written.foldl (fun names s => s.declare names) declared

/-- The sinks assigned after some statements. -/
def fillAll (sinks : List String) (written : List WrittenStatement) : List String :=
  written.foldl (fun names s => s.fill names) sinks

/-- What may be wrong with a statement after others. -/
inductive WrittenStatement.Refused (s : WrittenStatement) (limit : Nat)
    (declared sinks : List String) : Fault → Prop where
  | body {f : Fault} (h : Scope.Refuses ⟨limit, declared⟩ s.body.levels s.body.atoms f) :
    Refused s limit declared sinks f
  | sink (isSink : s.isSink = true) (mem : s.name ∈ sinks) :
    Refused s limit declared sinks ⟨.duplicateSink s.name, s.span⟩

/-- A check of statements ends with their trees, or at the first one with something wrong. -/
inductive Judged (limit : Nat) (declared sinks : List String) (written : List WrittenStatement) :
    Except Fault (List Statement × Gauge) → Prop where
  | pass (all : PassAll limit declared sinks written) (g : Gauge) :
    Judged limit declared sinks written (.ok (written.map (·.tree), g))
  | fault {before after : List WrittenStatement} {s : WrittenStatement} {f : Fault}
    (split : written = before ++ s :: after) (all : PassAll limit declared sinks before)
    (refused : s.Refused limit (declareAll declared before) (fillAll sinks before) f) :
    Judged limit declared sinks written (.error f)

theorem Judged.cons {limit : Nat} {declared sinks : List String} {s : WrittenStatement}
    {rest : List WrittenStatement} {outcome : Except Fault (List Statement × Gauge)}
    (hs : s.Passes limit declared sinks)
    (h : Judged limit (s.declare declared) (s.fill sinks) rest outcome) :
    Judged limit declared sinks (s :: rest) (outcome >>= fun r => .ok (s.tree :: r.1, r.2)) := by
  cases h with
  | pass all g =>
    have hall : PassAll limit declared sinks (s :: rest) := ⟨hs, all⟩
    exact .pass hall g
  | @fault before after t f split all refused =>
    have hall : PassAll limit declared sinks (s :: before) := ⟨hs, all⟩
    have hsplit : s :: rest = (s :: before) ++ t :: after := congrArg (s :: ·) split
    exact .fault hsplit hall refused

theorem checkStatements_cons (limit : Nat) (declared sinks : List String) (s : WrittenStatement)
    (rest : List WrittenStatement) (g : Gauge) :
    checkStatements limit declared sinks (s :: rest) g =
      s.body.check ⟨limit, declared⟩ g >>= fun r =>
        if s.isSink = true ∧ s.name ∈ sinks then .error ⟨.duplicateSink s.name, s.span⟩
        else checkStatements limit (s.declare declared) (s.fill sinks) rest r.2 >>= fun r' =>
          .ok ((if s.isSink then .sink s.name r.1 else .variable s.name r.1) :: r'.1, r'.2) := by
  obtain ⟨isSink, name, span, body⟩ := s
  rw [checkStatements]
  change body.check ⟨limit, declared⟩ g >>= _ = _
  congr 1
  funext r
  cases isSink with
  | false => rfl
  | true =>
    dsimp only
    by_cases hmem : name ∈ sinks
    · rw [if_pos rfl, if_pos (List.contains_iff_mem.2 hmem), if_pos ⟨rfl, hmem⟩]
      rfl
    · rw [if_pos rfl, if_neg (mt List.contains_iff_mem.1 hmem), if_neg fun h => hmem h.2]
      rfl

/-- The levels of one statement are counted whatever earlier ones have reached. -/
theorem judged_checkStatements {limit : Nat} {declared sinks : List String} (deepest : Nat)
    (written : List WrittenStatement) : Judged limit declared sinks written
      (checkStatements limit declared sinks written ⟨0, deepest⟩) := by
  induction written generalizing declared sinks deepest with
  | nil =>
    have hall : PassAll limit declared sinks [] := trivial
    exact .pass hall ⟨0, deepest⟩
  | cons s rest ih =>
    have hnone : PassAll limit declared sinks [] := trivial
    have hbody := @Phrase.finds ⟨limit, declared⟩ 0 deepest (Nat.zero_le _) s.body
    rw [Nat.zero_add] at hbody
    rw [checkStatements_cons]
    generalize s.body.check ⟨limit, declared⟩ ⟨0, deepest⟩ = outcome at hbody ⊢
    cases hbody with
    | fault refused => exact .fault (List.nil_append _).symm hnone (.body refused)
    | nothing shallow taken =>
      change Judged limit declared sinks (s :: rest) (if _ then _ else _)
      split
      · next h => exact .fault (List.nil_append _).symm hnone (.sink h.1 h.2)
      · next h =>
        have hpasses : s.Passes limit declared sinks :=
          ⟨shallow, s.body.ready_tree.2 taken, fun hsink hmem => h ⟨hsink, hmem⟩⟩
        exact (ih (max deepest s.body.levels)).cons hpasses

/--
Each statement's body is ready after the statements before it, which have assigned the `declared`
variables, and each sink is other than the `sinks` that they have assigned.
-/
inductive Scoped : List String → List String → List Statement → Prop where
  | nil {declared sinks : List String} : Scoped declared sinks []
  | assign {declared sinks : List String} {name : String} {body : Expr} {rest : List Statement}
    (ready : body.Ready declared) (tail : Scoped (name :: declared) sinks rest) :
    Scoped declared sinks (.variable name body :: rest)
  | sink {declared sinks : List String} {name : String} {body : Expr} {rest : List Statement}
    (ready : body.Ready declared) (fresh : name ∉ sinks)
    (tail : Scoped declared (name :: sinks) rest) :
    Scoped declared sinks (.sink name body :: rest)

theorem PassAll.scoped {limit : Nat} {declared sinks : List String}
    {written : List WrittenStatement} (h : PassAll limit declared sinks written) :
    Scoped declared sinks (written.map (·.tree)) := by
  induction written generalizing declared sinks with
  | nil => exact .nil
  | cons s rest ih =>
    obtain ⟨hpasses, hrest⟩ := h
    obtain ⟨isSink, name, span, body⟩ := s
    cases isSink with
    | false => exact .assign hpasses.ready (ih hrest)
    | true => exact .sink hpasses.ready (hpasses.fresh rfl) (ih hrest)

theorem WrittenStatement.Refused.not_passes {s : WrittenStatement} {limit : Nat}
    {declared sinks : List String} {f : Fault} (h : s.Refused limit declared sinks f) :
    ¬ s.Passes limit declared sinks := by
  intro hpasses
  have htaken := (@Phrase.ready_tree ⟨limit, declared⟩ s.body).1 hpasses.ready
  cases h with
  | sink isSink mem => exact hpasses.fresh isSink mem
  | body h =>
    cases h with
    | tooDeep span deep => exact Nat.not_lt.2 hpasses.levels_le deep
    | number mem infinite => exact Bool.eq_false_iff.1 infinite (htaken _ mem)
    | «variable» mem unassigned => exact unassigned (htaken _ mem)

theorem passAll_append {limit : Nat} {declared sinks : List String}
    {before after : List WrittenStatement} : PassAll limit declared sinks (before ++ after) ↔
      PassAll limit declared sinks before ∧
        PassAll limit (declareAll declared before) (fillAll sinks before) after := by
  induction before generalizing declared sinks with
  | nil => exact ⟨fun h => ⟨trivial, h⟩, And.right⟩
  | cons s rest ih =>
    rw [List.cons_append, PassAll, PassAll, ih, and_assoc]
    rfl

namespace Program

/-- A text that is read is checked from its first statement on. -/
theorem judged_parseWithin {limit : Nat} {source : Text.Source} {written : List WrittenStatement}
    (hread : read source = .ok written) : ∃ outcome, Judged limit [] [] written outcome ∧
      parseWithin limit source = match outcome with
        | .error f => .error ⟨f.cause, source, f.span⟩
        | .ok (statements, _) => .ok ⟨source, statements⟩ := by
  refine ⟨_, judged_checkStatements 0 written, ?_⟩
  unfold parseWithin
  split
  · next h => exact nomatch hread.symm.trans h
  · next h =>
    obtain rfl := Except.ok.inj (hread.symm.trans h)
    rfl

theorem parseWithin_eq_ok {limit : Nat} {source : Text.Source} {p : Program} :
    parseWithin limit source = .ok p ↔ ∃ written, read source = .ok written ∧
      PassAll limit [] [] written ∧ p = ⟨source, written.map (·.tree)⟩ := by
  cases hread : read source with
  | error a =>
    unfold parseWithin
    rw [hread]
    exact ⟨nofun, nofun⟩
  | ok written =>
    obtain ⟨outcome, hjudged, hparse⟩ := @judged_parseWithin limit _ _ hread
    rw [hparse]
    cases hjudged with
    | pass all g =>
      constructor
      · intro h
        exact ⟨written, rfl, all, (Except.ok.inj h).symm⟩
      · rintro ⟨_, ⟨⟩, -, rfl⟩
        rfl
    | fault split all refused =>
      refine ⟨nofun, ?_⟩
      rintro ⟨_, ⟨⟩, hall, -⟩
      rw [split, passAll_append] at hall
      exact absurd hall.2.1 refused.not_passes

/-- A text that is read and refused has a first statement with something wrong. -/
theorem parseWithin_eq_error {limit : Nat} {source : Text.Source}
    {written : List WrittenStatement} {e : ParseError} (hread : read source = .ok written)
    (h : parseWithin limit source = .error e) : ∃ before s after f,
      written = before ++ s :: after ∧ PassAll limit [] [] before ∧
      s.Refused limit (declareAll [] before) (fillAll [] before) f ∧
      e = ⟨f.cause, source, f.span⟩ := by
  obtain ⟨outcome, hjudged, hparse⟩ := @judged_parseWithin limit _ _ hread
  rw [hparse] at h
  cases hjudged with
  | pass all g => exact nomatch h
  | fault split all refused => exact ⟨_, _, _, _, split, all, refused, (Except.error.inj h).symm⟩

/-- The statements of a parsed program are in scope of those before them. -/
theorem scoped_of_parseWithin {limit : Nat} {source : Text.Source} {p : Program}
    (h : parseWithin limit source = .ok p) : Scoped [] [] p.statements := by
  obtain ⟨written, -, hall, rfl⟩ := parseWithin_eq_ok.1 h
  exact hall.scoped

end Program

end RangeRules
