import RangeRules.Proofs.Program.Check

/-!
# The limit on levels is exact

Whether a text is too deep depends on the levels of its expressions as written, and on nothing else:
not on the statements before, nor on how groups, chains and `when` expressions stand in each other.
A limit that some expression exceeds is reported with the first level beyond it. The levels bound
the height of the tree, which is how deep its evaluation nests.
-/
namespace RangeRules

mutual

/-- How many nodes there are on the longest way down. -/
def Expr.height : Expr → Nat
  | .number .. | .boolean .. | .variable .. | .source .. => 1
  | .operate _ _ l r => max l.height r.height + 1
  | .choose _ branches => branches.height + 1

def Branches.height : Branches → Nat
  | .otherwise e => e.height
  | .clause p c rest => max (max p.height c.height) rest.height

end

@[simp]
theorem Expr.height_withSpan (span : Text.Span) (e : Expr) : (e.withSpan span).height = e.height := by
  cases e <;> rfl

mutual

/-- Parentheses and chains are levels without a node of their own. -/
theorem Term.height_tree_le : ∀ t : Term, t.tree.height ≤ t.levels
  | .number .. | .boolean .. | .source .. | .variable .. => Nat.le_refl 1
  | .group _ inner => by
    have h := inner.height_tree_le
    simp only [Term.tree, Expr.height_withSpan, Term.levels]
    omega
  | .operate _ left right => by
    have hl := left.height_tree_le
    have hr := right.height_tree_le
    simp only [Term.tree, Expr.height, Term.levels]
    omega

theorem Phrase.height_tree_le : ∀ p : Phrase, p.tree.height ≤ p.levels
  | .chain _ top => Nat.le_succ_of_le top.height_tree_le
  | .choose _ branches => Nat.succ_le_succ branches.height_tree_le

theorem PhraseBranches.height_tree_le : ∀ b : PhraseBranches, b.tree.height ≤ b.levels
  | .otherwise value => value.height_tree_le
  | .clause p c rest => by
    have hp := p.height_tree_le
    have hc := c.height_tree_le
    have hrest := rest.height_tree_le
    simp only [PhraseBranches.tree, Branches.height, PhraseBranches.levels]
    omega

end

@[simp]
theorem WrittenStatement.body_tree (s : WrittenStatement) : s.tree.body = s.body.tree := by
  unfold tree
  split <;> rfl

variable {limit m : Nat} {declared sinks : List String} {written : List WrittenStatement}

theorem PassAll.levels_le (h : PassAll limit declared sinks written) :
    ∀ s ∈ written, s.body.levels ≤ limit := by
  induction written generalizing declared sinks with
  | nil => exact nofun
  | cons s rest ih => exact List.forall_mem_cons.2 ⟨h.1.levels_le, ih h.2⟩

/-- Statements that pass under one limit pass under any that leaves room for their levels. -/
theorem PassAll.of_levels_le (h : PassAll limit declared sinks written)
    (hlevels : ∀ s ∈ written, s.body.levels ≤ m) : PassAll m declared sinks written := by
  induction written generalizing declared sinks with
  | nil => trivial
  | cons s rest ih =>
    obtain ⟨hs, hrest⟩ := h
    obtain ⟨hm, hlevels⟩ := List.forall_mem_cons.1 hlevels
    exact ⟨⟨hm, hs.ready, hs.fresh⟩, ih hrest hlevels⟩

/-- What passes under one limit is refused under another for its levels only. -/
theorem WrittenStatement.Passes.tooDeep {s : WrittenStatement} {f : Fault}
    (h : s.Passes limit declared sinks) (hf : s.Refused m declared sinks f) :
    f.cause = .maxDepthExceeded (m + 1) m := by
  have htaken := (@Phrase.ready_tree ⟨limit, declared⟩ s.body).1 h.ready
  cases hf with
  | sink isSink mem => exact absurd mem (h.fresh isSink)
  | body hf =>
    cases hf with
    | tooDeep span deep => rfl
    | number mem infinite => exact absurd (htaken _ mem) (Bool.eq_false_iff.1 infinite)
    | «variable» mem unassigned => exact absurd (htaken _ mem) unassigned

/--
A text that is accepted under some limit is accepted under those that leave room for the levels of
every statement, with the same statements, and is too deep by one level under all others. No
statement that is accepted is higher than the limit.
-/
theorem Program.parseWithin_of_accepted {source : Text.Source} {p : Program}
    (h : parseWithin limit source = .ok p) :
    (∃ written, read source = .ok written ∧ ∀ m,
      ((∀ s ∈ written, s.body.levels ≤ m) → parseWithin m source = .ok p) ∧
      ((∃ s ∈ written, m < s.body.levels) → ∃ span,
        parseWithin m source = .error ⟨.maxDepthExceeded (m + 1) m, source, span⟩)) ∧
      ∀ s ∈ p.statements, s.body.height ≤ limit := by
  obtain ⟨written, hread, hall, rfl⟩ := parseWithin_eq_ok.1 h
  refine ⟨⟨written, hread, fun m => ⟨fun hlevels => ?_, fun hdeep => ?_⟩⟩, fun s hs => ?_⟩
  · exact parseWithin_eq_ok.2 ⟨written, hread, hall.of_levels_le hlevels, rfl⟩
  · cases hparse : parseWithin m source with
    | ok p' =>
      obtain ⟨written', hread', hall', -⟩ := parseWithin_eq_ok.1 hparse
      obtain rfl := Except.ok.inj (hread.symm.trans hread')
      obtain ⟨s, hs, hlt⟩ := hdeep
      exact absurd (hall'.levels_le s hs) (Nat.not_le.2 hlt)
    | error e =>
      obtain ⟨before, s, after, f, rfl, -, hrefused, rfl⟩ := parseWithin_eq_error hread hparse
      have hs := (passAll_append.1 hall).2.1
      exact ⟨f.span, by rw [hs.tooDeep hrefused]⟩
  · obtain ⟨s, hmem, rfl⟩ := List.mem_map.1 hs
    rw [s.body_tree]
    exact Nat.le_trans s.body.height_tree_le (hall.levels_le s hmem)

namespace Depth

/-- A group in a product in a comparison in a `when`, after a statement with fewer levels. -/
def nested : Text.Source := "a = 1 z: when (a + 2) * 3 < 4 5 otherwise ((6))".toList

end Depth

theorem Program.parseWithin_of_accepted_nested :
    ∃ p, Program.parseWithin 300 Depth.nested = .ok p ∧
      Program.parseWithin 8 Depth.nested = .ok p ∧
      ∃ span, Program.parseWithin 7 Depth.nested =
        .error ⟨.maxDepthExceeded 8 7, Depth.nested, span⟩ := by
  have hparse : (Program.parseWithin 300 Depth.nested).toOption.isSome = true := by
    decide +kernel
  have hlevels : (Program.read Depth.nested).toOption.map (·.map (·.body.levels)) =
      some [2, 8] := by
    decide +kernel
  obtain ⟨p, hp⟩ := Option.isSome_iff_exists.1 hparse
  obtain ⟨⟨written, hwritten, hlimits⟩, -⟩ := Program.parseWithin_of_accepted (ok_of_toOption hp)
  rw [hwritten] at hlevels
  have hlevels : written.map (·.body.levels) = [2, 8] := Option.some.inj hlevels
  refine ⟨p, ok_of_toOption hp, (hlimits 8).1 fun s hs => ?_, (hlimits 7).2 ?_⟩
  · have hmem : s.body.levels ∈ written.map (·.body.levels) := List.mem_map_of_mem hs
    rw [hlevels] at hmem
    simp only [List.mem_cons, List.not_mem_nil, or_false] at hmem
    omega
  · have hmem : 8 ∈ written.map (·.body.levels) := by rw [hlevels]; simp
    obtain ⟨s, hs, heq⟩ := List.mem_map.1 hmem
    exact ⟨s, hs, by omega⟩

end RangeRules
