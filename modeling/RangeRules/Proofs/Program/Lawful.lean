import RangeRules.Proofs.Program.Depth

/-!
# The rules on numbers and names

The rules are conditions on the statements as a list: numbers are finite, a variable is read after a
statement that assigns it, sinks have names of their own. The checks that run along the statements
ask for no more and no less. Lists that keep the rules keep them together, if their sinks differ.
-/
namespace RangeRules

/-- The rules that some statements keep among themselves. -/
structure Lawful (written : List WrittenStatement) : Prop where
  finite : ∀ s ∈ written, ∀ digits span, ⟨.number digits, span⟩ ∈ s.body.atoms →
    (Number.ofLiteral digits).isFinite = true
  /-- A variable is assigned by a strictly earlier statement. -/
  assigned : ∀ before s after, written = before ++ s :: after →
    ∀ name span, ⟨.name name, span⟩ ∈ s.body.atoms → ∃ t ∈ before, t.isSink = false ∧ t.name = name
  /-- No two sinks share a name. -/
  distinct : written.Pairwise fun s t => s.isSink = true → t.isSink = true → s.name ≠ t.name

variable {written : List WrittenStatement} {name : String}

theorem mem_foldl_names {p : WrittenStatement → Bool} {names : List String} :
    name ∈ written.foldl (fun names s => if p s then s.name :: names else names) names ↔
      name ∈ names ∨ ∃ s ∈ written, p s = true ∧ s.name = name := by
  induction written generalizing names with
  | nil => simp
  | cons s rest ih =>
    rw [List.foldl_cons, ih]
    cases hs : p s with
    | true => simp only [hs, if_true, List.mem_cons, exists_eq_or_imp, true_and, @eq_comm _ name,
        or_assoc, @or_left_comm (s.name = name)]
    | false => simp only [hs, Bool.false_eq_true, if_false, List.mem_cons, exists_eq_or_imp,
        false_and, false_or]

theorem mem_declareAll {declared : List String} : name ∈ declareAll declared written ↔
    name ∈ declared ∨ ∃ s ∈ written, s.isSink = false ∧ s.name = name := by
  have hdeclare : (fun names s => WrittenStatement.declare s names) =
      fun names s => if !s.isSink then s.name :: names else names := by
    funext names s
    unfold WrittenStatement.declare
    cases s.isSink <;> rfl
  unfold declareAll
  rw [hdeclare, mem_foldl_names]
  simp only [Bool.not_eq_true']

theorem mem_fillAll {sinks : List String} : name ∈ fillAll sinks written ↔
    name ∈ sinks ∨ ∃ s ∈ written, s.isSink = true ∧ s.name = name :=
  mem_foldl_names

/-- Statements pass together if each passes after those before it. -/
theorem passAll_iff_split {limit : Nat} {declared sinks : List String} :
    PassAll limit declared sinks written ↔ ∀ before s after, written = before ++ s :: after →
      s.Passes limit (declareAll declared before) (fillAll sinks before) := by
  constructor
  · rintro h before s after rfl
    exact (passAll_append.1 h).2.1
  · intro h
    induction written generalizing declared sinks with
    | nil => trivial
    | cons s rest ih =>
      refine ⟨h [] s rest rfl, ih fun before t after hrest => ?_⟩
      exact h (s :: before) t after (congrArg (s :: ·) hrest)

theorem pairwise_of_split {R : WrittenStatement → WrittenStatement → Prop}
    (h : ∀ before s after, written = before ++ s :: after → ∀ t ∈ before, R t s) :
    written.Pairwise R := by
  induction written with
  | nil => exact .nil
  | cons s rest ih =>
    refine .cons (fun t ht => ?_) (ih fun before t after hrest u hu => ?_)
    · obtain ⟨before, after, rfl⟩ := List.append_of_mem ht
      exact h (s :: before) t after rfl s List.mem_cons_self
    · exact h (s :: before) t after (congrArg (s :: ·) hrest) u (List.mem_cons_of_mem _ hu)

/-- The checks pass if there is room for the levels and the rules are kept. -/
theorem passAll_iff_lawful {limit : Nat} : PassAll limit [] [] written ↔
    (∀ s ∈ written, s.body.levels ≤ limit) ∧ Lawful written := by
  constructor
  · intro h
    have hsplit := passAll_iff_split.1 h
    have htaken : ∀ before s after, written = before ++ s :: after →
        ∀ a ∈ s.body.atoms, Scope.Takes ⟨limit, declareAll [] before⟩ a := fun before s after hs =>
      (@Phrase.ready_tree ⟨limit, declareAll [] before⟩ s.body).1 (hsplit before s after hs).ready
    refine ⟨h.levels_le, fun s hs digits span ha => ?_, fun before s after hs name span ha => ?_,
      pairwise_of_split fun before s after hs t ht htsink hsink heq => ?_⟩
    · obtain ⟨before, after, hs⟩ := List.append_of_mem hs
      exact htaken before s after hs _ ha
    · have hname : name ∈ declareAll [] before := htaken before s after hs _ ha
      exact (mem_declareAll.1 hname).resolve_left List.not_mem_nil
    · exact (hsplit before s after hs).fresh hsink (mem_fillAll.2 (.inr ⟨t, ht, htsink, heq⟩))
  · rintro ⟨hlevels, hfinite, hassigned, hdistinct⟩
    refine passAll_iff_split.2 fun before s after hs => ?_
    have hmem : s ∈ written := by simp [hs]
    refine ⟨hlevels s hmem, ?_, fun hsink hfilled => ?_⟩
    · refine (@Phrase.ready_tree ⟨limit, declareAll [] before⟩ s.body).2 fun a ha => ?_
      obtain ⟨kind, span⟩ := a
      cases kind with
      | number digits => exact hfinite s hmem digits span ha
      | name name => exact mem_declareAll.2 (.inr (hassigned before s after hs name span ha))
      | _ => trivial
    · obtain ⟨t, ht, htsink, heq⟩ := (mem_fillAll.1 hfilled).resolve_left List.not_mem_nil
      rw [hs] at hdistinct
      exact (List.pairwise_append.1 hdistinct).2.2 t ht s List.mem_cons_self htsink hsink heq

/-- Statements that read no others keep the rules after any that have other sinks. -/
theorem Lawful.append {written' : List WrittenStatement} (h : Lawful written)
    (h' : Lawful written') (hdisjoint : ∀ s ∈ written, ∀ t ∈ written', s.isSink = true →
      t.isSink = true → s.name ≠ t.name) : Lawful (written ++ written') := by
  refine ⟨fun s hs => ?_, fun before s after hsplit name span ha => ?_,
    List.pairwise_append.2 ⟨h.distinct, h'.distinct, hdisjoint⟩⟩
  · exact (List.mem_append.1 hs).elim (h.finite s) (h'.finite s)
  · obtain ⟨others, rfl, hafter⟩ | ⟨others, rfl, hbefore⟩ := List.append_eq_append_iff.1 hsplit
    · obtain ⟨t, ht, hname⟩ := h'.assigned others s after hafter name span ha
      exact ⟨t, List.mem_append_right _ ht, hname⟩
    · cases others with
      | nil =>
        obtain ⟨t, ht, -⟩ := h'.assigned [] s after hbefore.symm name span ha
        exact nomatch ht
      | cons t others =>
        obtain ⟨rfl, -⟩ := List.cons.inj hbefore
        exact h.assigned before s others rfl name span ha

end RangeRules
