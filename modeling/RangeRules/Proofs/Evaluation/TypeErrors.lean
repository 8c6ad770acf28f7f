import RangeRules.Proofs.Evaluation.Parallel

/-!
# Errors do not depend on ranges

An analysis decides by ranges which clauses may apply, but never by ranges what it looks at: the
consequents of all clauses are evaluated, and an operand is refused for its type. Descriptions of
the sources that differ in their bounds or members only therefore lead to the same errors, in the
same order, and to sinks of the same types. The options add no error either.
-/
namespace RangeRules

/-- The errors among the diagnostics of a run. -/
def Evaluation.errors {V : Type} (source : Text.Source) (e : Evaluation V) : List Diagnostic :=
  (e.diagnostics source).filter Diagnostic.isError

theorem Evaluation.errors_eq {V : Type} (source : Text.Source) (e : Evaluation V) :
    e.errors source =
      (inView (·.severity = .error) e.findings).map (Finding.diagnostic source) := by
  unfold Evaluation.errors Evaluation.diagnostics inView
  rw [List.filter_map]
  rfl

namespace Abstract

/-- An operator finds no error in intervals, and the type of what it makes of them is its own. -/
theorem alike_types (options options' : AnalysisOptions) (op : Operator) (span : Text.Span)
    (i i' j j' : Interval) :
    Alike (fun a b : AbstractValue => a.type = b.type) (·.severity = .error)
      (compute options op span i j) (compute options' op span i' j') := by
  cases op with
  | comparison op => exact ⟨rfl, rfl⟩
  | arithmetic op =>
    refine ⟨rfl, ?_⟩
    -- a divisor that may be zero is no error, so neither list has one
    unfold compute
    dsimp only
    split <;> split <;> rfl

/-- A clause changes the type of a union as little as its bounds do. -/
theorem type_clause {s s' : BooleanSet} {d d' a a' : AbstractValue} (hd : d.type = d'.type)
    (ha : a.type = a'.type) (htype : d.type = a.type) :
    (if s.contains true then d.union a else d).type =
      (if s'.contains true then d'.union a' else d').type := by
  have hunion := AbstractValue.type_union htype
  have hunion' : (d'.union a').type = d'.type :=
    AbstractValue.type_union (hd.symm.trans (htype.trans ha))
  split <;> split
  · rw [hunion, hunion', hd]
  · rw [hunion, hd]
  · rw [hunion', hd]
  · exact hd

theorem congruence_types (options options' : AnalysisOptions) :
    Congruence options options' (fun a b => a.type = b.type) (·.severity = .error) where
  type_eq h := h
  undefined := rfl
  literal _ := rfl
  singleton _ := rfl
  compute op span {i i' j j'} _ _ := alike_types options options' op span i i' j j'
  clause _ := type_clause
  warnings branches _ _ _ := by
    rw [warnings_not_errors, warnings_not_errors]

end Abstract

/-- The same names, and under each two descriptions of one type. -/
def Bindings.SameTypes (described described' : Bindings AbstractValue) : Prop :=
  ∀ name, Option.Rel (fun a b => a.type = b.type) (described.get? name) (described'.get? name)

/--
Whatever the ranges of the sources and the options, the analysis breaks the contract alike, or
succeeds with sinks of the same types and with the same errors.
-/
theorem Program.errors_of_sameTypes {p : Program} {options options' : AnalysisOptions}
    {described described' : Bindings AbstractValue} (h : described.SameTypes described') :
    Corresponds (fun e e' => Bindings.Aligned (fun a b => a.type = b.type) e.sinks e'.sinks ∧
        e.errors p.source = e'.errors p.source)
      (p.analyze described options) (p.analyze described' options') := by
  have hcorresponds :=
    Program.corresponds_analyze (Abstract.congruence_types options options') p h
  generalize p.analyze described options = run, p.analyze described' options' = run'
    at hcorresponds ⊢
  cases hcorresponds with
  | broken c => exact .broken c
  | done h =>
    refine .done ⟨h.1, ?_⟩
    rw [Evaluation.errors_eq, Evaluation.errors_eq, h.2]

namespace TypeErrors

/-- `z: when this.x < 1 this.b + 1 otherwise 8 / this.x` -/
def guarded : Program :=
  ⟨"z: when this.x < 1 this.b + 1 otherwise 8 / this.x".toList, [.sink "z" (.choose ⟨3, 50⟩
    (.clause (.operate ⟨8, 18⟩ (.comparison .lt) (.source ⟨8, 14⟩ "x") (.number ⟨17, 18⟩ 1.0))
      (.operate ⟨19, 29⟩ (.arithmetic .add) (.source ⟨19, 25⟩ "b") (.number ⟨28, 29⟩ 1.0))
      (.otherwise (.operate ⟨40, 50⟩ (.arithmetic .div) (.number ⟨40, 41⟩ 8.0)
        (.source ⟨44, 50⟩ "x")))))]⟩

/-- A range that the guard shuts out, and one that it does not. -/
def above : Bindings AbstractValue := ⟨[("x", .interval ⟨2.0, 4.0⟩), ("b", .boolean .onlyTrue)]⟩

def around : Bindings AbstractValue := ⟨[("x", .interval ⟨-1.0, 4.0⟩), ("b", .boolean .both)]⟩

theorem sameTypes_above : above.SameTypes around :=
  Bindings.Aligned.get? (.cons ⟨rfl, rfl⟩ (.cons ⟨rfl, rfl⟩ .nil))

end TypeErrors

/-- The clause that never applies has the one error, with either range. -/
theorem Program.errors_of_sameTypes_guarded :
    ∃ e e', TypeErrors.guarded.analyze TypeErrors.above .plain = .ok e ∧
      TypeErrors.guarded.analyze TypeErrors.around ⟨true, true⟩ = .ok e' ∧
      (e.diagnostics TypeErrors.guarded.source).map (·.code) = ["W001", "T003"] ∧
      (e'.diagnostics TypeErrors.guarded.source).map (·.code) = ["T003", "I001"] ∧
      e.errors TypeErrors.guarded.source = e'.errors TypeErrors.guarded.source := by
  refine ⟨_, _, rfl, rfl, rfl, rfl, ?_⟩
  have h := @Program.errors_of_sameTypes TypeErrors.guarded .plain ⟨true, true⟩ _ _
    TypeErrors.sameTypes_above
  exact (h.exists_ok.2 _ _ rfl rfl).2

end RangeRules
