import RangeRules.Proofs.Evaluation.Origin
import RangeRules.Proofs.Evaluation.Parallel

/-!
# Options only add diagnostics

What the options of an analysis ask for is reported beside the rest, in the places where it arises,
and decides nothing. Without it, an analysis with any options is the plain one: the same breach of
contract, or the same sinks and the same diagnostics in the same order.
-/
namespace RangeRules

/-- The problem is reported on request only. -/
def Problem.isOptional : Problem → Bool
  | .precisionLoss | .unreachableOtherwise => true
  | _ => false

/-- If the problem is reported on request only, it is asked for. -/
def AnalysisOptions.Allows (options : AnalysisOptions) : Problem → Prop
  | .precisionLoss => options.precisionLoss = true
  | .unreachableOtherwise => options.unreachableOtherwise = true
  | _ => True

@[simp]
theorem Problem.code_eq_precisionLoss {problem : Problem} :
    problem.code = "I001" ↔ problem = .precisionLoss := by
  cases problem <;> simp [Problem.code]

@[simp]
theorem Problem.code_eq_unreachableOtherwise {problem : Problem} :
    problem.code = "W002" ↔ problem = .unreachableOtherwise := by
  cases problem <;> simp [Problem.code]

theorem AnalysisOptions.Allows.asked {options : AnalysisOptions} {problem : Problem}
    (h : options.Allows problem) : (problem.code = "I001" → options.precisionLoss = true) ∧
      (problem.code = "W002" → options.unreachableOtherwise = true) := by
  refine ⟨fun hcode => ?_, fun hcode => ?_⟩
  · obtain rfl := Problem.code_eq_precisionLoss.1 hcode
    exact h
  · obtain rfl := Problem.code_eq_unreachableOtherwise.1 hcode
    exact h

theorem AnalysisOptions.Allows.not_isOptional {problem : Problem} (h : plain.Allows problem) :
    problem.isOptional = false := by
  cases problem with
  | precisionLoss => exact nomatch h
  | unreachableOtherwise => exact nomatch h
  | _ => rfl

/-- The diagnostics of a run without those that are reported on request only. -/
def Evaluation.unasked {V : Type} (source : Text.Source) (e : Evaluation V) : List Diagnostic :=
  (e.diagnostics source).filter fun d => d.code ≠ "I001" ∧ d.code ≠ "W002"

theorem Evaluation.unasked_eq {V : Type} (source : Text.Source) (e : Evaluation V) :
    e.unasked source = (inView (!·.isOptional) e.findings).map (Finding.diagnostic source) := by
  have hcode : ∀ problem : Problem,
      decide (problem.code ≠ "I001" ∧ problem.code ≠ "W002") = !problem.isOptional := by
    intro problem
    cases problem <;> simp [Problem.isOptional]
  unfold Evaluation.unasked Evaluation.diagnostics inView
  rw [List.filter_map]
  exact congrArg _ (List.filter_congr fun f _ => hcode f.problem)

theorem Bindings.Aligned.eq {V : Type} {b c : Bindings V} (h : Aligned (· = ·) b c) : b = c := by
  have hentries : b.entries = c.entries :=
    List.forall₂_eq_eq_eq ▸ h.imp fun _ _ hxy => Prod.ext hxy.1 hxy.2
  cases b
  cases c
  exact congrArg Bindings.mk hentries

namespace Abstract

variable {options : AnalysisOptions} {env : Environment AbstractValue} {f : Finding}

/-! ### What is not asked for is not found -/

theorem allows_operate {op : Operator} {leftSpan rightSpan : Text.Span} {a b : AbstractValue}
    (hf : f ∈ (operate options op leftSpan rightSpan a b).findings) : options.Allows f.problem := by
  have hcompute : ∀ i j, f ∈ (compute options op rightSpan i j).findings →
      options.Allows f.problem := by
    intro i j hf
    unfold compute at hf
    cases op with
    | comparison op => exact nomatch hf
    | arithmetic op =>
      dsimp only at hf
      split at hf
      · next hloss =>
        obtain rfl := List.mem_singleton.1 hf
        exact (Bool.and_eq_true_iff.1 (Bool.and_eq_true_iff.1 hloss).1).1
      · exact nomatch hf
  rcases a with i | s | _ <;> rcases b with j | t | _
  · exact hcompute i j hf
  all_goals
    first
    | obtain rfl := List.mem_singleton.1 hf
      exact trivial
    | exact absurd hf List.not_mem_nil

/-- What a node adds to the findings of its parts is asked for. -/
theorem Arises.allows {n : Expr} (h : Arises options env f n) : options.Allows f.problem := by
  cases h with
  | operate _ _ hf => exact allows_operate hf
  | @predicate _ _ _ _ v _ _ hf =>
    obtain ⟨a, fs⟩ := v
    cases a with
    | interval i => exact List.mem_singleton.1 hf ▸ trivial
    | boolean s => exact nomatch hf
    | undefined => exact nomatch hf
  | warning _ hf =>
    obtain hf | hf := List.mem_append.1 hf
    · obtain ⟨_, -, hfinding⟩ := List.mem_filterMap.1 hf
      obtain ⟨-, hfinding⟩ := Option.ite_none_left_eq_some.1 hfinding
      exact Option.some.inj hfinding ▸ trivial
    · unfold otherwiseFindings at hf
      split at hf
      · next hasked =>
        obtain rfl := List.mem_singleton.1 hf
        exact (Bool.and_eq_true_iff.1 hasked).1
      · exact nomatch hf
  | chosen hparts hf =>
    have hselects := hparts.selects
    generalize Parts.chosen _ _ = chosen at hselects hf
    cases hselects with
    | undefined => exact nomatch hf
    | mismatch => exact List.mem_singleton.1 hf ▸ trivial
    | united => exact nomatch hf

/-- Nothing is found that is reported on request only, and was not asked for. -/
theorem allows_of_analyze {p : Program} {described : Bindings AbstractValue}
    {e : Evaluation AbstractValue} (h : p.analyze described options = .ok e) (hf : f ∈ e.findings) :
    options.Allows f.problem := by
  obtain hdone | ⟨before, s, after, there, r, -, -, hr, hmem⟩ := mem_findings_of_runFrom h hf
  · exact nomatch hdone
  · obtain ⟨n, -, harises⟩ := arises_of_eval s.body hr hmem
    exact harises.allows

/-! ### Beside the plain analysis -/

theorem inView_otherwiseFindings (branches : Branches) (sets : List BooleanSet) :
    inView (!·.isOptional) (otherwiseFindings options branches sets) = [] := by
  unfold otherwiseFindings
  split <;> rfl

/-- Equality is kept by an analysis with any options beside the plain one. -/
theorem congruence_options (options : AnalysisOptions) :
    Congruence options .plain (· = ·) (!·.isOptional) where
  type_eq h := congrArg _ h
  undefined := rfl
  literal _ := rfl
  singleton _ := rfl
  compute op span {i i' j j'} hi hj := by
    obtain rfl := AbstractValue.interval.inj hi
    obtain rfl := AbstractValue.interval.inj hj
    cases op with
    | comparison op => exact ⟨rfl, rfl⟩
    | arithmetic op =>
      refine ⟨rfl, ?_⟩
      unfold compute
      dsimp only
      split <;> split <;> rfl
  clause hs hd ha _ := by
    obtain rfl := AbstractValue.boolean.inj hs
    rw [hd, ha]
  warnings branches sets sets' hsets := by
    obtain rfl : sets = sets' :=
      List.forall₂_eq_eq_eq ▸ hsets.imp fun _ _ => AbstractValue.boolean.inj
    rw [inView_append, inView_append, inView_otherwiseFindings, inView_otherwiseFindings]

end Abstract

/--
Whatever the options, the analysis breaks the contract as the plain one does, or fills the same
sinks; its diagnostics are those of the plain one, in the same order, and others between them that
the options ask for.
-/
theorem Program.analyze_options (p : Program) (described : Bindings AbstractValue)
    (options : AnalysisOptions) :
    Corresponds (fun e e' => e.sinks = e'.sinks ∧ e.unasked p.source = e'.diagnostics p.source ∧
        ∀ d ∈ e.diagnostics p.source, (d.code = "I001" → options.precisionLoss = true) ∧
          (d.code = "W002" → options.unreachableOtherwise = true))
      (p.analyze described options) (p.analyze described .plain) := by
  have hsame : ∀ name, Option.Rel (· = ·) (described.get? name) (described.get? name) := by
    intro name
    cases described.get? name with
    | none => exact .none
    | some a => exact .some rfl
  have hcorresponds := p.corresponds_analyze (Abstract.congruence_options options) hsame
  have hasked := fun e he f => @Abstract.allows_of_analyze options f p described e he
  have hplain := fun e he f => @Abstract.allows_of_analyze .plain f p described e he
  generalize p.analyze described options = run, p.analyze described .plain = run'
    at hcorresponds hasked hplain ⊢
  cases hcorresponds with
  | broken c => exact .broken c
  | @done e e' h =>
    obtain ⟨hsinks, hfindings⟩ := h
    have hkept : inView (!·.isOptional) e'.findings = e'.findings :=
      List.filter_eq_self.2 fun f hf => congrArg not (hplain e' rfl f hf).not_isOptional
    refine .done ⟨hsinks.eq, ?_, fun d hd => ?_⟩
    · rw [Evaluation.unasked_eq, hfindings, hkept]
      rfl
    · obtain ⟨f, hf, rfl⟩ := List.mem_map.1 hd
      exact (hasked e rfl f hf).asked

end RangeRules
