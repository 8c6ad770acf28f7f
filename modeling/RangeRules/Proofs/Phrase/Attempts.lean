import RangeRules.Phrase.Read

/-!
# Where attempts fail

A rule fails where it begins, at the start of a token or at the end of the text. What holds of these
offsets therefore holds of the furthest one that is kept, whatever is read: each function of the
reader keeps it, and leaves only tokens that it was given.
-/
namespace RangeRules

open Text (Span)
open Token (Kind startOf)

theorem Attempts.furthest_fail {P : Nat → Prop} {now : Attempts} (h : P now.furthest) (rule : Rule)
    {offset : Nat} (hoffset : P offset) (before : Attempts) :
    P (now.fail rule offset before).furthest := by
  unfold fail
  split
  · exact h
  · split
    · exact h
    · exact hoffset

namespace Phrase.Read

/-- The property holds of the offsets where the tokens begin. -/
def HoldsAt (P : Nat → Prop) (ts : List Token) : Prop := ∀ t ∈ ts, P t.span.start

/-- It holds of the furthest attempt, and of the tokens left. -/
structure Trial.Keeps {α : Type} {n : Nat} (P : Nat → Prop) (trial : Trial α n) : Prop where
  furthest : P trial.attempts.furthest
  rest : ∀ r, trial.found = some r → HoldsAt P r.rest

variable {P : Nat → Prop} {finish : Nat} {ts : List Token} {a : Attempts}

theorem HoldsAt.startOf (h : HoldsAt P ts) (hfinish : P finish) : P (startOf finish ts) := by
  cases ts with
  | nil => exact hfinish
  | cons t ts => exact h t List.mem_cons_self

theorem Trial.Keeps.none {α : Type} {n : Nat} (h : P a.furthest) :
    (⟨a, .none⟩ : Trial α n).Keeps P := ⟨h, nofun⟩

theorem Trial.Keeps.some {α : Type} {n : Nat} {r : Found α n} (h : P a.furthest)
    (hrest : HoldsAt P r.rest) : (⟨a, .some r⟩ : Trial α n).Keeps P := by
  refine ⟨h, fun r' hr' => ?_⟩
  obtain rfl := Option.some.inj hr'
  exact hrest

theorem Trial.Keeps.map {α β : Type} {n : Nat} {trial : Trial α n} (h : trial.Keeps P)
    (f : α → β) : (⟨trial.attempts, trial.found.map (·.map f)⟩ : Trial β n).Keeps P := by
  refine ⟨h.furthest, fun r' hr' => ?_⟩
  obtain ⟨r, hr, rfl⟩ := Option.map_eq_some_iff.1 hr'
  exact h.rest r hr

/-- What is kept after a rule has failed. -/
theorem Trial.Keeps.of_none {α : Type} {n : Nat} {trial : Trial α n} (h : trial.Keeps P)
    (heq : trial = ⟨a, .none⟩) : P a.furthest := by
  rw [heq] at h
  exact h.furthest

/-- What is kept after a rule has matched. -/
theorem Trial.Keeps.of_some {α : Type} {n : Nat} {trial : Trial α n} {r : Found α n}
    (h : trial.Keeps P) (heq : trial = ⟨a, .some r⟩) : P a.furthest ∧ HoldsAt P r.rest := by
  rw [heq] at h
  exact ⟨h.furthest, h.rest r rfl⟩

theorem attempt_keeps {α : Type} {n : Nat} (rule : Rule) {offset : Nat} (hoffset : P offset)
    {read : Attempts → Trial α n} (h : (read a).Keeps P) :
    (attempt rule offset read a).Keeps P := by
  unfold attempt
  dsimp only
  split
  · exact h
  · exact .none (Attempts.furthest_fail h.furthest rule hoffset a)

section Tokens

variable (hfinish : P finish) (hts : HoldsAt P ts) (ha : P a.furthest)
include hfinish hts ha

theorem one_keeps {α : Type} (rule : Rule) (accept : Kind → Option α) :
    (one finish rule accept ts a).Keeps P := by
  cases ts with
  | nil => exact .none (Attempts.furthest_fail ha rule hfinish a)
  | cons t ts =>
    obtain ⟨ht, hrest⟩ := List.forall_mem_cons.1 hts
    unfold one
    dsimp only
    split
    · exact .some ha hrest
    · exact .none (Attempts.furthest_fail ha rule ht a)

theorem keyword_keeps (rule : Rule) (word : Keyword) : (keyword finish rule word ts a).Keeps P :=
  one_keeps hfinish hts ha rule _

theorem name_keeps : (name finish ts a).Keeps P := one_keeps hfinish hts ha .ident _

theorem operator_keeps {ω : Type} (wrap : ω → Operator) (ops : List ω) :
    (operator finish wrap ops ts a).Keeps P := by
  induction ops generalizing a with
  | nil => exact .none ha
  | cons op ops ih =>
    have hone := one_keeps hfinish hts ha (.ofOperator (wrap op))
      fun k => if k = Kind.operator (wrap op) then Option.some op else Option.none
    unfold operator
    dsimp only
    split
    · next hr =>
      obtain ⟨ha, hrest⟩ := hone.of_some hr
      exact .some ha hrest
    · next hnone => exact ih (hone.of_none hnone)

theorem boolean_keeps : (boolean finish ts a).Keeps P := (one_keeps hfinish hts ha _ _).map _

theorem number_keeps : (number finish ts a).Keeps P := (one_keeps hfinish hts ha _ _).map _

theorem variableRef_keeps : (variableRef finish ts a).Keeps P :=
  (attempt_keeps .variableRef (hts.startOf hfinish) (name_keeps hfinish hts ha)).map _

end Tokens

theorem skip?_holdsAt {kind : Kind} {r : Found Span ts.length} (hts : HoldsAt P ts)
    (h : skip? kind ts = some r) : HoldsAt P r.rest := by
  cases ts with
  | nil => exact nomatch h
  | cons t ts =>
    unfold skip? at h
    dsimp only at h
    split at h
    · obtain rfl := Option.some.inj h
      exact (List.forall_mem_cons.1 hts).2
    · exact nomatch h

theorem skipAssign?_holdsAt {r : Found Span ts.length} (hts : HoldsAt P ts)
    (h : skipAssign? ts = some r) : HoldsAt P r.rest := by
  unfold skipAssign? at h
  split at h
  · cases h
  · next sign hsign =>
    have hsame : some sign = some r := by
      split at h
      · exact (Option.ite_none_left_eq_some.1 h).2
      · exact h
    obtain rfl := Option.some.inj hsame
    exact skip?_holdsAt hts hsign

theorem sourceRef_keeps (hfinish : P finish) (hts : HoldsAt P ts) (ha : P a.furthest) :
    (sourceRef finish ts a).Keeps P := by
  refine attempt_keeps .sourceRef (hts.startOf hfinish) ?_
  have hthis := keyword_keeps hfinish hts ha .kwThis .this
  split
  · next hnone => exact .none (hthis.of_none hnone)
  · next this hword =>
    obtain ⟨ha, hthis⟩ := hthis.of_some hword
    split
    · exact .none ha
    · next dot hdot =>
      have hname := name_keeps hfinish (skip?_holdsAt hthis hdot) ha
      split
      · next hnone => exact .none (hname.of_none hnone)
      · next hn =>
        obtain ⟨ha, hrest⟩ := hname.of_some hn
        exact .some ha hrest

theorem atom_keeps (hfinish : P finish) (hts : HoldsAt P ts) (ha : P a.furthest) :
    (atom finish ts a).Keeps P := by
  unfold atom
  have hboolean := boolean_keeps hfinish hts ha
  split
  · next hfound => exact hfound ▸ hboolean
  · next hnone =>
    have hsource := sourceRef_keeps hfinish hts (hboolean.of_none hnone)
    split
    · next hfound => exact hfound ▸ hsource
    · next hnone =>
      have hnumber := number_keeps hfinish hts (hsource.of_none hnone)
      split
      · next hfound => exact hfound ▸ hnumber
      · next hnone => exact variableRef_keeps hfinish hts (hnumber.of_none hnone)

mutual

theorem expression_keeps (hfinish : P finish) (ts : List Token) (a : Attempts) (hts : HoldsAt P ts)
    (ha : P a.furthest) : (expression finish ts a).Keeps P := by
  rw [expression]
  have hchoose := choose_keeps hfinish ts a hts ha
  split
  · next hfound => exact hfound ▸ hchoose
  · next hnone => exact binary_keeps hfinish ts _ hts (hchoose.of_none hnone)
termination_by 8 * ts.length + 5

theorem choose_keeps (hfinish : P finish) (ts : List Token) (a : Attempts) (hts : HoldsAt P ts)
    (ha : P a.furthest) : (choose finish ts a).Keeps P := by
  rw [choose]
  refine attempt_keeps .whenExpr (hts.startOf hfinish) ?_
  have hclause := clause_keeps hfinish ts a hts ha
  split
  · next hnone => exact .none (hclause.of_none hnone)
  · next first hfirst =>
    obtain ⟨ha, hrest⟩ := hclause.of_some hfirst
    have hshorter := first.shorter
    have hbranches := branches_keeps hfinish first.rest _ hrest ha
    split
    · next hnone => exact .none (hbranches.of_none hnone)
    · next hmore =>
      obtain ⟨ha, hrest⟩ := hbranches.of_some hmore
      exact .some ha hrest
termination_by 8 * ts.length + 4

theorem branches_keeps (hfinish : P finish) (ts : List Token) (a : Attempts) (hts : HoldsAt P ts)
    (ha : P a.furthest) : (branches finish ts a).Keeps P := by
  rw [branches]
  have hclause := clause_keeps hfinish ts a hts ha
  split
  · next first hfirst =>
    obtain ⟨ha, hrest⟩ := hclause.of_some hfirst
    have hshorter := first.shorter
    have hbranches := branches_keeps hfinish first.rest _ hrest ha
    split
    · next hnone => exact .none (hbranches.of_none hnone)
    · next hmore =>
      obtain ⟨ha, hrest⟩ := hbranches.of_some hmore
      exact .some ha hrest
  · next hnone => exact otherwiseClause_keeps hfinish ts _ hts (hclause.of_none hnone)
termination_by 8 * ts.length + 4

theorem clause_keeps (hfinish : P finish) (ts : List Token) (a : Attempts) (hts : HoldsAt P ts)
    (ha : P a.furthest) : (clause finish ts a).Keeps P := by
  rw [clause]
  refine attempt_keeps .whenClause (hts.startOf hfinish) ?_
  have hword := keyword_keeps hfinish hts ha .kwWhen .when
  split
  · next hnone => exact .none (hword.of_none hnone)
  · next word hfound =>
    obtain ⟨ha, hrest⟩ := hword.of_some hfound
    have hshorter := word.shorter
    have hpredicate := expression_keeps hfinish word.rest _ hrest ha
    split
    · next hnone => exact .none (hpredicate.of_none hnone)
    · next predicate hfound =>
      obtain ⟨ha, hrest⟩ := hpredicate.of_some hfound
      have hshorter' := predicate.shorter
      have hconsequent := expression_keeps hfinish predicate.rest _ hrest ha
      split
      · next hnone => exact .none (hconsequent.of_none hnone)
      · next hfound =>
        obtain ⟨ha, hrest⟩ := hconsequent.of_some hfound
        exact .some ha hrest
termination_by 8 * ts.length + 3

theorem otherwiseClause_keeps (hfinish : P finish) (ts : List Token) (a : Attempts)
    (hts : HoldsAt P ts) (ha : P a.furthest) : (otherwiseClause finish ts a).Keeps P := by
  rw [otherwiseClause]
  refine attempt_keeps .otherwiseClause (hts.startOf hfinish) ?_
  have hword := keyword_keeps hfinish hts ha .kwOtherwise .otherwise
  split
  · next hnone => exact .none (hword.of_none hnone)
  · next word hfound =>
    obtain ⟨ha, hrest⟩ := hword.of_some hfound
    have hshorter := word.shorter
    have hvalue := expression_keeps hfinish word.rest _ hrest ha
    split
    · next hnone => exact .none (hvalue.of_none hnone)
    · next hfound =>
      obtain ⟨ha, hrest⟩ := hvalue.of_some hfound
      exact .some ha hrest
termination_by 8 * ts.length + 3

theorem binary_keeps (hfinish : P finish) (ts : List Token) (a : Attempts) (hts : HoldsAt P ts)
    (ha : P a.furthest) : (binary finish ts a).Keeps P := by
  rw [binary]
  refine attempt_keeps .binary (hts.startOf hfinish) ?_
  have hleft := arithmetic_keeps hfinish ts a hts ha
  split
  · next hnone => exact .none (hleft.of_none hnone)
  · next left hfound =>
    obtain ⟨ha, hmid⟩ := hleft.of_some hfound
    have hshorter := left.shorter
    have hop := operator_keeps hfinish hmid ha .comparison comparisonOps
    dsimp only
    split
    · next hnone => exact .some (hop.of_none hnone) hmid
    · next op hfound =>
      obtain ⟨ha, hrest⟩ := hop.of_some hfound
      have hshorter' := op.shorter
      have hright := arithmetic_keeps hfinish op.rest _ hrest ha
      split
      · next hnone => exact .some (hright.of_none hnone) hmid
      · next hfound =>
        obtain ⟨ha, hrest⟩ := hright.of_some hfound
        exact .some ha hrest
termination_by 8 * ts.length + 3

theorem arithmetic_keeps (hfinish : P finish) (ts : List Token) (a : Attempts) (hts : HoldsAt P ts)
    (ha : P a.furthest) : (arithmetic finish ts a).Keeps P := by
  rw [arithmetic]
  have hoperand := operand_keeps hfinish ts a hts ha
  split
  · next hnone => exact .none (hoperand.of_none hnone)
  · next first hfound =>
    obtain ⟨ha, hrest⟩ := hoperand.of_some hfound
    have hshorter := first.shorter
    obtain ⟨ha, hrest⟩ := links_keeps hfinish first.rest _ hrest ha
    exact .some ha hrest
termination_by 8 * ts.length + 2

theorem links_keeps (hfinish : P finish) (ts : List Token) (a : Attempts) (hts : HoldsAt P ts)
    (ha : P a.furthest) : P (links finish ts a).1.furthest ∧ HoldsAt P (links finish ts a).2.rest
    := by
  rw [links]
  have hop := operator_keeps hfinish hts ha .arithmetic arithmeticOps
  split
  · next hnone => exact ⟨hop.of_none hnone, hts⟩
  · next op hfound =>
    obtain ⟨ha, hrest⟩ := hop.of_some hfound
    have hshorter := op.shorter
    have hoperand := operand_keeps hfinish op.rest _ hrest ha
    dsimp only
    split
    · next hnone => exact ⟨hoperand.of_none hnone, hts⟩
    · next term hfound =>
      obtain ⟨ha, hrest⟩ := hoperand.of_some hfound
      have hshorter' := term.shorter
      exact links_keeps hfinish term.rest _ hrest ha
termination_by 8 * ts.length + 2

theorem operand_keeps (hfinish : P finish) (ts : List Token) (a : Attempts) (hts : HoldsAt P ts)
    (ha : P a.furthest) : (operand finish ts a).Keeps P := by
  rw [operand]
  have hgroup := group_keeps hfinish ts a hts ha
  split
  · next hfound => exact hfound ▸ hgroup
  · next hnone => exact atom_keeps hfinish hts (hgroup.of_none hnone)
termination_by 8 * ts.length + 1

theorem group_keeps (hfinish : P finish) (ts : List Token) (a : Attempts) (hts : HoldsAt P ts)
    (ha : P a.furthest) : (group finish ts a).Keeps P := by
  rw [group]
  refine attempt_keeps .grouped (hts.startOf hfinish) ?_
  split
  · exact .none ha
  · next opening hopening =>
    have hshorter := opening.shorter
    have hinner := expression_keeps hfinish opening.rest a (skip?_holdsAt hts hopening) ha
    dsimp only
    split
    · next hnone => exact .none (hinner.of_none hnone)
    · next inner hfound =>
      obtain ⟨ha, hrest⟩ := hinner.of_some hfound
      split
      · exact .none ha
      · next hclosing => exact .some ha (skip?_holdsAt hrest hclosing)
termination_by 8 * ts.length

end

theorem assignment_keeps (hfinish : P finish) {rule : Rule} {isSink : Bool}
    {skip : (ts : List Token) → Option (Found Span ts.length)}
    (hskip : ∀ {ts : List Token} {r : Found Span ts.length}, HoldsAt P ts → skip ts = some r →
      HoldsAt P r.rest)
    (hts : HoldsAt P ts) (ha : P a.furthest) :
    (assignment finish rule isSink skip ts a).Keeps P := by
  unfold assignment
  refine attempt_keeps rule (hts.startOf hfinish) ?_
  have hname := name_keeps hfinish hts ha
  split
  · next hnone => exact .none (hname.of_none hnone)
  · next n hn =>
    obtain ⟨ha, hrest⟩ := hname.of_some hn
    split
    · exact .none ha
    · next sign hsign =>
      have hbody := expression_keeps hfinish sign.rest _ (hskip hrest hsign) ha
      split
      · next hnone => exact .none (hbody.of_none hnone)
      · next hfound =>
        obtain ⟨ha, hrest⟩ := hbody.of_some hfound
        exact .some ha hrest

theorem statement_keeps (hfinish : P finish) (hts : HoldsAt P ts) (ha : P a.furthest) :
    (statement finish ts a).Keeps P := by
  unfold statement
  have hassign : (assignment finish .variableAssignment false skipAssign? ts a).Keeps P :=
    assignment_keeps hfinish skipAssign?_holdsAt hts ha
  split
  · next hfound => exact hfound ▸ hassign
  · next hnone => exact assignment_keeps hfinish skip?_holdsAt hts (hassign.of_none hnone)

theorem statements_keeps (hfinish : P finish) (ts : List Token) (a : Attempts) (hts : HoldsAt P ts)
    (ha : P a.furthest) : P (statements finish ts a).1.furthest ∧ HoldsAt P
    (statements finish ts a).2.rest := by
  rw [statements]
  have hstatement := statement_keeps hfinish hts ha
  split
  · next hnone => exact ⟨hstatement.of_none hnone, hts⟩
  · next first hfound =>
    obtain ⟨ha, hrest⟩ := hstatement.of_some hfound
    have hshorter := first.shorter
    exact statements_keeps hfinish first.rest _ hrest ha
termination_by ts.length

/-- In a text that is no program the furthest attempt fails at a token, or at an end of the text. -/
theorem program_furthest (hfinish : P finish) (hstart : P 0) (hts : HoldsAt P ts)
    (h : program finish ts = .error a) : P a.furthest := by
  obtain ⟨hfurthest, hrest⟩ := statements_keeps hfinish ts .start hts hstart
  unfold program at h
  dsimp only at h
  split at h
  · exact nomatch h
  · next t rest htokens =>
    rw [htokens] at hrest
    obtain rfl := Except.error.inj h
    have htoken := hrest t List.mem_cons_self
    exact Attempts.furthest_fail (Attempts.furthest_fail hfurthest _ htoken _) .program hstart _

end Phrase.Read

end RangeRules
