import RangeRules.Proofs.Grammar.Viability
import RangeRules.Proofs.Phrase.Consumption
import RangeRules.Proofs.Phrase.Sentence

/-!
# Attempts are viable

A rule is tried only where the tokens before it can go on with what it stands for. Whatever is read,
the attempts that are kept therefore name concepts that may come next at their offset, and each
function of the reader, in a place that awaits its form, keeps them so. The rule for the whole
program is the exception: it is tried at the very start of the text, and there it replaces all
others.
-/
namespace RangeRules

open Text (Span)
open Token (Kind startOf)
open Grammar
open Peg (IsClause)

namespace Attempts

/-- The attempts have got as far as others, with as many rules as they if no further. -/
def Extends (b a : Attempts) : Prop :=
  a.furthest < b.furthest ∨ a.furthest = b.furthest ∧ a.rules.length ≤ b.rules.length

theorem Extends.refl (a : Attempts) : a.Extends a := .inr ⟨rfl, le_rfl⟩

theorem Extends.trans {a b c : Attempts} (hb : b.Extends a) (hc : c.Extends b) : c.Extends a := by
  unfold Extends at *
  omega

/-- What is kept after a rule has failed: more at its offset than before, unless others got
further. -/
theorem fail_extends {before now : Attempts} (h : now.Extends before) (rule : Rule) (offset : Nat) :
    (now.fail rule offset before).Extends before ∧
      (offset < (now.fail rule offset before).furthest ∨
        (now.fail rule offset before).countAt offset = before.countAt offset + 1) := by
  unfold fail
  split
  · next hcount => exact ⟨h, .inr hcount⟩
  · split
    · next hfurther => exact ⟨h, .inl hfurther⟩
    · next hnear =>
      unfold Extends countAt at *
      dsimp only
      rw [if_pos rfl, List.length_append, List.length_take, List.length_singleton]
      by_cases hbefore : before.furthest = offset
      · rw [if_pos hbefore]
        omega
      · rw [if_neg hbefore]
        omega

/-- A rule that began at the start of the text and fails changes nothing if others got further. It
replaces those that did not, unless there is just one of them. -/
theorem fail_at_start (now : Attempts) (rule : Rule) :
    (0 < now.furthest → now.fail rule 0 start = now) ∧
      (now.furthest = 0 → now.rules.length ≠ 1 → now.fail rule 0 start = ⟨0, [rule]⟩) := by
  unfold fail countAt start
  constructor
  · intro hfurther
    rw [if_neg hfurther.ne', if_pos hfurther]
    rfl
  · intro hstart hcount
    rw [if_pos hstart, if_pos rfl]
    dsimp only [List.length_nil]
    rw [if_neg hcount, hstart]
    rfl

end Attempts

namespace Phrase.Read

/-- The tokens come last among all, after tokens of some kinds. -/
structure Stands (all : List Token) (u : List Kind) (ts : List Token) : Prop where
  suffix : ts <:+ all
  kinds : kindsOf all = u ++ kindsOf ts

/-- A concept is viable after the tokens that come before an offset. -/
def ViableAt (all : List Token) (finish : Nat) (concept : String) (offset : Nat) : Prop :=
  ∃ u ts, Stands all u ts ∧ startOf finish ts = offset ∧ Viable concept u

/-- All that is kept is viable, and something is kept for any offset but the first. -/
structure Expected (all : List Token) (finish : Nat) (a : Attempts) : Prop where
  viable : ∀ rule ∈ a.rules, ViableAt all finish rule.concept a.furthest
  reason : a.furthest = 0 ∨ a.rules ≠ []

theorem expected_start (all : List Token) (finish : Nat) : Expected all finish .start :=
  ⟨nofun, .inl rfl⟩

/-- From the attempts `a`, something that was tried leads to the attempts `b`. -/
structure Grows (all : List Token) (finish : Nat) (a b : Attempts) : Prop where
  extends_ : b.Extends a
  expected : Expected all finish a → Expected all finish b

variable {all ts : List Token} {finish : Nat} {a b c : Attempts} {u : List Kind}

namespace Grows

theorem refl (a : Attempts) : Grows all finish a a := ⟨.refl a, id⟩

theorem trans (hb : Grows all finish a b) (hc : Grows all finish b c) : Grows all finish a c :=
  ⟨hb.extends_.trans hc.extends_, hc.expected ∘ hb.expected⟩

theorem of_eq {α : Type} {n : Nat} {trial : Trial α n} {x : Option (Found α n)}
    (h : Grows all finish a trial.attempts) (heq : trial = ⟨b, x⟩) : Grows all finish a b := by
  rw [heq] at h
  exact h

theorem fail (h : Grows all finish a b) {rule : Rule} {offset : Nat}
    (hviable : ViableAt all finish rule.concept offset) :
    Grows all finish a (b.fail rule offset a) := by
  refine ⟨(Attempts.fail_extends h.extends_ rule offset).1, fun ha => ?_⟩
  have hb := h.expected ha
  have hextends := h.extends_
  unfold Attempts.fail
  split
  · exact hb
  · split
    · exact hb
    · next hnear =>
      refine ⟨fun r hr => ?_, .inr (List.append_ne_nil_of_right_ne_nil _ (List.cons_ne_nil _ _))⟩
      obtain hr | hr := List.mem_append.1 hr
      · -- Rules are taken over only if the offset was the furthest already.
        have hsame : b.furthest = offset := by
          unfold Attempts.Extends Attempts.countAt at *
          split at hr
          · omega
          · exact nomatch hr
        rw [← hsame]
        exact hb.viable r (List.mem_of_mem_take hr)
      · rw [List.mem_singleton.1 hr]
        exact hviable

end Grows

theorem attempt_grows {α : Type} {n offset : Nat} (rule : Rule) {read : Attempts → Trial α n}
    (hviable : ViableAt all finish rule.concept offset)
    (h : Grows all finish a (read a).attempts) :
    Grows all finish a (attempt rule offset read a).attempts := by
  unfold attempt
  dsimp only
  split
  · exact h
  · exact h.fail hviable

namespace Stands

theorem viableAt (h : Stands all u ts) (finish : Nat) {concept : String}
    (hviable : Viable concept u) :
    ViableAt all finish concept (startOf finish ts) := ⟨u, ts, h, rfl, hviable⟩

theorem after (h : Stands all u ts) {consumed rest : List Token} {v : List Kind}
    (hts : ts = consumed ++ rest) (hkinds : kindsOf ts = v ++ kindsOf rest) :
    Stands all (u ++ v) rest := by
  refine ⟨?_, by rw [h.kinds, hkinds, List.append_assoc]⟩
  exact (hts ▸ List.suffix_append consumed rest).trans h.suffix

theorem token {k : Kind} {s : Span} {rest : List Token} (h : Stands all u (⟨k, s⟩ :: rest)) :
    Stands all (u ++ [k]) rest := by
  have hts : (⟨k, s⟩ :: rest : List Token) = [⟨k, s⟩] ++ rest := rfl
  exact h.after hts rfl

theorem operand {t : Term} {rest : List Token} (h : Stands all u ts)
    (hread : DerivesOperand finish ts t rest) : ∃ v, IsOperand v ∧ Stands all (u ++ v) rest := by
  obtain ⟨v, hv, hkinds⟩ := hread.sentence
  obtain ⟨consumed, -, hts, -⟩ := hread.followed
  exact ⟨v, hv, h.after hts hkinds⟩

theorem links {ls : Links} {rest : List Token} (h : Stands all u ts)
    (hread : DerivesLinks finish ts ls rest) : ∃ v, IsLinks v ∧ Stands all (u ++ v) rest := by
  obtain ⟨v, hv, hkinds⟩ := hread.sentence
  obtain ⟨consumed, hts, -⟩ := hread.followed
  exact ⟨v, hv, h.after hts hkinds⟩

theorem expression {p : Phrase} {rest : List Token} (h : Stands all u ts)
    (hread : Derives finish ts p rest) : ∃ v, IsExpression v ∧ Stands all (u ++ v) rest := by
  obtain ⟨v, hv, hkinds⟩ := hread.sentence
  obtain ⟨consumed, -, hts, -⟩ := hread.followed
  exact ⟨v, hv, h.after hts hkinds⟩

end Stands

/-! ### Tokens -/

section Tokens

variable (h : Stands all u ts) (finish : Nat)
include h

theorem one_grows {α : Type} (rule : Rule) (hviable : Viable rule.concept u)
    (accept : Kind → Option α) (a : Attempts) :
    Grows all finish a (one finish rule accept ts a).attempts := by
  have hfail := (Grows.refl a).fail (h.viableAt finish hviable)
  cases ts with
  | nil => exact hfail
  | cons t ts =>
    unfold one
    dsimp only
    split
    · exact .refl a
    · exact hfail

theorem operator_grows {ω : Type} (wrap : ω → Operator) (hviable : Viable "operator" u)
    (ops : List ω) (a : Attempts) :
    Grows all finish a (operator finish wrap ops ts a).attempts := by
  induction ops generalizing a with
  | nil => exact .refl a
  | cons op ops ih =>
    have hconcept : (Rule.ofOperator (wrap op)).concept = "operator" := by
      cases wrap op with
      | arithmetic op => cases op <;> rfl
      | comparison op => cases op <;> rfl
    have hone := one_grows h finish (.ofOperator (wrap op)) (hconcept ▸ hviable)
      (fun k => if k = Kind.operator (wrap op) then some op else none) a
    unfold operator
    dsimp only
    split
    · next hfound => exact hone.of_eq hfound
    · next hnone => exact (hone.of_eq hnone).trans (ih _)

/-- A name, where one is awaited. -/
theorem name_grows (hviable : Viable "identifier" u) (a : Attempts) :
    Grows all finish a (name finish ts a).attempts := one_grows h finish .ident hviable _ a

theorem sourceRef_grows (hu : Awaits u IsOperand) (a : Attempts) :
    Grows all finish a (sourceRef finish ts a).attempts := by
  refine attempt_grows .sourceRef (h.viableAt finish hu.viable_source) ?_
  have hthis : Grows all finish a (keyword finish .kwThis .this ts a).attempts :=
    one_grows h finish .kwThis hu.viable_source _ a
  split
  · next hnone => exact hthis.of_eq hnone
  · next word hword =>
    have ha := hthis.of_eq hword
    obtain ⟨⟨_, s⟩, rest, _⟩ := word
    obtain rfl := keyword_eq_some (congrArg Trial.found hword)
    split
    · exact ha
    · next dot hdot =>
      obtain ⟨d, rest, _⟩ := dot
      obtain rfl := skip?_eq_some hdot
      have hrest := h.token.token
      rw [List.append_assoc] at hrest
      have hname := name_grows hrest finish hu.sourceName.viable_name
      split
      · next hnone => exact ha.trans ((hname _).of_eq hnone)
      · next hn => exact ha.trans ((hname _).of_eq hn)

theorem atom_grows (hu : Awaits u IsOperand) (a : Attempts) :
    Grows all finish a (atom finish ts a).attempts := by
  have hboolean : ∀ a, Grows all finish a (boolean finish ts a).attempts :=
    one_grows h finish .boolean hu.viable_literal _
  have hnumber : ∀ a, Grows all finish a (number finish ts a).attempts :=
    one_grows h finish .number hu.viable_literal _
  have hvariable : ∀ a, Grows all finish a (variableRef finish ts a).attempts := fun a =>
    attempt_grows .variableRef (h.viableAt finish hu.viable_variable)
      (name_grows h finish hu.viable_variable a)
  unfold atom
  split
  · next hfound => exact (hboolean a).of_eq hfound
  · next hnone =>
    have ha := (hboolean a).of_eq hnone
    split
    · next hfound => exact ha.trans ((sourceRef_grows h finish hu _).of_eq hfound)
    · next hnone =>
      have ha := ha.trans ((sourceRef_grows h finish hu _).of_eq hnone)
      split
      · next hfound => exact ha.trans ((hnumber _).of_eq hfound)
      · next hnone => exact (ha.trans ((hnumber _).of_eq hnone)).trans (hvariable _)

end Tokens

/-! ### Expressions -/

theorem Stands.clause {ts' more : List Token} {s : Span} {p c : Phrase}
    (h : Stands all u (⟨.keyword .when, s⟩ :: ts')) {mid : List Token}
    (hp : Derives finish ts' p mid) (hc : Derives finish mid c more) :
    ∃ v, IsClause v ∧ Stands all (u ++ v) more := by
  obtain ⟨v, hv, hmid⟩ := h.token.expression hp
  obtain ⟨w, hw, hmore⟩ := hmid.expression hc
  refine ⟨.keyword .when :: (v ++ w), ⟨v, w, hv, hw, rfl⟩, ?_⟩
  simpa only [List.append_assoc, List.singleton_append, List.cons_append,
    List.nil_append] using hmore

mutual

theorem expression_grows (finish : Nat) (ts : List Token) (a : Attempts) {u : List Kind}
    (h : Stands all u ts)
    (hu : Awaits u IsExpression) : Grows all finish a (expression finish ts a).attempts := by
  rw [expression]
  have hchoose := choose_grows finish ts a h hu
  split
  · next hfound => exact hchoose.of_eq hfound
  · next hnone => exact (hchoose.of_eq hnone).trans (binary_grows finish ts _ h hu)
termination_by 8 * ts.length + 5

theorem choose_grows (finish : Nat) (ts : List Token) (a : Attempts) {u : List Kind}
    (h : Stands all u ts)
    (hu : Awaits u IsExpression) : Grows all finish a (choose finish ts a).attempts := by
  rw [choose]
  refine attempt_grows .whenExpr (h.viableAt finish hu.arith.operand.viable_expression) ?_
  have hclause := clause_grows finish ts a h hu.choice_of_expression.clause
  split
  · next hnone => exact hclause.of_eq hnone
  · next a' first hfirst =>
    have ha := hclause.of_eq hfirst
    obtain ⟨⟨p, c⟩, rest, hshorter⟩ := first
    obtain ⟨mid, s, ts', rfl, hp, hc⟩ := clause_sound finish ts a (congrArg Trial.found hfirst)
    obtain ⟨v, hv, hrest⟩ := h.clause hp hc
    have hbranches :=
      branches_grows finish rest a' hrest (hu.choice_of_expression.branches hv)
    split
    · next hnone => exact ha.trans (hbranches.of_eq hnone)
    · next hmore => exact ha.trans (hbranches.of_eq hmore)
termination_by 8 * ts.length + 4

theorem branches_grows (finish : Nat) (ts : List Token) (a : Attempts) {u : List Kind}
    (h : Stands all u ts)
    (hu : Awaits u IsBranches) : Grows all finish a (branches finish ts a).attempts := by
  rw [branches]
  have hclause := clause_grows finish ts a h hu.choice_of_branches.clause
  split
  · next a' first hfirst =>
    have ha := hclause.of_eq hfirst
    obtain ⟨⟨p, c⟩, rest, hshorter⟩ := first
    obtain ⟨mid, s, ts', rfl, hp, hc⟩ := clause_sound finish ts a (congrArg Trial.found hfirst)
    obtain ⟨v, hv, hrest⟩ := h.clause hp hc
    have hbranches :=
      branches_grows finish rest a' hrest (hu.choice_of_branches.branches hv)
    split
    · next hnone => exact ha.trans (hbranches.of_eq hnone)
    · next hmore => exact ha.trans (hbranches.of_eq hmore)
  · next hnone =>
    exact (hclause.of_eq hnone).trans (otherwiseClause_grows finish ts _ h hu.otherwise)
termination_by 8 * ts.length + 4

theorem clause_grows (finish : Nat) (ts : List Token) (a : Attempts) {u : List Kind}
    (h : Stands all u ts)
    (hu : Awaits u IsClause) : Grows all finish a (clause finish ts a).attempts := by
  rw [clause]
  refine attempt_grows .whenClause (h.viableAt finish hu.viable_when) ?_
  have hword : Grows all finish a (keyword finish .kwWhen .when ts a).attempts :=
    one_grows h finish .kwWhen hu.viable_when _ a
  split
  · next hnone => exact hword.of_eq hnone
  · next a' word hfound =>
    have ha := hword.of_eq hfound
    obtain ⟨⟨_, s⟩, rest, hshorter⟩ := word
    obtain rfl := keyword_eq_some (congrArg Trial.found hfound)
    have hpredicate := expression_grows finish rest a' h.token hu.pair.predicate
    split
    · next hnone => exact ha.trans (hpredicate.of_eq hnone)
    · next a'' predicate hfound =>
      have ha := ha.trans (hpredicate.of_eq hfound)
      obtain ⟨v, hv, hmid⟩ :=
        h.token.expression (expression_sound finish rest a' (congrArg Trial.found hfound))
      obtain ⟨p, mid, hshorter'⟩ := predicate
      have hmidLength : mid.length < rest.length := hshorter'
      have hconsequent :=
        expression_grows finish mid a'' hmid (hu.pair.consequent hv)
      split
      · next hnone => exact ha.trans (hconsequent.of_eq hnone)
      · next hfound => exact ha.trans (hconsequent.of_eq hfound)
termination_by 8 * ts.length + 3

theorem otherwiseClause_grows (finish : Nat) (ts : List Token) (a : Attempts) {u : List Kind}
    (h : Stands all u ts) (hu : Awaits u IsOtherwise) :
    Grows all finish a (otherwiseClause finish ts a).attempts := by
  rw [otherwiseClause]
  refine attempt_grows .otherwiseClause (h.viableAt finish hu.viable_otherwise) ?_
  have hword : Grows all finish a (keyword finish .kwOtherwise .otherwise ts a).attempts :=
    one_grows h finish .kwOtherwise hu.viable_otherwise _ a
  split
  · next hnone => exact hword.of_eq hnone
  · next a' word hfound =>
    have ha := hword.of_eq hfound
    obtain ⟨⟨_, s⟩, rest, hshorter⟩ := word
    obtain rfl := keyword_eq_some (congrArg Trial.found hfound)
    have hvalue := expression_grows finish rest a' h.token hu.value
    split
    · next hnone => exact ha.trans (hvalue.of_eq hnone)
    · next hfound => exact ha.trans (hvalue.of_eq hfound)
termination_by 8 * ts.length + 3

theorem binary_grows (finish : Nat) (ts : List Token) (a : Attempts) {u : List Kind}
    (h : Stands all u ts)
    (hu : Awaits u IsExpression) : Grows all finish a (binary finish ts a).attempts := by
  rw [binary]
  refine attempt_grows .binary (h.viableAt finish hu.arith.operand.viable_expression) ?_
  have hleft := arithmetic_grows finish ts a h hu.arith
  split
  · next hnone => exact hleft.of_eq hnone
  · next a' left hfound =>
    have ha := hleft.of_eq hfound
    obtain ⟨mid, hhead, htail⟩ := arithmetic_sound finish ts a (congrArg Trial.found hfound)
    obtain ⟨v, hv, hmid⟩ := h.operand hhead
    obtain ⟨w, hw, hrest⟩ := hmid.links htail
    rw [List.append_assoc] at hrest
    have hcompared := hu.compared (.mk hv hw)
    have hop := operator_grows hrest finish .comparison hcompared.viable_comparison
      comparisonOps a'
    obtain ⟨_, rest, hshorter⟩ := left
    dsimp only at hop hrest ⊢
    split
    · next hnone => exact ha.trans (hop.of_eq hnone)
    · next a'' op hfound =>
      have ha := ha.trans (hop.of_eq hfound)
      obtain ⟨s, hts⟩ := operator_eq_some (congrArg Trial.found hfound)
      obtain ⟨op, right, hshorter'⟩ := op
      have hrightLength : right.length < rest.length := hshorter'
      dsimp only at hts
      rw [hts] at hrest
      have hright := arithmetic_grows finish right a'' hrest.token (hcompared.right op)
      split
      · next hnone => exact ha.trans (hright.of_eq hnone)
      · next hfound => exact ha.trans (hright.of_eq hfound)
termination_by 8 * ts.length + 3

theorem arithmetic_grows (finish : Nat) (ts : List Token) (a : Attempts) {u : List Kind}
    (h : Stands all u ts)
    (hu : Awaits u IsArith) : Grows all finish a (arithmetic finish ts a).attempts := by
  rw [arithmetic]
  have hoperand := operand_grows finish ts a h hu.operand
  split
  · next hnone => exact hoperand.of_eq hnone
  · next a' first hfound =>
    obtain ⟨v, hv, hrest⟩ :=
      h.operand (operand_sound finish ts a (congrArg Trial.found hfound))
    obtain ⟨t, rest, hshorter⟩ := first
    exact (hoperand.of_eq hfound).trans (links_grows finish rest a' hrest (hu.links hv))
termination_by 8 * ts.length + 2

theorem links_grows (finish : Nat) (ts : List Token) (a : Attempts) {u : List Kind}
    (h : Stands all u ts)
    (hu : Awaits u IsLinks) : Grows all finish a (links finish ts a).1 := by
  rw [links]
  have hop := operator_grows h finish .arithmetic hu.viable_arithmetic arithmeticOps a
  split
  · next hnone => exact hop.of_eq hnone
  · next a' op hfound =>
    have ha := hop.of_eq hfound
    obtain ⟨s, hts⟩ := operator_eq_some (congrArg Trial.found hfound)
    obtain ⟨op, right, hshorter⟩ := op
    dsimp only at hts
    rw [hts] at h
    have hoperand := operand_grows finish right a' h.token (hu.link op).operand
    dsimp only
    split
    · next hnone => exact ha.trans (hoperand.of_eq hnone)
    · next a'' term hfound =>
      obtain ⟨v, hv, hrest⟩ :=
        h.token.operand (operand_sound finish right a' (congrArg Trial.found hfound))
      obtain ⟨t, rest, hshorter'⟩ := term
      have hrestLength : rest.length < right.length := hshorter'
      exact (ha.trans (hoperand.of_eq hfound)).trans
        (links_grows finish rest a'' hrest ((hu.link op).links hv))
termination_by 8 * ts.length + 2

theorem operand_grows (finish : Nat) (ts : List Token) (a : Attempts) {u : List Kind}
    (h : Stands all u ts)
    (hu : Awaits u IsOperand) : Grows all finish a (operand finish ts a).attempts := by
  rw [operand]
  have hgroup := group_grows finish ts a h hu
  split
  · next hfound => exact hgroup.of_eq hfound
  · next hnone => exact (hgroup.of_eq hnone).trans (atom_grows h finish hu _)
termination_by 8 * ts.length + 1

theorem group_grows (finish : Nat) (ts : List Token) (a : Attempts) {u : List Kind}
    (h : Stands all u ts)
    (hu : Awaits u IsOperand) : Grows all finish a (group finish ts a).attempts := by
  rw [group]
  refine attempt_grows .grouped (h.viableAt finish hu.viable_expression) ?_
  split
  · exact .refl a
  · next opening hopening =>
    obtain ⟨s, rest, hshorter⟩ := opening
    obtain rfl := skip?_eq_some hopening
    have hinner := expression_grows finish rest a h.token hu.inner
    dsimp only
    split
    · next hnone => exact hinner.of_eq hnone
    · next inner hfound =>
      split
      · exact hinner.of_eq hfound
      · exact hinner.of_eq hfound
termination_by 8 * ts.length

end

/-! ### Statements -/

/-- A rule that fails leaves one more attempt where it began, unless others got further. -/
theorem attempt_counts {α : Type} {n offset : Nat} {rule : Rule} {read : Attempts → Trial α n}
    (h : Grows all finish a (read a).attempts) (hnone : attempt rule offset read a = ⟨b, none⟩) :
    offset < b.furthest ∨ b.countAt offset = a.countAt offset + 1 := by
  unfold attempt at hnone
  dsimp only at hnone
  split at hnone
  · next hfound => exact absurd ((congrArg Trial.found hnone).symm.trans hfound) nofun
  · obtain rfl : (read a).attempts.fail rule offset a = b := congrArg Trial.attempts hnone
    exact (Attempts.fail_extends h.extends_ rule offset).2

/-- The rest of a statement, read where a statement is awaited. -/
theorem assignment_grows (finish : Nat) (rule : Rule) (hrule : rule.concept = "statement")
    (isSink : Bool) {skip : (ts : List Token) → Option (Found Span ts.length)} {sign : Kind}
    (hsign : sign = .assign ∨ sign = .colon)
    (hskip : ∀ {ts : List Token} {e : Span} {rest : List Token} {hshorter},
      skip ts = some ⟨e, rest, hshorter⟩ → ts = ⟨sign, e⟩ :: rest)
    (h : Stands all u ts) (hu : Awaits u IsStatement) (a : Attempts) :
    Grows all finish a (assignment finish rule isSink skip ts a).attempts ∧
      ∀ b, assignment finish rule isSink skip ts a = ⟨b, none⟩ →
        startOf finish ts < b.furthest ∨
          b.countAt (startOf finish ts) = a.countAt (startOf finish ts) + 1 := by
  have hviable := h.viableAt finish (hrule ▸ hu.viable_statement)
  refine (fun hread => ⟨attempt_grows rule hviable hread, fun b => attempt_counts hread⟩ :
    Grows all finish a _ → _) ?_
  have hname := name_grows h finish hu.viable_assigned a
  split
  · next hnone => exact hname.of_eq hnone
  · next a' n hn =>
    have ha := hname.of_eq hn
    obtain ⟨⟨n, s⟩, rest, _⟩ := n
    obtain rfl := name_eq_some (congrArg Trial.found hn)
    split
    · exact ha
    · next e he =>
      obtain ⟨e, after, _⟩ := e
      obtain rfl := hskip he
      have hafter := h.token.token
      rw [List.append_assoc] at hafter
      have hbody := expression_grows finish after a' hafter (hu.body n hsign)
      split
      · next hnone => exact ha.trans (hbody.of_eq hnone)
      · next hfound => exact ha.trans (hbody.of_eq hfound)

theorem statement_grows (finish : Nat) (h : Stands all u ts) (hu : Awaits u IsStatement)
    (a : Attempts) : Grows all finish a (statement finish ts a).attempts ∧
      ∀ b, statement finish ts a = ⟨b, none⟩ →
        startOf finish ts < b.furthest ∨ 2 ≤ b.countAt (startOf finish ts) := by
  obtain ⟨hgrows, hcounts⟩ := 
    assignment_grows finish .variableAssignment rfl false (.inl rfl) skipAssign?_eq_some h hu a
  unfold statement
  split
  · next hfound => exact ⟨hgrows.of_eq hfound, nofun⟩
  · next a' hnone =>
    obtain ⟨hgrows', hcounts'⟩ := 
      assignment_grows finish .sinkAssignment rfl true (.inr rfl) skip?_eq_some h hu a'
    refine ⟨(hgrows.of_eq hnone).trans hgrows', fun b hb => ?_⟩
    have hfirst := hcounts a' hnone
    have hsecond := hcounts' b hb
    have hextends := (hgrows'.of_eq hb).extends_
    unfold Attempts.Extends at hextends
    omega

theorem Stands.statement {s : WrittenStatement} {rest : List Token} (h : Stands all u ts)
    (hread : DerivesStatement finish ts s rest) :
    ∃ v, IsStatement v ∧ Stands all (u ++ v) rest := by
  cases hread with
  | assign name s e hbody =>
    obtain ⟨v, hv, hrest⟩ := h.token.token.expression hbody
    refine ⟨_, .variable name hv, ?_⟩
    rw [List.append_assoc, List.append_assoc] at hrest
    exact hrest
  | sink name s e hbody =>
    obtain ⟨v, hv, hrest⟩ := h.token.token.expression hbody
    refine ⟨_, .sink name hv, ?_⟩
    rw [List.append_assoc, List.append_assoc] at hrest
    exact hrest

/-- The statements that are read are a program, and what is kept grows; the statement that is not
read any more leaves two attempts at least. -/
theorem statements_grows (finish : Nat) (ts : List Token) (a : Attempts) {u : List Kind}
    (h : Stands all u ts) (hu : IsProgram u) : ∃ v, IsProgram v ∧
      Stands all v (statements finish ts a).2.rest ∧
      Grows all finish a (statements finish ts a).1 ∧
      (startOf finish (statements finish ts a).2.rest < (statements finish ts a).1.furthest ∨
        2 ≤ (statements finish ts a).1.countAt (startOf finish (statements finish ts a).2.rest)) := by
  obtain ⟨hfirst, hcounts⟩ := statement_grows finish h (.statement hu) a
  rw [statements]
  split
  · next a' hnone => exact ⟨u, hu, h, hfirst.of_eq hnone, hcounts a' hnone⟩
  · next a' first hfound =>
    obtain ⟨v, hv, hrest⟩ := h.statement (statement_sound (congrArg Trial.found hfound))
    have hshorter := first.shorter
    obtain ⟨w, hw, hstands, hgrows, hcount⟩ :=
      statements_grows finish first.rest a' hrest (hu.append_statement hv)
    exact ⟨w, hw, hstands, (hfirst.of_eq hfound).trans hgrows, hcount⟩
termination_by ts.length

/--
The furthest attempt of a text that is no program is where a token starts. After the very start it
comes with rules, all of which may come there; at the start it is the program itself that failed.
-/
theorem program_expected (h : program finish ts = .error a) :
    (∃ u rest, Stands ts u rest ∧ startOf finish rest = a.furthest) ∧
      (a = ⟨0, [.program]⟩ ∨ 0 < a.furthest ∧ Expected ts finish a) := by
  obtain ⟨u, hu, hrest, hgrows, hcount⟩ :=
    statements_grows finish ts .start ⟨List.suffix_rfl, rfl⟩ IsProgram.nil
  unfold program at h
  dsimp only at h
  generalize statements finish ts .start = read at *
  split at h
  · exact nomatch h
  · next t after htokens =>
    obtain rfl := Except.error.inj h
    rw [htokens] at hrest hcount
    change t.span.start < _ ∨ 2 ≤ Attempts.countAt _ t.span.start at hcount
    have hviable : ViableAt ts finish Rule.endOfInput.concept t.span.start :=
      hrest.viableAt finish (viable_finish hu)
    have hend : Grows ts finish read.1 (read.1.failToken .endOfInput t.span.start) :=
      (Grows.refl read.1).fail hviable
    have hat : _ < (read.1.failToken .endOfInput t.span.start).furthest ∨
        (read.1.failToken .endOfInput t.span.start).countAt _ = _ :=
      (Attempts.fail_extends (.refl read.1) .endOfInput t.span.start).2
    have hexpected := hend.expected (hgrows.expected (expected_start ts finish))
    have hextends := hend.extends_
    generalize read.1.failToken .endOfInput t.span.start = b at *
    obtain ⟨hfurther, hstart⟩ := Attempts.fail_at_start b .program
    obtain hzero | hpos := Nat.eq_zero_or_pos b.furthest
    · unfold Attempts.Extends Attempts.countAt at *
      have hbefore : read.1.furthest = 0 := by omega
      have hfirst : t.span.start = 0 := by
        obtain hlt | hat := hat
        · omega
        · split at hat <;> omega
      rw [hfirst, if_pos hzero, if_pos hbefore] at hat
      rw [hfirst, if_pos hbefore] at hcount
      rw [hstart hzero (by omega)]
      exact ⟨⟨u, _, hrest, hfirst⟩, .inl rfl⟩
    · rw [hfurther hpos]
      refine ⟨?_, .inr ⟨hpos, hexpected⟩⟩
      obtain ⟨rule, hrule⟩ := List.exists_mem_of_ne_nil _ (hexpected.reason.resolve_left hpos.ne')
      obtain ⟨v, rest, hstands, hstart, -⟩ := hexpected.viable rule hrule
      exact ⟨v, rest, hstands, hstart⟩

end Phrase.Read

end RangeRules
