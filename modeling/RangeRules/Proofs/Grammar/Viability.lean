import RangeRules.Proofs.Grammar.Sentence
import RangeRules.Proofs.Grammar.Soundness
import RangeRules.Proofs.Token.LongestMatch

/-!
# What may come next

The kinds at the start of a program can be gone on with: some written tokens make them a program.
What is awaited after them is told by forms. After the first word of a clause two expressions are
awaited, after an operand further links, and so on down the grammar; and a concept is viable there
if some tokens that show it first can go on to a program.
-/
namespace RangeRules.Grammar

open Token (Kind IsLexeme)
open Peg (IsClause)

/-- Each of the kinds is that of a lexeme. -/
def Spelled (w : List Kind) : Prop := ∀ k ∈ w, ∃ s, IsLexeme s k

/-- Some tokens after them make the kinds a program. -/
def Completable (u : List Kind) : Prop := ∃ w, Spelled w ∧ IsProgram (u ++ w)

/-- The tokens begin with what a reader is told by a concept of the messages. A name begins an
expression too, but it does not tell one from a statement. -/
inductive Shows : String → List Kind → Prop where
  | statement (name : String) (w : List Kind) : Shows "statement" (.name name :: w)
  | identifier (name : String) (w : List Kind) : Shows "identifier" (.name name :: w)
  | number (digits : List Char) (w : List Kind) : Shows "literal" (.number digits :: w)
  | boolean (b : Bool) (w : List Kind) : Shows "literal" (.boolean b :: w)
  | source (w : List Kind) : Shows "source reference" (.keyword .this :: w)
  | operator (op : Operator) (w : List Kind) : Shows "operator" (.operator op :: w)
  | when (w : List Kind) : Shows "`when`" (.keyword .when :: w)
  | otherwise (w : List Kind) : Shows "`otherwise`" (.keyword .otherwise :: w)
  | expression {k : Kind} (hbegins : begins k = true) (hname : ∀ name, k ≠ .name name)
    (w : List Kind) : Shows "expression" (k :: w)
  | finish : Shows "end of input" []

/-- A concept may come next. -/
def Viable (concept : String) (u : List Kind) : Prop :=
  ∃ w, Shows concept w ∧ Spelled w ∧ IsProgram (u ++ w)

/-- What comes first is shown whatever comes after it. -/
theorem Shows.append {concept : String} {k : Kind} {w : List Kind} (h : Shows concept (k :: w))
    (v : List Kind) : Shows concept (k :: w ++ v) := by
  cases h with
  | statement name => exact .statement name _
  | identifier name => exact .identifier name _
  | number digits => exact .number digits _
  | boolean b => exact .boolean b _
  | source => exact .source _
  | operator op => exact .operator op _
  | when => exact .when _
  | otherwise => exact .otherwise _
  | expression hbegins hname => exact .expression hbegins hname _

/-! ### Samples -/

theorem Spelled.nil : Spelled [] := nofun

theorem Spelled.cons {k : Kind} {w : List Kind} (hk : ∃ s, IsLexeme s k) (hw : Spelled w) :
    Spelled (k :: w) := List.forall_mem_cons.2 ⟨hk, hw⟩

theorem Spelled.append {v w : List Kind} (hv : Spelled v) (hw : Spelled w) : Spelled (v ++ w) :=
  List.forall_mem_append.2 ⟨hv, hw⟩

theorem isLexeme_x : ∃ s, IsLexeme s (.name "x") := ⟨['x'], .word rfl nofun⟩

theorem isLexeme_keyword (word : Keyword) : ∃ s, IsLexeme s (.keyword word) := by
  cases word with
  | when => exact ⟨['w', 'h', 'e', 'n'], .word rfl (List.all_eq_true.1 rfl)⟩
  | otherwise =>
    exact ⟨['o', 't', 'h', 'e', 'r', 'w', 'i', 's', 'e'], .word rfl (List.all_eq_true.1 rfl)⟩
  | this => exact ⟨['t', 'h', 'i', 's'], .word rfl (List.all_eq_true.1 rfl)⟩

theorem isLexeme_mark {k : Kind} (h : k ∈ Token.marks.map (·.2.2)) : ∃ s, IsLexeme s k := by
  obtain ⟨⟨c, s, _⟩, hmem, rfl⟩ := List.mem_map.1 h
  exact ⟨c :: s, .mark hmem⟩

theorem isLexeme_operator (op : Operator) : ∃ s, IsLexeme s (.operator op) := by
  refine isLexeme_mark ?_
  obtain op | op := op <;> cases op <;> decide

/-- The shortest literal, an expression by itself. -/
def one : List Kind := [.number ['1']]

theorem spelled_one : Spelled one := .cons ⟨['1'], .whole (List.all_eq_true.1 rfl)⟩ .nil

theorem isOperand_one : IsOperand one := .number _

theorem isArith_one : IsArith one := .mk isOperand_one .nil

theorem isExpression_one : IsExpression one := .arith isArith_one

theorem IsProgram.append_statement {v w : List Kind} (hv : IsProgram v) (hw : IsStatement w) :
    IsProgram (v ++ w) := by
  induction hv with
  | nil =>
    have h := IsProgram.cons hw .nil
    rwa [List.append_nil] at h
  | cons head tail ih =>
    rw [List.append_assoc]
    exact .cons head ih

/-! ### Contexts -/

/-- Whatever has the form may come next. -/
def Awaits (u : List Kind) (form : List Kind → Prop) : Prop := ∀ w, form w → Completable (u ++ w)

/-- A part of what is awaited, between what is now before it and tokens that may follow it. -/
theorem Awaits.part {u : List Kind} {form part : List Kind → Prop} (h : Awaits u form)
    (v : List Kind) (himp : ∀ w, part w → ∃ after, Spelled after ∧ form (v ++ w ++ after)) :
    Awaits (u ++ v) part := by
  intro w hw
  obtain ⟨after, hafter, hform⟩ := himp w hw
  obtain ⟨tail, htail, hprogram⟩ := h _ hform
  refine ⟨after ++ tail, hafter.append htail, ?_⟩
  simpa only [List.append_assoc] using hprogram

/-- A form that may come next goes for those that it includes. -/
theorem Awaits.mono {u : List Kind} {form part : List Kind → Prop} (h : Awaits u form)
    (himp : ∀ w, part w → form w) : Awaits u part := fun w hw => h w (himp w hw)

/-- The first part of what is awaited, with tokens that may follow it. -/
theorem Awaits.first {u : List Kind} {form part : List Kind → Prop} (h : Awaits u form)
    (after : List Kind) (hafter : Spelled after) (himp : ∀ w, part w → form (w ++ after)) :
    Awaits u part := by
  have hpart := h.part [] fun w hw => ⟨after, hafter, himp w hw⟩
  rwa [List.append_nil] at hpart

/-- What is still awaited once a part has come. -/
theorem Awaits.rest {u : List Kind} {form part : List Kind → Prop} (h : Awaits u form)
    (v : List Kind) (himp : ∀ w, part w → form (v ++ w)) : Awaits (u ++ v) part :=
  h.part v fun w hw => ⟨[], .nil, by rw [List.append_nil]; exact himp w hw⟩

/-- A concept is viable where something that shows it is awaited. -/
theorem Awaits.viable {u : List Kind} {form : List Kind → Prop} (h : Awaits u form)
    {concept : String} {k : Kind} {w : List Kind} (hw : form (k :: w))
    (hshows : Shows concept (k :: w)) (hspelled : Spelled (k :: w)) : Viable concept u := by
  obtain ⟨after, hafter, hprogram⟩ := h _ hw
  refine ⟨k :: w ++ after, hshows.append after, hspelled.append hafter, ?_⟩
  rwa [← List.append_assoc]

/-- Clauses, if any, and an `otherwise`. -/
def IsBranches (w : List Kind) : Prop :=
  ∃ v e, (v = [] ∨ IsClauses v) ∧ IsExpression e ∧ w = v ++ .keyword .otherwise :: e

/-- A clause and branches after it. -/
def IsChoice (w : List Kind) : Prop := ∃ v b, IsClause v ∧ IsBranches b ∧ w = v ++ b

def IsPair (w : List Kind) : Prop := ∃ p c, IsExpression p ∧ IsExpression c ∧ w = p ++ c

/-- What is left of a comparison after its left side. -/
def IsCompared (w : List Kind) : Prop :=
  ∃ op v, IsArith v ∧ w = .operator (.comparison op) :: v

def IsOtherwise (w : List Kind) : Prop := ∃ e, IsExpression e ∧ w = .keyword .otherwise :: e

def IsName (w : List Kind) : Prop := ∃ name, w = [.name name]

theorem isBranches_one : IsBranches (.keyword .otherwise :: one) :=
  ⟨[], one, .inl rfl, isExpression_one, rfl⟩

namespace Awaits

variable {u v : List Kind}

section Expressions

theorem choice_of_expression (h : Awaits u IsExpression) : Awaits u IsChoice := by
  refine h.mono ?_
  rintro _ ⟨v, _, hv, ⟨w, e, hw, he, rfl⟩, rfl⟩
  rw [← List.append_assoc]
  exact .choose (hv.append hw) he

theorem choice_of_branches (h : Awaits u IsBranches) : Awaits u IsChoice := by
  refine h.mono ?_
  rintro _ ⟨v, _, hv, ⟨w, e, hw, he, rfl⟩, rfl⟩
  exact ⟨v ++ w, e, .inr (hv.append hw), he, (List.append_assoc ..).symm⟩

theorem clause (h : Awaits u IsChoice) : Awaits u IsClause :=
  h.first _ (.cons (isLexeme_keyword .otherwise) spelled_one)
    fun w hw => ⟨w, _, hw, isBranches_one, rfl⟩

theorem branches (h : Awaits u IsChoice) (hv : IsClause v) : Awaits (u ++ v) IsBranches :=
  h.rest v fun w hw => ⟨v, w, hv, hw, rfl⟩

theorem pair (h : Awaits u IsClause) : Awaits (u ++ [.keyword .when]) IsPair := by
  refine h.rest _ ?_
  rintro _ ⟨p, c, hp, hc, rfl⟩
  exact ⟨p, c, hp, hc, rfl⟩

theorem predicate (h : Awaits u IsPair) : Awaits u IsExpression :=
  h.first one spelled_one fun w hw => ⟨w, one, hw, isExpression_one, rfl⟩

theorem consequent (h : Awaits u IsPair) (hv : IsExpression v) : Awaits (u ++ v) IsExpression :=
  h.rest v fun w hw => ⟨v, w, hv, hw, rfl⟩

theorem otherwise (h : Awaits u IsBranches) : Awaits u IsOtherwise := by
  refine h.mono ?_
  rintro _ ⟨e, he, rfl⟩
  exact ⟨[], e, .inl rfl, he, rfl⟩

theorem value (h : Awaits u IsOtherwise) : Awaits (u ++ [.keyword .otherwise]) IsExpression :=
  h.rest _ fun w hw => ⟨w, hw, rfl⟩

theorem arith (h : Awaits u IsExpression) : Awaits u IsArith := h.mono fun _ => .arith

theorem compared (h : Awaits u IsExpression) (hv : IsArith v) : Awaits (u ++ v) IsCompared := by
  refine h.rest v ?_
  rintro _ ⟨op, w, hw, rfl⟩
  exact .compare op hv hw

theorem right (h : Awaits u IsCompared) (op : Comparison) :
    Awaits (u ++ [.operator (.comparison op)]) IsArith :=
  h.rest _ fun w hw => ⟨op, w, hw, rfl⟩

theorem operand (h : Awaits u IsArith) : Awaits u IsOperand := by
  refine h.mono fun w hw => ?_
  have harith := IsArith.mk hw .nil
  rwa [List.append_nil] at harith

theorem links (h : Awaits u IsArith) (hv : IsOperand v) : Awaits (u ++ v) IsLinks :=
  h.rest v fun _ hw => .mk hv hw

theorem link (h : Awaits u IsLinks) (op : Arithmetic) :
    Awaits (u ++ [.operator (.arithmetic op)]) IsArith := by
  refine h.rest _ fun w hw => ?_
  cases hw with
  | mk head tail =>
    have hlinks := IsLinks.cons op head tail
    exact hlinks

theorem inner (h : Awaits u IsOperand) : Awaits (u ++ [.lparen]) IsExpression := by
  refine h.part _ fun w hw => ⟨[.rparen], .cons (isLexeme_mark (by decide)) .nil, ?_⟩
  exact .group hw

theorem sourceName (h : Awaits u IsOperand) : Awaits (u ++ [.keyword .this, .dot]) IsName := by
  refine h.rest _ ?_
  rintro _ ⟨name, rfl⟩
  exact .source name

end Expressions

theorem statement (h : IsProgram u) : Awaits u IsStatement :=
  fun w hw => ⟨[], .nil, by rw [List.append_nil]; exact h.append_statement hw⟩

theorem body (h : Awaits u IsStatement) (name : String) {sign : Kind}
    (hsign : sign = .assign ∨ sign = .colon) : Awaits (u ++ [.name name, sign]) IsExpression := by
  refine h.rest _ fun w hw => ?_
  obtain rfl | rfl := hsign
  · exact .variable name hw
  · exact .sink name hw

/-! ### Concepts -/

theorem viable_expression (h : Awaits u IsOperand) : Viable "expression" u :=
  h.viable isOperand_one (.expression rfl (by rintro _ ⟨⟩) []) spelled_one

theorem viable_literal (h : Awaits u IsOperand) : Viable "literal" u :=
  h.viable isOperand_one (.number _ []) spelled_one

theorem viable_source (h : Awaits u IsOperand) : Viable "source reference" u :=
  h.viable (.source "x") (.source _) (.cons (isLexeme_keyword .this)
    (.cons (isLexeme_mark (by decide)) (.cons isLexeme_x .nil)))

theorem viable_variable (h : Awaits u IsOperand) : Viable "identifier" u :=
  h.viable (.variable "x") (.identifier "x" []) (.cons isLexeme_x .nil)

theorem viable_name (h : Awaits u IsName) : Viable "identifier" u :=
  h.viable ⟨"x", rfl⟩ (.identifier "x" []) (.cons isLexeme_x .nil)

theorem viable_when (h : Awaits u IsClause) : Viable "`when`" u :=
  h.viable ⟨one, one, isExpression_one, isExpression_one, rfl⟩ (.when _)
    (.cons (isLexeme_keyword .when) (spelled_one.append spelled_one))

theorem viable_otherwise (h : Awaits u IsOtherwise) : Viable "`otherwise`" u :=
  h.viable ⟨one, isExpression_one, rfl⟩ (.otherwise _)
    (.cons (isLexeme_keyword .otherwise) spelled_one)

theorem viable_comparison (h : Awaits u IsCompared) : Viable "operator" u :=
  h.viable ⟨.lt, one, isArith_one, rfl⟩ (.operator _ _) (.cons (isLexeme_operator _) spelled_one)

theorem viable_arithmetic (h : Awaits u IsLinks) : Viable "operator" u :=
  h.viable (.cons .add isOperand_one .nil) (.operator _ _)
    (.cons (isLexeme_operator _) (spelled_one.append .nil))

theorem isStatement_sink : IsStatement (.name "x" :: .colon :: one) := .sink "x" isExpression_one

theorem spelled_sink : Spelled (.name "x" :: .colon :: one) :=
  .cons isLexeme_x (.cons (isLexeme_mark (by decide)) spelled_one)

theorem viable_statement (h : Awaits u IsStatement) : Viable "statement" u :=
  h.viable isStatement_sink (.statement "x" _) spelled_sink

theorem viable_assigned (h : Awaits u IsStatement) : Viable "identifier" u :=
  h.viable isStatement_sink (.identifier "x" _) spelled_sink

end Awaits

theorem viable_finish {u : List Kind} (h : IsProgram u) : Viable "end of input" u :=
  ⟨[], .finish, .nil, by rwa [List.append_nil]⟩

end RangeRules.Grammar
