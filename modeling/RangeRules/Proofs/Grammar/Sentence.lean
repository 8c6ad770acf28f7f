import RangeRules.Token.Basic

/-!
# Sentences

The context-free grammar of programs, over the kinds of their tokens. Names and reserved words are
of different kinds, so that no rule has to exclude one from the other. Repetition is read as it is
written, from left to right. No expression begins with an operator, which makes the end of an
expression visible in the token after it.
-/
namespace RangeRules.Grammar

open Token (Kind)

mutual

/-- `"(" expression ")" | "true" | "false" | "this" "." IDENT | NUMBER | IDENT` -/
inductive IsOperand : List Kind → Prop where
  | group {w : List Kind} (h : IsExpression w) : IsOperand (.lparen :: (w ++ [.rparen]))
  | boolean (b : Bool) : IsOperand [.boolean b]
  | source (name : String) : IsOperand [.keyword .this, .dot, .name name]
  | number (digits : List Char) : IsOperand [.number digits]
  | variable (name : String) : IsOperand [.name name]

/-- `(arith-op operand)*` -/
inductive IsLinks : List Kind → Prop where
  | nil : IsLinks []
  | cons {v w : List Kind} (op : Arithmetic) (head : IsOperand v) (tail : IsLinks w) :
    IsLinks (.operator (.arithmetic op) :: (v ++ w))

/-- `operand (arith-op operand)*` -/
inductive IsArith : List Kind → Prop where
  | mk {v w : List Kind} (head : IsOperand v) (tail : IsLinks w) : IsArith (v ++ w)

/-- `("when" expression expression)+` -/
inductive IsClauses : List Kind → Prop where
  | single {v w : List Kind} (predicate : IsExpression v) (consequent : IsExpression w) :
    IsClauses (.keyword .when :: (v ++ w))
  | cons {u v w : List Kind} (predicate : IsExpression u) (consequent : IsExpression v)
    (tail : IsClauses w) : IsClauses (.keyword .when :: (u ++ v ++ w))

/-- `choose | binary`, where a binary is `arith (comparison-op arith)?` -/
inductive IsExpression : List Kind → Prop where
  | choose {v w : List Kind} (clauses : IsClauses v) (otherwise : IsExpression w) :
    IsExpression (v ++ .keyword .otherwise :: w)
  | arith {w : List Kind} (h : IsArith w) : IsExpression w
  | compare {v w : List Kind} (op : Comparison) (left : IsArith v) (right : IsArith w) :
    IsExpression (v ++ .operator (.comparison op) :: w)

end

/-- `IDENT "=" expression | IDENT ":" expression` -/
inductive IsStatement : List Kind → Prop where
  | variable {w : List Kind} (name : String) (h : IsExpression w) :
    IsStatement (.name name :: .assign :: w)
  | sink {w : List Kind} (name : String) (h : IsExpression w) :
    IsStatement (.name name :: .colon :: w)

/-- `statement*` -/
inductive IsProgram : List Kind → Prop where
  | nil : IsProgram []
  | cons {v w : List Kind} (head : IsStatement v) (tail : IsProgram w) : IsProgram (v ++ w)

/-- The kinds that an expression may begin with. -/
def begins : Kind → Bool
  | .lparen | .boolean _ | .number _ | .name _ | .keyword .this | .keyword .when => true
  | _ => false

theorem IsOperand.begins {w : List Kind} (h : IsOperand w) :
    ∃ k t, w = k :: t ∧ begins k = true := by
  cases h <;> exact ⟨_, _, rfl, rfl⟩

theorem IsArith.begins {w : List Kind} (h : IsArith w) :
    ∃ k t, w = k :: t ∧ Grammar.begins k = true := by
  cases h with
  | mk head tail =>
    obtain ⟨k, t, rfl, hk⟩ := head.begins
    exact ⟨k, _, rfl, hk⟩

theorem IsClauses.begins {w : List Kind} (h : IsClauses w) : ∃ t, w = .keyword .when :: t := by
  cases h <;> exact ⟨_, rfl⟩

theorem IsExpression.begins {w : List Kind} (h : IsExpression w) :
    ∃ k t, w = k :: t ∧ Grammar.begins k = true := by
  cases h with
  | choose clauses otherwise =>
    obtain ⟨t, rfl⟩ := clauses.begins
    exact ⟨_, _, rfl, rfl⟩
  | arith h => exact h.begins
  | compare op left right =>
    obtain ⟨k, t, rfl, hk⟩ := left.begins
    exact ⟨k, _, rfl, hk⟩

/-- The kinds do not go on with an operator. -/
def Ends (ks : List Kind) : Prop := ∀ op ks', ks ≠ .operator op :: ks'

theorem ends_of_begins {k : Kind} (hk : Grammar.begins k = true) (ks : List Kind) :
    Ends (k :: ks) := by
  rintro op ks' heq
  cases heq
  exact nomatch hk

theorem IsExpression.ends {w : List Kind} (h : IsExpression w) (ks : List Kind) :
    Ends (w ++ ks) := by
  obtain ⟨k, t, rfl, hk⟩ := h.begins
  exact ends_of_begins hk _

theorem IsClauses.ends {w : List Kind} (h : IsClauses w) (ks : List Kind) : Ends (w ++ ks) := by
  obtain ⟨t, rfl⟩ := h.begins
  exact ends_of_begins rfl _

/-- What comes after a statement does not go on with its expression. -/
theorem IsProgram.ends {w : List Kind} (h : IsProgram w) : Ends w := by
  cases h with
  | nil => exact fun _ _ => nofun
  | cons head tail => cases head <;> exact ends_of_begins rfl _

end RangeRules.Grammar
