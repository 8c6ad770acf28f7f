import RangeRules.Proofs.Phrase.Consumption

/-!
# The tree of a chain

A chain is a row of operands with operators between them, and its tree lists them in the same
order. Precedence says where each operator of a tree may stand. That leaves one tree for each row:
the operator at the top has the lowest rank, and of several it is the last one. Resolving a chain
yields a tree that precedence allows, and therefore the only one. So an expression that is a chain
can be told from its row alone, however its operators are grouped.
-/
namespace RangeRules

open Text (Span)

/-- The rank of an operator: of two in one chain, the one of higher rank binds tighter. -/
def Operator.rank : Operator → Nat
  | .comparison _ => 0
  | .arithmetic op => if op.bindsTight then 2 else 1

theorem Operator.rank_le_two (op : Operator) : op.rank ≤ 2 := by
  cases op with
  | comparison op => exact Nat.zero_le 2
  | arithmetic op => cases op <;> decide

/-- The row of a chain: its operands, and the operators between them. -/
abbrev Row := List (Term ⊕ Operator)

namespace Term

/-- The term is an operand of a chain. -/
def IsOperand (t : Term) : Prop := ∀ op left right, t ≠ .operate op left right

/-- The operands and operators of a chain's tree in order; operands are not entered. -/
def reading : Term → Row
  | .operate op left right => left.reading ++ .inr op :: right.reading
  | operand => [.inl operand]

/-- The rank of the operator at the top; an operand binds tighter than any operator. -/
def rank : Term → Nat
  | .operate op _ _ => op.rank
  | _ => 3

/--
Each operator binds no tighter than what it has on its left, and less tight than what it has on its
right. No comparison is an operand of an operator.
-/
def Respects : Term → Prop
  | .operate op left right =>
    op.rank ≤ left.rank ∧ 0 < left.rank ∧ op.rank < right.rank ∧ left.Respects ∧ right.Respects
  | _ => True

/-- Induction on the tree of a chain, whose operands are not entered. -/
@[elab_as_elim]
theorem chainInduction {motive : Term → Prop} (operand : ∀ t : Term, t.IsOperand → motive t)
    (operate : ∀ op left right, motive left → motive right →
      motive (.operate op left right)) : ∀ t, motive t
  | .operate op left right =>
    operate op left right (chainInduction operand operate left)
      (chainInduction operand operate right)
  | .number .. => operand _ nofun
  | .boolean .. => operand _ nofun
  | .source .. => operand _ nofun
  | .variable .. => operand _ nofun
  | .group .. => operand _ nofun

@[simp]
theorem reading_operate (op : Operator) (left right : Term) :
    (Term.operate op left right).reading = left.reading ++ .inr op :: right.reading := rfl

namespace IsOperand

variable {t : Term} (h : t.IsOperand)
include h

theorem reading : t.reading = [.inl t] := by
  cases t with
  | operate op left right => exact absurd rfl (h op left right)
  | _ => rfl

theorem rank : t.rank = 3 := by
  cases t with
  | operate op left right => exact absurd rfl (h op left right)
  | _ => rfl

theorem respects : t.Respects := by
  cases t with
  | operate op left right => exact absurd rfl (h op left right)
  | _ => trivial

end IsOperand

theorem exists_comparison {t : Term} (h : ¬ 0 < t.rank) :
    ∃ op left right, t = .operate (.comparison op) left right := by
  cases t using chainInduction with
  | operand t ht => exact absurd (ht.rank ▸ Nat.zero_lt_succ 2) h
  | operate op left right =>
    cases op with
    | comparison op => exact ⟨op, left, right, rfl⟩
    | arithmetic op =>
      refine absurd ?_ h
      rw [rank, Operator.rank]
      split <;> decide

/-! ### One tree for each row -/

theorem one_lt_length_reading_operate (op : Operator) (left right : Term) :
    1 < (Term.operate op left right).reading.length := by
  have hne : ∀ t : Term, t.reading ≠ [] := by
    intro t
    cases t <;> simp [reading]
  have hleft := List.length_pos_iff.2 (hne left)
  rw [reading_operate, List.length_append, List.length_cons]
  omega

/-- No operator of a tree binds less tight than the one at its top. -/
theorem Respects.rank_le {t : Term} (h : t.Respects) {op : Operator} (hop : .inr op ∈ t.reading) :
    t.rank ≤ op.rank := by
  induction t using chainInduction with
  | operand t ht =>
    rw [ht.reading] at hop
    exact nomatch List.mem_singleton.1 hop
  | operate top left right ihl ihr =>
    obtain ⟨hle, -, hlt, hleft, hright⟩ := h
    obtain hmem | hmem := List.mem_append.1 hop
    · exact Nat.le_trans hle (ihl hleft hmem)
    · obtain heq | hmem := List.mem_cons.1 hmem
      · obtain rfl := Sum.inr.inj heq
        exact Nat.le_refl _
      · exact Nat.le_trans (Nat.le_of_lt hlt) (ihr hright hmem)

/-- The operator at the top is told by the row: of the lowest rank, it is the last. -/
theorem Respects.top_unique {op op' : Operator} {left right left' right' : Term}
    (h : (Term.operate op left right).Respects) (h' : (Term.operate op' left' right').Respects)
    {between : Row} (hleft : left'.reading = left.reading ++ between)
    (hright : .inr op :: right.reading = between ++ .inr op' :: right'.reading) : between = [] := by
  cases between with
  | nil => rfl
  | cons item between =>
    obtain ⟨rfl, htail⟩ := List.cons.inj hright
    obtain ⟨-, -, hlt, -, hresp⟩ := h
    obtain ⟨hle, -, -, hresp', -⟩ := h'
    have hmem : .inr op' ∈ right.reading := by
      rw [htail]
      exact List.mem_append_right _ List.mem_cons_self
    have hmem' : .inr op ∈ left'.reading := by
      rw [hleft]
      exact List.mem_append_right _ List.mem_cons_self
    have hother := hresp.rank_le hmem
    have hthis := hresp'.rank_le hmem'
    omega

/-- Trees that respect precedence and read the same are the same. -/
theorem Respects.unique {t t' : Term} (h : t.Respects) (h' : t'.Respects)
    (hsame : t.reading = t'.reading) : t = t' := by
  induction t using chainInduction generalizing t' with
  | operand t ht =>
    cases t' using chainInduction with
    | operand t' ht' =>
      rw [ht.reading, ht'.reading] at hsame
      exact Sum.inl.inj (List.singleton_inj.1 hsame)
    | operate op left right =>
      have hlong := one_lt_length_reading_operate op left right
      rw [← hsame, ht.reading] at hlong
      exact absurd hlong (Nat.lt_irrefl 1)
  | operate op left right ihl ihr =>
    cases t' using chainInduction with
    | operand t' ht' =>
      have hlong := one_lt_length_reading_operate op left right
      rw [hsame, ht'.reading] at hlong
      exact absurd hlong (Nat.lt_irrefl 1)
    | operate op' left' right' =>
      have hsplit : left.reading = left'.reading ∧
          (.inr op :: right.reading : Row) = .inr op' :: right'.reading := by
        obtain ⟨between, hleft, hright⟩ | ⟨between, hleft, hright⟩ :=
          List.append_eq_append_iff.1 hsame
        · obtain rfl := h.top_unique h' hleft hright
          exact ⟨by rw [hleft, List.append_nil], hright⟩
        · obtain rfl := h'.top_unique h hleft hright
          exact ⟨by rw [hleft, List.append_nil], hright.symm⟩
      obtain ⟨-, -, -, hl, hr⟩ := h
      obtain ⟨-, -, -, hl', hr'⟩ := h'
      obtain ⟨hop, hright⟩ := List.cons.inj hsplit.2
      rw [Sum.inr.inj hop, ihl hl hl' hsplit.1, ihr hr hr' hright]

/-! ### Resolving -/

/-- The row of an arithmetic chain after its first operand. -/
def linkRow (links : Links) : Row :=
  links.flatMap fun link => [.inr (.arithmetic link.1), .inl link.2]

/-- What still waits for its right operand is a sum or difference that respects precedence. -/
def WaitsWell (waiting : Option (Term × Arithmetic)) : Prop :=
  ∀ left op, waiting = some (left, op) →
    op.bindsTight = false ∧ left.Respects ∧ 0 < left.rank

theorem respects_complete {waiting : Option (Term × Arithmetic)} {product : Term}
    (hwaiting : WaitsWell waiting) (hproduct : product.Respects) (hrank : 1 < product.rank) :
    (complete waiting product).Respects ∧ 0 < (complete waiting product).rank := by
  cases waiting with
  | none => exact ⟨hproduct, Nat.lt_trans Nat.zero_lt_one hrank⟩
  | some w =>
    obtain ⟨hsum, hleft, hpositive⟩ := hwaiting w.1 w.2 rfl
    have hone : (Operator.arithmetic w.2).rank = 1 := by simp [Operator.rank, hsum]
    refine ⟨⟨?_, hpositive, ?_, hleft, hproduct⟩, ?_⟩
    · rw [hone]
      exact hpositive
    · rw [hone]
      exact hrank
    · exact Nat.lt_of_lt_of_eq Nat.zero_lt_one hone.symm

/-- At each link the sum that waits and the product so far respect precedence. -/
theorem respects_resolveFrom {waiting : Option (Term × Arithmetic)} {product : Term}
    {links : Links} (hwaiting : WaitsWell waiting) (hproduct : product.Respects)
    (hrank : 1 < product.rank) (hlinks : ∀ link ∈ links, link.2.IsOperand) :
    (resolveFrom waiting product links).Respects ∧
      0 < (resolveFrom waiting product links).rank := by
  induction links generalizing waiting product with
  | nil => exact respects_complete hwaiting hproduct hrank
  | cons link rest ih =>
    obtain ⟨op, t⟩ := link
    obtain ⟨ht, hrest⟩ := List.forall_mem_cons.1 hlinks
    dsimp only at ht
    rw [resolveFrom]
    split
    · next htight =>
      have htwo : (Operator.arithmetic op).rank = 2 := by simp [Operator.rank, htight]
      refine ih hwaiting ⟨?_, ?_, ?_, hproduct, ht.respects⟩ ?_ hrest
      · rw [htwo]
        exact hrank
      · omega
      · rw [htwo, ht.rank]
        exact Nat.lt_succ_self 2
      · exact Nat.lt_of_lt_of_eq Nat.one_lt_two htwo.symm
    · next hloose =>
      have hsum := respects_complete hwaiting hproduct hrank
      refine ih (fun left op' heq => ?_) ht.respects (by rw [ht.rank]; decide) hrest
      obtain ⟨rfl, rfl⟩ := Prod.mk.inj (Option.some.inj heq)
      exact ⟨Bool.eq_false_iff.2 hloose, hsum⟩

/-- The tree of an arithmetic chain respects precedence, and has no comparison at its top. -/
theorem respects_resolve {first : Term} {links : Links} (hfirst : first.IsOperand)
    (hlinks : ∀ link ∈ links, link.2.IsOperand) :
    (first.resolve links).Respects ∧ 0 < (first.resolve links).rank := by
  refine respects_resolveFrom (fun _ _ => nofun) hfirst.respects ?_ hlinks
  rw [hfirst.rank]
  decide

/-- Resolving keeps the order. -/
theorem reading_resolveFrom (waiting : Option (Term × Arithmetic)) (product : Term)
    {links : Links} (hlinks : ∀ link ∈ links, link.2.IsOperand) :
    (resolveFrom waiting product links).reading =
      (complete waiting product).reading ++ linkRow links := by
  induction links generalizing waiting product with
  | nil => exact (List.append_nil _).symm
  | cons link rest ih =>
    obtain ⟨op, t⟩ := link
    obtain ⟨ht, hrest⟩ := List.forall_mem_cons.1 hlinks
    have hcons : linkRow ((op, t) :: rest) =
        (.inr (.arithmetic op) :: t.reading) ++ linkRow rest := by
      rw [ht.reading]
      rfl
    rw [resolveFrom, hcons, ← List.append_assoc]
    split
    · rw [ih _ _ hrest]
      cases waiting with
      | none => rfl
      | some w => simp only [complete, reading_operate, List.append_assoc, List.cons_append]
    · rw [ih _ _ hrest]
      rfl

theorem reading_resolve {first : Term} {links : Links} (hfirst : first.IsOperand)
    (hlinks : ∀ link ∈ links, link.2.IsOperand) :
    (first.resolve links).reading = .inl first :: linkRow links := by
  have hall := reading_resolveFrom none first hlinks
  rw [complete, hfirst.reading] at hall
  exact hall

end Term

namespace Phrase

open Term

/-! ### Rows in a text -/

/-- The tokens begin with the operands and operators of a row, and go on with the last argument. -/
inductive Spells (finish : Nat) : List Token → Row → List Token → Prop where
  | nil (ts : List Token) : Spells finish ts [] ts
  | operand {ts mid rest : List Token} {t : Term} {row : Row}
    (head : DerivesOperand finish ts t mid) (tail : Spells finish mid row rest) :
    Spells finish ts (.inl t :: row) rest
  | operator {ts rest : List Token} {row : Row} (op : Operator) (s : Span)
    (tail : Spells finish ts row rest) :
    Spells finish (⟨.operator op, s⟩ :: ts) (.inr op :: row) rest

variable {finish : Nat} {ts mid rest : List Token}

theorem Spells.append {row row' : Row} (h : Spells finish ts row mid)
    (h' : Spells finish mid row' rest) : Spells finish ts (row ++ row') rest := by
  induction h with
  | nil ts => exact h'
  | operand head tail ih => exact .operand head (ih h')
  | operator op s tail ih => exact .operator op s (ih h')

theorem Spells.of_append {row row' : Row} (h : Spells finish ts (row ++ row') rest) :
    ∃ mid, Spells finish ts row mid ∧ Spells finish mid row' rest := by
  induction row generalizing ts with
  | nil => exact ⟨ts, .nil ts, h⟩
  | cons item row ih =>
    cases h with
    | operand head tail =>
      obtain ⟨mid, hrow, hrow'⟩ := ih tail
      exact ⟨mid, .operand head hrow, hrow'⟩
    | operator op s tail =>
      obtain ⟨mid, hrow, hrow'⟩ := ih tail
      exact ⟨mid, .operator op s hrow, hrow'⟩

/-- A row is spelled by the same tokens whatever comes after it. -/
theorem Spells.followed {row : Row} (h : Spells finish ts row rest) :
    ∃ consumed, ts = consumed ++ rest ∧
      ∀ tail, Spells finish (consumed ++ tail) row tail := by
  induction h with
  | nil ts => exact ⟨[], rfl, fun tail => .nil tail⟩
  | operand head tail ih =>
    obtain ⟨first, -, rfl, hhead⟩ := head.followed
    obtain ⟨others, rfl, hothers⟩ := ih
    refine ⟨first ++ others, (List.append_assoc ..).symm, fun after => ?_⟩
    rw [List.append_assoc]
    exact .operand (hhead finish _) (hothers after)
  | operator op s tail ih =>
    obtain ⟨others, rfl, hothers⟩ := ih
    exact ⟨_ :: others, rfl, fun after => .operator op s (hothers after)⟩

/-- The sides of an operator are spelled before and after it. -/
theorem Spells.of_operate {op : Operator} {left right : Term}
    (h : Spells finish ts (Term.operate op left right).reading rest) :
    ∃ s after, Spells finish ts left.reading (⟨.operator op, s⟩ :: after) ∧
      Spells finish after right.reading rest := by
  obtain ⟨mid, hleft, hmid⟩ := h.of_append
  cases hmid with
  | operator op s hright => exact ⟨s, _, hleft, hright⟩

theorem spells_singleton {t : Term} : Spells finish ts [.inl t] rest ↔
    DerivesOperand finish ts t rest := by
  constructor
  · intro h
    cases h with
    | operand head tail =>
      cases tail
      exact head
  · exact fun h => .operand h (.nil rest)

theorem Spells.derivesOperand {t : Term} (ht : t.IsOperand)
    (h : Spells finish ts t.reading rest) : DerivesOperand finish ts t rest := by
  rw [ht.reading] at h
  exact spells_singleton.1 h

theorem DerivesOperand.isOperand {t : Term} (h : DerivesOperand finish ts t rest) :
    t.IsOperand := by
  cases h <;> nofun

theorem DerivesLinks.isOperand {links : Links} (h : DerivesLinks finish ts links rest) :
    ∀ link ∈ links, link.2.IsOperand := by
  induction links generalizing ts with
  | nil => exact List.forall_mem_nil _
  | cons link links ih =>
    cases h with
    | cons op s head tail => exact List.forall_mem_cons.2 ⟨head.isOperand, ih tail⟩

theorem DerivesLinks.spells {links : Links} (h : DerivesLinks finish ts links rest) :
    Spells finish ts (linkRow links) rest := by
  induction links generalizing ts with
  | nil =>
    cases h
    exact .nil _
  | cons link links ih =>
    cases h with
    | cons op s head tail => exact .operator _ s (.operand head (ih tail))

theorem Spells.derivesLinks {links : Links} (h : Spells finish ts (linkRow links) rest) :
    DerivesLinks finish ts links rest := by
  induction links generalizing ts with
  | nil =>
    cases h
    exact .nil _
  | cons link links ih =>
    cases h with
    | operator op s tail =>
      cases tail with
      | operand head tail => exact .cons link.1 s head (ih tail)

/-- The expression is a chain, and its tree is the one that precedence gives its row. -/
theorem Derives.spells {span : Span} {top : Term} (h : Derives finish ts (.chain span top) rest) :
    Spells finish ts top.reading rest ∧ top.Respects := by
  have harith : ∀ {ts mid rest : List Token} {t : Term} {links : Links},
      DerivesOperand finish ts t mid → DerivesLinks finish mid links rest →
      Spells finish ts (t.resolve links).reading rest ∧
        (t.resolve links).Respects ∧ 0 < (t.resolve links).rank := by
    intro ts mid rest t links head tail
    rw [reading_resolve head.isOperand tail.isOperand]
    exact ⟨.operand head tail.spells, respects_resolve head.isOperand tail.isOperand⟩
  cases h with
  | chain head tail =>
    obtain ⟨hspells, hrespects, -⟩ := harith head tail
    exact ⟨hspells, hrespects⟩
  | compare op s head tail head' tail' =>
    obtain ⟨hleft, hrespects, hrank⟩ := harith head tail
    obtain ⟨hright, hrespects', hrank'⟩ := harith head' tail'
    exact ⟨hleft.append (.operator _ s hright),
      Nat.zero_le _, hrank, hrank', hrespects, hrespects'⟩

/-- A row without a comparison is that of an arithmetic chain. -/
theorem exists_links {t : Term} (hops : ∀ op, .inr op ∈ t.reading → 0 < op.rank) :
    ∃ first links, t.reading = .inl first :: linkRow links := by
  induction t using chainInduction with
  | operand t ht => exact ⟨t, [], ht.reading⟩
  | operate op left right ihl ihr =>
    rw [reading_operate] at hops
    obtain ⟨first, links, hleft⟩ := ihl fun op hop => hops op (List.mem_append_left _ hop)
    obtain ⟨first', links', hright⟩ := ihr fun op hop =>
      hops op (List.mem_append_right _ (List.mem_cons_of_mem _ hop))
    have hrank := hops op (List.mem_append_right _ List.mem_cons_self)
    cases op with
    | comparison op => exact absurd hrank (Nat.lt_irrefl 0)
    | arithmetic op =>
      refine ⟨first, links ++ (op, first') :: links', ?_⟩
      rw [reading_operate, hleft, hright]
      simp [linkRow]

/-- A tree without a comparison at its top is derived as an arithmetic chain. -/
theorem Spells.exists_resolve {top : Term} (h : Spells finish ts top.reading rest)
    (hrespects : top.Respects) (hrank : 0 < top.rank) : ∃ t mid links,
      DerivesOperand finish ts t mid ∧ DerivesLinks finish mid links rest ∧
        top = t.resolve links := by
  obtain ⟨t, links, hreading⟩ := exists_links fun op hop =>
    Nat.lt_of_lt_of_le hrank (hrespects.rank_le hop)
  rw [hreading] at h
  cases h with
  | operand head tail =>
    have htail := tail.derivesLinks
    refine ⟨t, _, links, head, htail, hrespects.unique ?_ ?_⟩
    · exact (respects_resolve head.isOperand htail.isOperand).1
    · rw [hreading, reading_resolve head.isOperand htail.isOperand]

/-- A tree that respects precedence is derived from the tokens that spell its row. -/
theorem Spells.derives {top : Term} (h : Spells finish ts top.reading rest)
    (hrespects : top.Respects) : ∃ span, Derives finish ts (.chain span top) rest := by
  by_cases hrank : 0 < top.rank
  · obtain ⟨t, mid, links, head, tail, rfl⟩ := h.exists_resolve hrespects hrank
    exact ⟨_, .chain head tail⟩
  · obtain ⟨op, left, right, rfl⟩ := exists_comparison hrank
    obtain ⟨-, hleft, hright, hl, hr⟩ := hrespects
    obtain ⟨s, after, hspells, hspells'⟩ := h.of_operate
    obtain ⟨t, mid, links, head, tail, rfl⟩ := hspells.exists_resolve hl hleft
    obtain ⟨t', mid', links', head', tail', rfl⟩ := hspells'.exists_resolve hr hright
    exact ⟨_, .compare op s head tail head' tail'⟩

end Phrase

end RangeRules
