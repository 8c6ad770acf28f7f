import RangeRules.Proofs.Phrase.Completeness
import RangeRules.Proofs.Phrase.Precedence
import RangeRules.Proofs.Program.Depth
import RangeRules.Proofs.Program.Nodes

/-!
# The chains of a program

Every chain of operators that a program holds, also one within parentheses or in a clause, has a
tree of its own. It is the only tree that lists what is written and keeps products below sums,
operators of one rank from left to right, and a comparison at the top.
-/
namespace RangeRules

open Text (Source Span)

/-! ### How the operators of a tree may stand -/

namespace Term

/-- An operator of a chain's tree with its two sides. -/
structure Joint where
  op : Operator
  left : Term
  right : Term

/-- The operators of a chain's tree, first the one at its top; operands are not entered. -/
def joints : Term → List Joint
  | .operate op left right => ⟨op, left, right⟩ :: (left.joints ++ right.joints)
  | _ => []

/-- The operator at the top, unless the term is an operand. -/
def operator? : Term → Option Operator
  | .operate op _ _ => some op
  | _ => none

/-- The operators of a chain's tree stand as precedence has them. -/
structure Grouped (top : Term) : Prop where
  /-- No sum or difference is an operand of a product or quotient. -/
  products : ∀ j ∈ top.joints, ∀ a b, j.op = .arithmetic a → a.bindsTight = true →
    b.bindsTight = false →
      j.left.operator? ≠ some (.arithmetic b) ∧ j.right.operator? ≠ some (.arithmetic b)
  /-- No operator is the right operand of one of its own rank. -/
  leftToRight : ∀ j ∈ top.joints, ∀ op, j.right.operator? = some op → op.rank ≠ j.op.rank
  /-- A comparison is nowhere but at the top. -/
  comparisons : ∀ j ∈ top.joints.tail, ∃ a, j.op = .arithmetic a

theorem IsOperand.joints {t : Term} (h : t.IsOperand) : t.joints = [] := by
  cases t with
  | operate op left right => exact absurd rfl (h op left right)
  | _ => rfl

theorem rank_of_operator? {t : Term} {op : Operator} (h : t.operator? = some op) :
    t.rank = op.rank := by
  cases t with
  | operate op' left right =>
    obtain rfl := Option.some.inj h
    rfl
  | _ => exact nomatch h

/-- A sum or difference is told by its rank. -/
theorem exists_sum {t : Term} (h : t.rank = 1) :
    ∃ b, b.bindsTight = false ∧ t.operator? = some (.arithmetic b) := by
  cases t using chainInduction with
  | operand t ht =>
    rw [ht.rank] at h
    omega
  | operate op left right =>
    cases op with
    | comparison op => exact absurd h Nat.zero_ne_one
    | arithmetic op =>
      refine ⟨op, ?_, rfl⟩
      by_contra htight
      rw [Bool.not_eq_false] at htight
      rw [rank, Operator.rank, if_pos htight] at h
      omega

theorem operator?_of_rank_lt {t : Term} (h : t.rank < 3) : ∃ op, t.operator? = some op := by
  cases t using chainInduction with
  | operand t ht => exact absurd h (by rw [ht.rank]; exact Nat.lt_irrefl 3)
  | operate op left right => exact ⟨op, rfl⟩

theorem Respects.joint {top : Term} (h : top.Respects) {j : Joint} (hj : j ∈ top.joints) :
    (Term.operate j.op j.left j.right).Respects := by
  induction top using chainInduction with
  | operand t ht =>
    rw [ht.joints] at hj
    exact nomatch hj
  | operate op left right ihl ihr =>
    obtain rfl | hj := List.mem_cons.1 hj
    · exact h
    · obtain ⟨-, -, -, hl, hr⟩ := h
      exact (List.mem_append.1 hj).elim (ihl hl) (ihr hr)

/-- Below an operator of positive rank there is no comparison. -/
theorem Respects.arithmetic_of_mem {top : Term} (h : top.Respects) (hrank : 0 < top.rank)
    {j : Joint} (hj : j ∈ top.joints) : ∃ a, j.op = .arithmetic a := by
  induction top using chainInduction with
  | operand t ht =>
    rw [ht.joints] at hj
    exact nomatch hj
  | operate op left right ihl ihr =>
    obtain ⟨-, hl, hlt, hleft, hright⟩ := h
    obtain rfl | hj := List.mem_cons.1 hj
    · cases op with
      | arithmetic a => exact ⟨a, rfl⟩
      | comparison c => exact absurd hrank (Nat.lt_irrefl 0)
    · obtain hj | hj := List.mem_append.1 hj
      · exact ihl hleft hl hj
      · exact ihr hright (Nat.lt_of_le_of_lt (Nat.zero_le _) hlt) hj

theorem Respects.grouped {top : Term} (h : top.Respects) : top.Grouped where
  products := by
    intro j hj a b hop htight hloose
    obtain ⟨hle, -, hlt, -, -⟩ := h.joint hj
    have htwo : j.op.rank = 2 := by simp [hop, Operator.rank, htight]
    have hone : (Operator.arithmetic b).rank = 1 := by simp [Operator.rank, hloose]
    constructor
    · intro hsum
      have hrank := rank_of_operator? hsum
      omega
    · intro hsum
      have hrank := rank_of_operator? hsum
      omega
  leftToRight := by
    intro j hj op hop
    obtain ⟨-, -, hlt, -, -⟩ := h.joint hj
    have hrank := rank_of_operator? hop
    omega
  comparisons := by
    intro j hj
    cases top using chainInduction with
    | operand t ht =>
      rw [ht.joints] at hj
      exact absurd hj List.not_mem_nil
    | operate op left right =>
      obtain ⟨-, hl, hlt, hleft, hright⟩ := h
      obtain hj | hj := List.mem_append.1 hj
      · exact hleft.arithmetic_of_mem hl hj
      · exact hright.arithmetic_of_mem (Nat.lt_of_le_of_lt (Nat.zero_le _) hlt) hj

/-- What is grouped below an operator is grouped in itself. -/
theorem Grouped.mono {top part : Term} (h : top.Grouped)
    (hsubset : part.joints ⊆ top.joints.tail) : part.Grouped where
  products := fun j hj => h.products j (List.mem_of_mem_tail (hsubset hj))
  leftToRight := fun j hj => h.leftToRight j (List.mem_of_mem_tail (hsubset hj))
  comparisons := fun j hj => h.comparisons j (hsubset (List.mem_of_mem_tail hj))

/-- A tree below an operator has no comparison at its top. -/
theorem rank_pos_of_joints {t : Term} (h : ∀ j ∈ t.joints, ∃ a, j.op = .arithmetic a) :
    0 < t.rank := by
  by_contra hrank
  obtain ⟨op, left, right, rfl⟩ := exists_comparison hrank
  exact nomatch (h _ List.mem_cons_self).choose_spec

theorem Grouped.respects {top : Term} (h : top.Grouped) : top.Respects := by
  induction top using chainInduction with
  | operand t ht => exact ht.respects
  | operate op left right ihl ihr =>
    have hleft : left.joints ⊆ (Term.operate op left right).joints.tail :=
      List.subset_append_left ..
    have hright : right.joints ⊆ (Term.operate op left right).joints.tail :=
      List.subset_append_right ..
    have hl := rank_pos_of_joints fun j hj => h.comparisons j (hleft hj)
    have hr := rank_pos_of_joints fun j hj => h.comparisons j (hright hj)
    have hproducts := h.products ⟨op, left, right⟩ List.mem_cons_self
    have hother := h.leftToRight ⟨op, left, right⟩ List.mem_cons_self
    have hsame : right.rank ≠ op.rank := by
      intro heq
      have hlt : right.rank < 3 := heq ▸ Nat.lt_succ_of_le op.rank_le_two
      obtain ⟨op', hop'⟩ := operator?_of_rank_lt hlt
      exact hother op' hop' ((rank_of_operator? hop').symm.trans heq)
    have hloose : op.rank = 2 → left.rank ≠ 1 ∧ right.rank ≠ 1 := by
      intro htwo
      obtain ⟨a, rfl⟩ : ∃ a, op = .arithmetic a := by
        cases op with
        | comparison c => exact absurd htwo (Nat.succ_ne_zero 1).symm
        | arithmetic a => exact ⟨a, rfl⟩
      have htight : a.bindsTight = true := by
        by_contra hsum
        rw [Operator.rank, if_neg hsum] at htwo
        omega
      constructor
      · intro hone
        obtain ⟨b, hb, hsum⟩ := exists_sum hone
        exact (hproducts a b rfl htight hb).1 hsum
      · intro hone
        obtain ⟨b, hb, hsum⟩ := exists_sum hone
        exact (hproducts a b rfl htight hb).2 hsum
    have hranks := op.rank_le_two
    exact ⟨by omega, hl, by omega, ihl (h.mono hleft), ihr (h.mono hright)⟩

end Term

/-! ### The chains of an expression -/

/-- Operands and operators take turns, an operand being the first and the last. -/
inductive Alternates : Row → Prop where
  | operand (t : Term) : Alternates [.inl t]
  | link {row : Row} (t : Term) (op : Operator) (tail : Alternates row) :
    Alternates (.inl t :: .inr op :: row)

theorem Alternates.append {row row' : Row} (op : Operator) (h : Alternates row)
    (h' : Alternates row') : Alternates (row ++ .inr op :: row') := by
  induction h with
  | operand t => exact .link t op h'
  | link t op' tail ih => exact .link t op' ih

theorem Term.alternates_reading (t : Term) : Alternates t.reading := by
  induction t using chainInduction with
  | operand t ht =>
    rw [ht.reading]
    exact .operand t
  | operate op left right ihl ihr => exact ihl.append op ihr

mutual

/-- The trees of the chains within the operands of a chain. -/
def Term.chains : Term → List Term
  | .group _ inner => inner.chains
  | .operate _ left right => left.chains ++ right.chains
  | _ => []

/-- The trees of all chains of an expression. -/
def Phrase.chains : Phrase → List Term
  | .chain _ top => top :: top.chains
  | .choose _ branches => branches.chains

def PhraseBranches.chains : PhraseBranches → List Term
  | .otherwise value => value.chains
  | .clause p c rest => p.chains ++ (c.chains ++ rest.chains)

end

@[simp]
theorem Expr.withSpan_span (e : Expr) : e.withSpan e.span = e := by
  cases e <;> rfl

theorem Expr.mem_nodes_withSpan {e n : Expr} (h : n ∈ e.nodes) (s : Span) :
    ∃ span, n.withSpan span ∈ (e.withSpan s).nodes := by
  obtain rfl | h := Expr.mem_nodes.1 h
  · exact ⟨s, Expr.self_mem_nodes _⟩
  · refine ⟨n.span, Expr.mem_nodes_of_mem_parts ?_⟩
    rw [Expr.withSpan_span, Expr.parts_withSpan]
    exact h

@[simp]
theorem Expr.withSpan_withSpan (s s' : Span) (e : Expr) :
    (e.withSpan s).withSpan s' = e.withSpan s' := by
  cases e <;> rfl

mutual

/-- The tree of a chain is a node, whose place may take in the parentheses around it. -/
theorem Term.tree_mem_nodes {top : Term} : ∀ t : Term, top ∈ t.chains →
    ∃ span, top.tree.withSpan span ∈ t.tree.nodes
  | .group s inner, h => by
    obtain ⟨span, hmem⟩ := inner.tree_mem_nodes h
    obtain ⟨span', hmem'⟩ := Expr.mem_nodes_withSpan hmem s
    rw [Expr.withSpan_withSpan] at hmem'
    exact ⟨span', hmem'⟩
  | .operate op left right, h => by
    obtain h | h := List.mem_append.1 h
    · obtain ⟨span, hmem⟩ := Term.tree_mem_nodes left h
      exact ⟨span, Expr.nodes_left_subset _ op _ _ hmem⟩
    · obtain ⟨span, hmem⟩ := Term.tree_mem_nodes right h
      exact ⟨span, Expr.nodes_right_subset _ op _ _ hmem⟩

theorem Phrase.tree_mem_nodes {top : Term} : ∀ x : Phrase, top ∈ x.chains →
    ∃ span, top.tree.withSpan span ∈ x.tree.nodes
  | .chain s t, h => by
    obtain rfl | h := List.mem_cons.1 h
    · refine ⟨top.tree.span, ?_⟩
      rw [Expr.withSpan_span]
      exact Expr.self_mem_nodes _
    · exact Term.tree_mem_nodes t h
  | .choose s branches, h => by
    obtain ⟨span, hmem⟩ := branches.tree_mem_parts h
    exact ⟨span, Expr.parts_choose_subset s _ hmem⟩

theorem PhraseBranches.tree_mem_parts {top : Term} : ∀ b : PhraseBranches, top ∈ b.chains →
    ∃ span, top.tree.withSpan span ∈ b.tree.parts
  | .otherwise value, h => value.tree_mem_nodes h
  | .clause p c rest, h => by
    obtain h | h := List.mem_append.1 h
    · obtain ⟨span, hmem⟩ := p.tree_mem_nodes h
      exact ⟨span, Branches.nodes_predicate_subset _ c.tree rest.tree hmem⟩
    · obtain h | h := List.mem_append.1 h
      · obtain ⟨span, hmem⟩ := c.tree_mem_nodes h
        exact ⟨span, Branches.nodes_consequent_subset p.tree _ rest.tree hmem⟩
      · obtain ⟨span, hmem⟩ := rest.tree_mem_parts h
        exact ⟨span, Branches.parts_rest_subset p.tree c.tree _ hmem⟩

end

/-! ### Where a chain is written -/

namespace Phrase

/-- The tokens do not end with an operator. -/
def Starts (ts : List Token) : Prop := ∀ before op s, ts ≠ before ++ [⟨.operator op, s⟩]

theorem starts_snoc (before : List Token) {k : Token.Kind} (s : Span)
    (h : ∀ op, k ≠ .operator op) : Starts (before ++ [⟨k, s⟩]) := by
  intro before' op s' heq
  obtain ⟨-, hlast⟩ := List.append_inj' heq rfl
  injection hlast with hhead
  injection hhead with hkind
  exact h op hkind

/--
Among some tokens there is a chain that has the given row. It is all of the chain: no operator
stands before or after it.
-/
def WritesChain (finish : Nat) (tokens : List Token) (row : Row) : Prop :=
  ∃ before ts rest, tokens = before ++ ts ∧ Starts before ∧ Spells finish ts row rest ∧ Ends rest

theorem DerivesOperand.exists_last {finish : Nat} {ts rest : List Token} {t : Term}
    (h : DerivesOperand finish ts t rest) :
    ∃ before k s, ts = before ++ [⟨k, s⟩] ++ rest ∧ ∀ op, k ≠ .operator op := by
  cases h with
  | boolean b s => exact ⟨[], _, s, rfl, by simp⟩
  | number digits s => exact ⟨[], _, s, rfl, by simp⟩
  | «variable» name s => exact ⟨[], _, s, rfl, by simp⟩
  | source name s d n =>
    exact ⟨[⟨.keyword .this, s⟩, ⟨.dot, d⟩], .name name, n, rfl, by simp⟩
  | group s c h =>
    obtain ⟨consumed, -, rfl, -⟩ := h.followed
    exact ⟨⟨.lparen, s⟩ :: consumed, .rparen, c, by simp, by simp⟩

theorem DerivesLinks.exists_last {finish : Nat} {ts rest : List Token} {links : Links}
    (h : DerivesLinks finish ts links rest) : ts = rest ∨
      ∃ before k s, ts = before ++ [⟨k, s⟩] ++ rest ∧ ∀ op, k ≠ .operator op := by
  induction links generalizing ts with
  | nil =>
    cases h
    exact .inl rfl
  | cons link links ih =>
    cases h with
    | cons op s head tail =>
      obtain rfl | ⟨before, k, s', rfl, hk⟩ := ih tail
      · obtain ⟨before, k, s', rfl, hk⟩ := head.exists_last
        exact .inr ⟨_ :: before, k, s', rfl, hk⟩
      · obtain ⟨consumed, -, rfl, -⟩ := head.followed
        exact .inr ⟨⟨.operator (.arithmetic op), s⟩ :: (consumed ++ before), k, s', by simp, hk⟩

theorem exists_last_of_links {finish : Nat} {ts mid rest : List Token} {t : Term} {links : Links}
    (head : DerivesOperand finish ts t mid) (tail : DerivesLinks finish mid links rest) :
    ∃ before k s, ts = before ++ [⟨k, s⟩] ++ rest ∧ ∀ op, k ≠ .operator op := by
  obtain rfl | ⟨before, k, s, rfl, hk⟩ := tail.exists_last
  · exact head.exists_last
  · obtain ⟨consumed, -, rfl, -⟩ := head.followed
    exact ⟨consumed ++ before, k, s, by simp, hk⟩

mutual

/-- An expression does not end with an operator. -/
theorem Derives.exists_last {finish : Nat} {ts rest : List Token} {x : Phrase} :
    Derives finish ts x rest →
      ∃ before k s, ts = before ++ [⟨k, s⟩] ++ rest ∧ ∀ op, k ≠ .operator op
  | .chain head tail => exists_last_of_links head tail
  | .compare op s head tail head' tail' => by
    obtain ⟨first, -, rfl, -⟩ := head.followed
    obtain ⟨others, rfl, -⟩ := tail.followed
    obtain ⟨before, k, s', rfl, hk⟩ := exists_last_of_links head' tail'
    exact ⟨first ++ others ++ ⟨.operator (.comparison op), s⟩ :: before, k, s', by simp, hk⟩
  | .choose s h => h.exists_last

theorem DerivesBranches.exists_last {finish : Nat} {ts rest : List Token}
    {branches : PhraseBranches} {stop : Nat} : DerivesBranches finish ts branches stop rest →
      ∃ before k s, ts = before ++ [⟨k, s⟩] ++ rest ∧ ∀ op, k ≠ .operator op
  | .otherwise s h => by
    obtain ⟨before, k, s', rfl, hk⟩ := h.exists_last
    exact ⟨_ :: before, k, s', rfl, hk⟩
  | .clause s hp hc htail => by
    obtain ⟨first, -, rfl, -⟩ := hp.followed
    obtain ⟨second, -, rfl, -⟩ := hc.followed
    obtain ⟨before, k, s', rfl, hk⟩ := htail.exists_last
    exact ⟨⟨.keyword .when, s⟩ :: (first ++ second ++ before), k, s', by simp, hk⟩

end

end Phrase

open Phrase

mutual

/-- The chains within the operands of a chain are written among its tokens. -/
theorem Term.writes_chains {finish : Nat} : ∀ (t : Term) {before ts rest : List Token},
    t.Respects → Spells finish ts t.reading rest → ∀ top ∈ t.chains,
      top.Respects ∧ WritesChain finish (before ++ ts) top.reading
  | .number .., _, _, _, _, _, _, htop | .boolean .., _, _, _, _, _, _, htop
  | .source .., _, _, _, _, _, _, htop | .variable .., _, _, _, _, _, _, htop => nomatch htop
  | .group s inner, before, ts, rest, _, h, top, htop => by
    have hoperand : (Term.group s inner).IsOperand := nofun
    cases h.derivesOperand hoperand with
    | group s c h =>
      have hparen : ∀ op, Token.Kind.lparen ≠ .operator op := fun _ => nofun
      rw [List.append_cons]
      exact inner.writes_chains (starts_snoc before s hparen) h
        (ends_cons fun _ => nofun) top htop
  | .operate op left right, before, ts, rest, hrespects, h, top, htop => by
    obtain ⟨-, -, -, hl, hr⟩ := hrespects
    obtain ⟨s, after, hleft, hright⟩ := h.of_operate
    obtain htop | htop := List.mem_append.1 htop
    · exact Term.writes_chains left hl hleft top htop
    · obtain ⟨consumed, rfl, -⟩ := hleft.followed
      rw [List.append_cons, ← List.append_assoc]
      exact Term.writes_chains right hr hright top htop

/-- Each chain of an expression is written among its tokens, up to where it ends. -/
theorem Phrase.writes_chains {finish : Nat} : ∀ (x : Phrase) {before ts rest : List Token},
    Starts before → Derives finish ts x rest → Ends rest → ∀ top ∈ x.chains,
      top.Respects ∧ WritesChain finish (before ++ ts) top.reading
  | .chain s t, before, ts, rest, hstarts, h, hends, top, htop => by
    obtain ⟨hspells, hrespects⟩ := h.spells
    obtain rfl | htop := List.mem_cons.1 htop
    · exact ⟨hrespects, before, ts, rest, rfl, hstarts, hspells, hends⟩
    · exact Term.writes_chains t hrespects hspells top htop
  | .choose s branches, before, ts, rest, _, h, hends, top, htop => by
    cases h with
    | choose s h => exact branches.writes_chains h hends top htop

theorem PhraseBranches.writes_chains {finish : Nat} : ∀ (b : PhraseBranches)
    {before ts rest : List Token} {stop : Nat}, DerivesBranches finish ts b stop rest →
    Ends rest → ∀ top ∈ b.chains,
      top.Respects ∧ WritesChain finish (before ++ ts) top.reading
  | .otherwise value, before, ts, rest, stop, h, hends, top, htop => by
    cases h with
    | otherwise s h =>
      have hword : ∀ op, Token.Kind.keyword .otherwise ≠ .operator op := fun _ => nofun
      rw [List.append_cons]
      exact value.writes_chains (starts_snoc before s hword) h hends top htop
  | .clause p c branches, before, ts, rest, stop, h, hends, top, htop => by
    cases h with
    | clause s hp hc htail =>
      have hword : ∀ op, Token.Kind.keyword .when ≠ .operator op := fun _ => nofun
      rw [List.append_cons]
      obtain htop | htop := List.mem_append.1 htop
      · exact p.writes_chains (starts_snoc before s hword) hp hc.ends top htop
      · obtain ⟨first, k, s', rfl, hk⟩ := hp.exists_last
        rw [← List.append_assoc, ← List.append_assoc]
        obtain htop | htop := List.mem_append.1 htop
        · exact c.writes_chains (starts_snoc _ s' hk) hc htail.ends top htop
        · obtain ⟨second, -, rfl, -⟩ := hc.followed
          rw [← List.append_assoc]
          exact branches.writes_chains htail hends top htop

end

theorem Phrase.DerivesStatements.writes_chains {finish : Nat} {before ts : List Token}
    {written : List WrittenStatement} (h : DerivesStatements finish ts written []) :
    ∀ s ∈ written, ∀ top ∈ s.body.chains,
      top.Respects ∧ WritesChain finish (before ++ ts) top.reading := by
  induction written generalizing before ts with
  | nil => exact nofun
  | cons s written ih =>
    cases h with
    | cons head tail =>
      obtain ⟨consumed, hts, -⟩ := head.followed
      refine List.forall_mem_cons.2 ⟨fun top htop => ?_, fun s' hs' top htop => ?_⟩
      · cases head with
        | assign name s e h =>
          have hsign : ∀ op, Token.Kind.assign ≠ .operator op := fun _ => nofun
          rw [List.append_cons, List.append_cons]
          exact Phrase.writes_chains _ (starts_snoc _ e hsign) h tail.ends top htop
        | sink name s e h =>
          have hsign : ∀ op, Token.Kind.colon ≠ .operator op := fun _ => nofun
          rw [List.append_cons, List.append_cons]
          exact Phrase.writes_chains _ (starts_snoc _ e hsign) h tail.ends top htop
      · rw [hts, ← List.append_assoc]
        exact ih tail s' hs' top htop

/--
Every chain of an accepted program, wherever it stands, is a row of operands and operators in turn
that is written in the text, with no further operator before or after it. Its tree is a node of the
program, lists just this row, groups it as precedence has it, and is the only tree that does both.
-/
theorem Program.chain_trees {limit : Nat} {source : Source} {p : Program}
    (h : parseWithin limit source = .ok p) :
    ∃ written, read source = .ok written ∧ p.statements = written.map (·.tree) ∧
      ∀ s ∈ written, ∀ top ∈ s.body.chains,
        (∃ span, top.tree.withSpan span ∈ p.nodes) ∧
        ∃ row, Alternates row ∧
          WritesChain (Token.Sequence.of source).finish (Token.Sequence.of source).tokens row ∧
          top.reading = row ∧ top.Grouped ∧
          ∀ other : Term, other.reading = row → other.Grouped → other = top := by
  obtain ⟨written, hread, -, rfl⟩ := parseWithin_eq_ok.1 h
  refine ⟨written, hread, rfl, fun s hs top htop => ⟨?_, top.reading, ?_⟩⟩
  · obtain ⟨span, hnode⟩ := Phrase.tree_mem_nodes s.body htop
    refine ⟨span, List.mem_flatMap.2 ⟨s.tree, List.mem_map_of_mem hs, ?_⟩⟩
    rw [s.body_tree]
    exact hnode
  · obtain ⟨hrespects, hwritten⟩ := @DerivesStatements.writes_chains _ [] _ _
      (Read.program_eq_ok.1 hread) s hs top htop
    refine ⟨top.alternates_reading, hwritten, rfl, hrespects.grouped, fun other hsame hother => ?_⟩
    exact hother.respects.unique hrespects hsame

namespace Chains

/-- A comparison of two chains, with a chain of differences in parentheses. -/
def mixed : Source := "z: 1 + this.a * 2 / (3 - 4 - 5) - 6 < 7 * 8 + 9".toList

end Chains

theorem Program.chain_trees_mixed : ∃ (p : Program) (written : List WrittenStatement),
    parseWithin 16 Chains.mixed = .ok p ∧ p.statements = written.map (·.tree) ∧
      (written.flatMap fun s => s.body.chains.map fun top =>
        top.joints.map fun j => j.op.symbol) =
          [["<", "-", "+", "/", "*", "+", "*"], ["-", "-"]] ∧
      ∀ s ∈ written, ∀ top ∈ s.body.chains, top.Grouped := by
  have hparse : (parseWithin 16 Chains.mixed).toOption.isSome = true := by
    decide +kernel
  have hchains : ((Program.read Chains.mixed).toOption.map fun written =>
      written.flatMap fun s => s.body.chains.map fun top =>
        top.joints.map fun j => j.op.symbol) =
          some [["<", "-", "+", "/", "*", "+", "*"], ["-", "-"]] := by
    decide +kernel
  obtain ⟨p, hp⟩ := Option.isSome_iff_exists.1 hparse
  obtain ⟨written, hread, hstatements, hall⟩ := Program.chain_trees (ok_of_toOption hp)
  rw [hread] at hchains
  refine ⟨p, written, ok_of_toOption hp, hstatements, Option.some.inj hchains,
    fun s hs top htop => ?_⟩
  obtain ⟨-, row, -, -, -, hgrouped, -⟩ := hall s hs top htop
  exact hgrouped

end RangeRules
