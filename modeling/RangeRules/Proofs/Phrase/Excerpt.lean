import RangeRules.Proofs.Phrase.Parentheses

/-!
# The tokens of a node

The tokens of a node stand together, and by themselves they spell a phrase with its tree. The place
of the node begins with the first of them and ends with the last. Only a `when` expression outside
parentheses may go further, up to the next token, because it ends where its last value does and
the reader takes the layout after an expression along.
-/
namespace RangeRules

open Text (Span)
open Token (startOf)

mutual

/--
Whether an expression is read up to the next token. A comparison whose right side has operators of
its own is not.
-/
def Phrase.trails : Phrase → Bool
  | .chain _ (.operate (.comparison _) _ (.operate ..)) => false
  | .chain .. => true
  | .choose _ branches => branches.trails

def PhraseBranches.trails : PhraseBranches → Bool
  | .otherwise value => value.trails
  | .clause _ _ rest => rest.trails

end

/-- Whether the layout after an expression belongs to the place of its tree. -/
def Phrase.overruns : Phrase → Bool
  | .chain .. => false
  | .choose _ branches => branches.trails

mutual

theorem Phrase.trails_relocate (g : Relocation) : ∀ x : Phrase, (x.relocate g).trails = x.trails
  | .chain _ top => by
    cases top with
    | operate op left right =>
      cases op with
      | comparison op => cases right <;> rfl
      | arithmetic op => rfl
    | _ => rfl
  | .choose _ branches => branches.trails_relocate g

theorem PhraseBranches.trails_relocate (g : Relocation) : ∀ b : PhraseBranches,
    (b.relocate g).trails = b.trails
  | .otherwise value => value.trails_relocate g
  | .clause _ _ rest => rest.trails_relocate g

end

theorem Phrase.overruns_relocate (g : Relocation) (x : Phrase) :
    (x.relocate g).overruns = x.overruns := by
  cases x with
  | chain span top => rfl
  | choose span branches => exact branches.trails_relocate g

theorem Phrase.trails_of_rank {top : Term} (h : 0 < top.rank) (span : Span) :
    (Phrase.chain span top).trails = true := by
  cases top with
  | operate op left right =>
    cases op with
    | comparison op => exact absurd h (Nat.lt_irrefl 0)
    | arithmetic op => rfl
  | _ => rfl

/-! ### From the first token to the last -/

namespace Phrase

variable {finish : Nat} {ts mid rest : List Token}

theorem startOf_append_cons (finish : Nat) (inside : List Token) (last : Token)
    (rest : List Token) :
    startOf finish (inside ++ last :: rest) = startOf last.span.start inside := by
  cases inside <;> rfl

/-- An operand goes from the first of its tokens to the last. -/
theorem DerivesOperand.exists_last_stop {t : Term} (h : DerivesOperand finish ts t rest) :
    ∃ inside last, ts = inside ++ last :: rest ∧ t.span.stop = last.span.stop := by
  cases h with
  | boolean b s => exact ⟨[], _, rfl, rfl⟩
  | number digits s => exact ⟨[], _, rfl, rfl⟩
  | «variable» name s => exact ⟨[], _, rfl, rfl⟩
  | source name s d n => exact ⟨[⟨.keyword .this, s⟩, ⟨.dot, d⟩], _, rfl, rfl⟩
  | group s c h =>
    obtain ⟨consumed, -, rfl, -⟩ := h.followed
    exact ⟨⟨.lparen, s⟩ :: consumed, ⟨.rparen, c⟩, rfl, rfl⟩

/-- So does the tree of a chain. -/
theorem Spells.exists_last_stop {t : Term} (h : Spells finish ts t.reading rest) :
    t.span.start = startOf finish ts ∧
      ∃ inside last, ts = inside ++ last :: rest ∧ t.span.stop = last.span.stop := by
  induction t using Term.chainInduction generalizing ts rest with
  | operand t ht =>
    have hoperand := h.derivesOperand ht
    exact ⟨hoperand.start_eq, hoperand.exists_last_stop⟩
  | operate op left right ihl ihr =>
    obtain ⟨s, after, hleft, hright⟩ := h.of_operate
    obtain ⟨hstart, -⟩ := ihl hleft
    obtain ⟨-, inside, last, rfl, hstop⟩ := ihr hright
    obtain ⟨first, rfl, -⟩ := hleft.followed
    exact ⟨hstart, first ++ ⟨.operator op, s⟩ :: inside, last, by simp, hstop⟩

mutual

/-- An expression ends with its last token, or where the next one starts. -/
theorem Derives.exists_last_stop {ts rest : List Token} {x : Phrase} : Derives finish ts x rest →
    x.span.start = startOf finish ts ∧ ∃ inside last, ts = inside ++ last :: rest ∧
      x.span.stop = if x.trails then startOf finish rest else last.span.stop
  | .chain head tail => by
    have hspells := Spells.operand head tail.spells
    rw [← Term.reading_resolve head.isOperand tail.isOperand] at hspells
    obtain ⟨-, inside, last, rfl, -⟩ := hspells.exists_last_stop
    have hrank := (Term.respects_resolve head.isOperand tail.isOperand).2
    refine ⟨rfl, inside, last, rfl, ?_⟩
    rw [trails_of_rank hrank]
    rfl
  | @Derives.compare _ ts mid right mid' rest t t' links links' op s head tail head' tail' => by
    have hspells := Spells.operand head' tail'.spells
    have hreading := Term.reading_resolve head'.isOperand tail'.isOperand
    rw [← hreading] at hspells
    obtain ⟨-, inside, last, rfl, hstop⟩ := hspells.exists_last_stop
    obtain ⟨first, -, rfl, -⟩ := head.followed
    obtain ⟨others, rfl, -⟩ := tail.followed
    refine ⟨rfl, first ++ (others ++ ⟨.operator (.comparison op), s⟩ :: inside), last, by simp, ?_⟩
    change Read.comparedStop _ t' links' = _
    unfold Read.comparedStop
    -- The right side has operators of its own exactly if it has links.
    generalize hright : t'.resolve links' = other at hreading hstop
    cases other using Term.chainInduction with
    | operand other hother =>
      rw [hother.reading] at hreading
      obtain rfl : links' = [] := by
        cases links' with
        | nil => rfl
        | cons link links' => exact nomatch (List.cons.inj hreading).2
      rw [if_pos rfl]
      cases other with
      | operate op left right => exact absurd rfl (hother op left right)
      | _ => rfl
    | operate op' left right =>
      have hne : links' ≠ [] := by
        rintro rfl
        exact head'.isOperand op' left right hright
      rw [if_neg hne, hstop]
      rfl
  | .choose s h => by
    obtain ⟨inside, last, hts, hstop⟩ := h.exists_last_stop
    exact ⟨rfl, inside, last, hts, hstop⟩

theorem DerivesBranches.exists_last_stop {ts rest : List Token} {b : PhraseBranches} {stop : Nat} :
    DerivesBranches finish ts b stop rest → ∃ inside last, ts = inside ++ last :: rest ∧
      stop = if b.trails then startOf finish rest else last.span.stop
  | .otherwise s h => by
    obtain ⟨-, inside, last, rfl, hstop⟩ := h.exists_last_stop
    exact ⟨_ :: inside, last, rfl, hstop⟩
  | .clause s hp hc htail => by
    obtain ⟨first, -, rfl, -⟩ := hp.followed
    obtain ⟨second, -, rfl, -⟩ := hc.followed
    obtain ⟨inside, last, rfl, hstop⟩ := htail.exists_last_stop
    exact ⟨⟨.keyword .when, s⟩ :: (first ++ (second ++ inside)), last, by simp, hstop⟩

end

/-- A statement ends as its expression does. -/
theorem DerivesStatement.exists_last_stop {s : WrittenStatement}
    (h : DerivesStatement finish ts s rest) : s.span.start = startOf finish ts ∧
      ∃ inside last, ts = inside ++ last :: rest ∧
        s.span.stop = if s.body.trails then startOf finish rest else last.span.stop := by
  cases h with
  | assign name s e h | sink name s e h =>
    obtain ⟨-, inside, last, rfl, hstop⟩ := h.exists_last_stop
    exact ⟨rfl, _ :: _ :: inside, last, rfl, hstop⟩

end Phrase

/-! ### Nodes -/

open Phrase

/--
The tokens `inside` and `last`, in front of those in `after`, are those of a node: they spell the
phrase `x`, which has its tree, and its place is theirs.
-/
structure Expr.Excerpt (finish : Nat) (n : Expr) (inside : List Token) (last : Token)
    (after : List Token) (x : Phrase) : Prop where
  start : n.span.start = startOf last.span.start inside
  stop : n.span.stop = if x.overruns then startOf finish after else last.span.stop
  derives : Derives finish (inside ++ [last]) x []
  tree : x.tree.relocate .nowhere = n.relocate .nowhere

/-- A node is written among some tokens, by itself in at most so many levels. -/
def Expr.WrittenIn (finish levels : Nat) (n : Expr) (ts : List Token) : Prop :=
  ∃ before inside last after x, ts = before ++ (inside ++ last :: after) ∧
    n.Excerpt finish inside last after x ∧ x.levels ≤ levels

variable {finish : Nat} {n : Expr}

theorem Expr.WrittenIn.after {levels levels' : Nat} {ts : List Token}
    (h : n.WrittenIn finish levels ts) (hle : levels ≤ levels') (first : List Token) :
    n.WrittenIn finish levels' (first ++ ts) := by
  obtain ⟨before, inside, last, after, x, rfl, hexcerpt, hlevels⟩ := h
  exact ⟨first ++ before, inside, last, after, x, (List.append_assoc ..).symm, hexcerpt,
    Nat.le_trans hlevels hle⟩

/-- The tree of a chain is written in the tokens of its row. -/
theorem Term.written_self {ts rest : List Token} {t : Term} (hrespects : t.Respects)
    (h : Spells finish ts t.reading rest) : t.tree.WrittenIn finish (t.levels + 1) ts := by
  obtain ⟨hstart, inside, last, rfl, hstop⟩ := h.exists_last_stop
  obtain ⟨consumed, hconsumed, hfollowed⟩ := h.followed
  rw [List.append_cons] at hconsumed
  obtain rfl := List.append_cancel_right hconsumed
  have halone := hfollowed []
  rw [List.append_nil] at halone
  obtain ⟨span, hchain⟩ := halone.derives hrespects
  rw [startOf_append_cons, ← t.span_tree] at hstart
  rw [← t.span_tree] at hstop
  exact ⟨[], inside, last, rest, .chain span t, rfl, ⟨hstart, hstop, hchain, rfl⟩, Nat.le_refl _⟩

/-- A `when` expression is written in its tokens, with the layout after them. -/
theorem Phrase.written_self {ts rest : List Token} {span : Span} {b : PhraseBranches}
    (h : Derives finish ts (.choose span b) rest) :
    (Phrase.choose span b).tree.WrittenIn finish (b.levels + 1) ts := by
  obtain ⟨hstart, inside, last, rfl, hstop⟩ := h.exists_last_stop
  obtain ⟨consumed, -, hconsumed, hfollowed⟩ := h.followed
  rw [List.append_cons] at hconsumed
  obtain rfl := List.append_cancel_right hconsumed
  obtain ⟨x, halone, hstarts, -⟩ := hfollowed finish []
  rw [List.append_nil] at halone
  rw [startOf_append_cons] at hstart
  have hoverruns : x.overruns = b.trails := by
    rw [← x.overruns_relocate .starts, hstarts, Phrase.overruns_relocate]
    rfl
  refine ⟨[], inside, last, rest, x, rfl, ⟨hstart, ?_, halone, tree_of_starts hstarts⟩, ?_⟩
  · rw [hoverruns]
    exact hstop
  · exact Nat.le_of_eq (levels_of_starts hstarts)

mutual

/-- A node of a chain is written among its tokens. -/
theorem Term.written : ∀ (t : Term) {ts rest : List Token}, t.Respects →
    Spells finish ts t.reading rest → n ∈ t.tree.nodes → n.WrittenIn finish (t.levels + 1) ts
  | .number .., _, _, hrespects, h, hn | .boolean .., _, _, hrespects, h, hn
  | .source .., _, _, hrespects, h, hn | .variable .., _, _, hrespects, h, hn => by
    obtain rfl := List.mem_singleton.1 hn
    exact Term.written_self hrespects h
  | .group span inner, ts, rest, hrespects, h, hn => by
    obtain rfl | hn := Expr.mem_nodes.1 hn
    · exact Term.written_self hrespects h
    · have hinner : n ∈ inner.tree.nodes := by
        rw [Term.tree, Expr.parts_withSpan] at hn
        exact Expr.mem_nodes_of_mem_parts hn
      have hoperand : (Term.group span inner).IsOperand := nofun
      cases h.derivesOperand hoperand with
      | group s c h => exact (inner.written h hinner).after (Nat.le_add_right _ 2) [⟨.lparen, s⟩]
  | .operate op left right, ts, rest, hrespects, h, hn => by
    obtain rfl | hn := Expr.mem_nodes.1 hn
    · exact Term.written_self hrespects h
    · obtain ⟨-, -, -, hl, hr⟩ := hrespects
      obtain ⟨s, after, hleft, hright⟩ := h.of_operate
      rw [Term.levels]
      obtain hn | hn := List.mem_append.1 hn
      · exact (Term.written left hl hleft hn).after (by omega) []
      · obtain ⟨first, rfl, -⟩ := hleft.followed
        rw [List.append_cons]
        exact (Term.written right hr hright hn).after (by omega) _

/-- A node of an expression is written among its tokens, in no more levels than it has. -/
theorem Phrase.written : ∀ (x : Phrase) {ts rest : List Token}, Derives finish ts x rest →
    n ∈ x.tree.nodes → n.WrittenIn finish x.levels ts
  | .chain span top, ts, rest, h, hn => by
    obtain ⟨hspells, hrespects⟩ := h.spells
    exact Term.written top hrespects hspells hn
  | .choose span branches, ts, rest, h, hn => by
    obtain rfl | hn := Expr.mem_nodes.1 hn
    · exact Phrase.written_self h
    · cases h with
      | choose s h => exact (branches.written h hn).after (Nat.le_succ _) []

theorem PhraseBranches.written : ∀ (b : PhraseBranches) {ts rest : List Token} {stop : Nat},
    DerivesBranches finish ts b stop rest → n ∈ b.tree.parts → n.WrittenIn finish b.levels ts
  | .otherwise value, ts, rest, stop, h, hn => by
    cases h with
    | otherwise s h => exact (value.written h hn).after (Nat.le_refl _) [⟨.keyword .otherwise, s⟩]
  | .clause p c tail, ts, rest, stop, h, hn => by
    cases h with
    | clause s hp hc htail =>
      rw [PhraseBranches.levels]
      obtain hn | hn := List.mem_append.1 hn
      · exact (p.written hp hn).after (by omega) [⟨.keyword .when, s⟩]
      obtain ⟨first, -, rfl, -⟩ := hp.followed
      obtain hn | hn := List.mem_append.1 hn
      · exact (c.written hc hn).after (by omega) (⟨.keyword .when, s⟩ :: first)
      obtain ⟨second, -, rfl, -⟩ := hc.followed
      rw [← List.append_assoc, ← List.cons_append]
      exact (tail.written htail hn).after (Nat.le_max_right _ _) _

end

/-- A node of some statements is written among their tokens. -/
theorem Phrase.DerivesStatements.written {ts rest : List Token} {written : List WrittenStatement}
    (h : DerivesStatements finish ts written rest) {s : WrittenStatement} (hs : s ∈ written)
    (hn : n ∈ s.body.tree.nodes) : n.WrittenIn finish s.body.levels ts := by
  induction h with
  | nil => exact nomatch hs
  | cons head tail ih =>
    obtain rfl | hs := List.mem_cons.1 hs
    · cases head with
      | assign name s e h => exact (Phrase.written _ h hn).after (Nat.le_refl _) [_, _]
      | sink name s e h => exact (Phrase.written _ h hn).after (Nat.le_refl _) [_, _]
    · obtain ⟨consumed, rfl, -⟩ := head.followed
      exact (ih hs).after (Nat.le_refl _) consumed

end RangeRules
