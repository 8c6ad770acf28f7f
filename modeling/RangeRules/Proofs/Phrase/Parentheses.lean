import RangeRules.Proofs.Phrase.Precedence

/-!
# Parentheses around a part of a phrase

The tokens of a node stand together, and what is put around them in parentheses is an operand. In a
chain it takes the place of the operators that it holds, which are then an operand of the others,
and precedence allows operands everywhere. So a phrase is read with the same tree, up to places, if
parentheses are put around any node of it; it has at most two levels more.
-/
namespace RangeRules

open Text (Span)
open Token (Ordered startOf)

/-! ### The same tree elsewhere -/

mutual

theorem Expr.relocate_nowhere (g : Relocation) : ∀ e : Expr,
    (e.relocate g).relocate .nowhere = e.relocate .nowhere
  | .number .. | .boolean .. | .variable .. | .source .. => rfl
  | .operate _ op l r =>
    congrArg₂ (Expr.operate ⟨0, 0⟩ op) (l.relocate_nowhere g) (r.relocate_nowhere g)
  | .choose _ branches => congrArg (Expr.choose ⟨0, 0⟩) (branches.relocate_nowhere g)

theorem Branches.relocate_nowhere (g : Relocation) : ∀ b : Branches,
    (b.relocate g).relocate .nowhere = b.relocate .nowhere
  | .otherwise e => congrArg Branches.otherwise (e.relocate_nowhere g)
  | .clause p c rest => by
    rw [Branches.relocate, Branches.relocate, p.relocate_nowhere g, c.relocate_nowhere g,
      rest.relocate_nowhere g, Branches.relocate]

end

theorem Expr.relocate_nowhere_withSpan (s : Span) (e : Expr) :
    (e.withSpan s).relocate .nowhere = e.relocate .nowhere := by
  cases e <;> rfl

/-- The other term has the same tree, up to places, and at most two levels more. -/
structure Term.Alike (t t' : Term) : Prop where
  tree : t'.tree.relocate .nowhere = t.tree.relocate .nowhere
  levels : t'.levels ≤ t.levels + 2

/-- The other phrase has the same tree, up to places, and at most two levels more. -/
structure Phrase.Alike (x x' : Phrase) : Prop where
  tree : x'.tree.relocate .nowhere = x.tree.relocate .nowhere
  levels : x'.levels ≤ x.levels + 2

structure PhraseBranches.Alike (b b' : PhraseBranches) : Prop where
  tree : b'.tree.relocate .nowhere = b.tree.relocate .nowhere
  levels : b'.levels ≤ b.levels + 2

structure WrittenStatement.Alike (s s' : WrittenStatement) : Prop where
  isSink : s'.isSink = s.isSink
  name : s'.name = s.name
  body : s.body.Alike s'.body

theorem Phrase.tree_of_starts {x x' : Phrase} (h : x'.relocate .starts = x.relocate .starts) :
    x'.tree.relocate .nowhere = x.tree.relocate .nowhere := by
  rw [← Expr.relocate_nowhere .starts, ← Phrase.tree_relocate, h, Phrase.tree_relocate,
    Expr.relocate_nowhere]

theorem Phrase.levels_of_starts {x x' : Phrase} (h : x'.relocate .starts = x.relocate .starts) :
    x'.levels = x.levels := by
  rw [← x'.levels_relocate .starts, h, x.levels_relocate]

theorem Phrase.alike_of_starts {x x' : Phrase} (h : x'.relocate .starts = x.relocate .starts) :
    x.Alike x' :=
  ⟨tree_of_starts h, Nat.le_trans (Nat.le_of_eq (levels_of_starts h)) (Nat.le_add_right ..)⟩

theorem PhraseBranches.Alike.refl (b : PhraseBranches) : b.Alike b :=
  ⟨rfl, Nat.le_add_right ..⟩

theorem Term.Alike.refl (t : Term) : t.Alike t :=
  ⟨rfl, Nat.le_add_right ..⟩

theorem Phrase.Alike.refl (x : Phrase) : x.Alike x :=
  ⟨rfl, Nat.le_add_right ..⟩

theorem Phrase.Alike.group {x x' : Phrase} (h : x.Alike x') (s s' : Span) :
    (Term.group s x).Alike (.group s' x') where
  tree := by
    rw [Term.tree, Term.tree, Expr.relocate_nowhere_withSpan, h.tree,
      Expr.relocate_nowhere_withSpan]
  levels := by
    have hx := h.levels
    rw [Term.levels, Term.levels]
    omega

theorem Term.Alike.operate {left left' right right' : Term} (hl : left.Alike left')
    (hr : right.Alike right') (op : Operator) :
    (Term.operate op left right).Alike (.operate op left' right') where
  tree := congrArg₂ (Expr.operate ⟨0, 0⟩ op) hl.tree hr.tree
  levels := by
    have hl := hl.levels
    have hr := hr.levels
    rw [Term.levels, Term.levels]
    omega

theorem Term.Alike.chain {t t' : Term} (h : t.Alike t') (s s' : Span) :
    (Phrase.chain s t).Alike (.chain s' t') where
  tree := h.tree
  levels := Nat.succ_le_succ h.levels

theorem PhraseBranches.Alike.choose {b b' : PhraseBranches} (h : b.Alike b') (s s' : Span) :
    (Phrase.choose s b).Alike (.choose s' b') where
  tree := congrArg (Expr.choose ⟨0, 0⟩) h.tree
  levels := Nat.succ_le_succ h.levels

theorem Phrase.Alike.otherwise {x x' : Phrase} (h : x.Alike x') :
    (PhraseBranches.otherwise x).Alike (.otherwise x') where
  tree := congrArg Branches.otherwise h.tree
  levels := h.levels

theorem Phrase.Alike.clause {p p' c c' : Phrase} {b b' : PhraseBranches} (hp : p.Alike p')
    (hc : c.Alike c') (hb : b.Alike b') :
    (PhraseBranches.clause p c b).Alike (.clause p' c' b') where
  tree := by
    simp only [PhraseBranches.tree, Branches.relocate, hp.tree, hc.tree, hb.tree]
  levels := by
    have hp := hp.levels
    have hc := hc.levels
    have hb := hb.levels
    rw [PhraseBranches.levels, PhraseBranches.levels]
    omega

theorem WrittenStatement.alike_of_starts {s s' : WrittenStatement}
    (h : s'.relocate .starts = s.relocate .starts) : s.Alike s' := by
  obtain ⟨hsink, hname, -, hbody⟩ := WrittenStatement.mk.inj h
  exact ⟨hsink, hname, Phrase.alike_of_starts hbody⟩

namespace Phrase

/-! ### The tokens at a place -/

/-- Of tokens in order, `inside` are those at a place. -/
structure Parted (finish offset : Nat) (place : Span) (before inside after : List Token) :
    Prop where
  ordered_before : Ordered place.start offset before
  ordered_inside : Ordered place.stop place.start inside
  ordered_after : Ordered finish place.stop after
  nonempty : inside ≠ []

/-- There are tokens at a place, and something holds when parentheses are put around them. -/
def Surrounds (finish offset : Nat) (place : Span) (good : List Token → Prop)
    (ts : List Token) : Prop :=
  ∃ before inside after, ts = before ++ (inside ++ after) ∧
    Parted finish offset place before inside after ∧
    ∀ s c, good (before ++ ⟨.lparen, s⟩ :: (inside ++ ⟨.rparen, c⟩ :: after))

namespace Surrounds

variable {finish offset mid : Nat} {place : Span} {good good' : List Token → Prop}
  {ts : List Token}

/-- More tokens come before. -/
theorem after {first : List Token} (h : Surrounds finish mid place good ts)
    (hfirst : Ordered mid offset first) (hgood : ∀ us, good us → good' (first ++ us)) :
    Surrounds finish offset place good' (first ++ ts) := by
  obtain ⟨before, inside, after, rfl, hparted, hsurrounded⟩ := h
  refine ⟨first ++ before, inside, after, (List.append_assoc ..).symm, ?_, fun s c => ?_⟩
  · exact ⟨hfirst.append hparted.ordered_before, hparted.ordered_inside, hparted.ordered_after,
      hparted.nonempty⟩
  · rw [List.append_assoc]
    exact hgood _ (hsurrounded s c)

theorem cons {t : Token} (h : Surrounds finish t.span.stop place good ts)
    (ht : Ordered finish offset (t :: ts)) (hgood : ∀ us, good us → good' (t :: us)) :
    Surrounds finish offset place good' (t :: ts) :=
  @after finish offset t.span.stop place good good' ts [t] h ⟨ht.1, ht.2.1, Nat.le_refl _⟩ hgood

theorem mono (h : Surrounds finish offset place good ts) (hgood : ∀ us, good us → good' us) :
    Surrounds finish offset place good' ts :=
  @after finish offset offset place good good' ts [] h (Nat.le_refl offset) hgood

end Surrounds

/-! ### A phrase in parentheses -/

variable {finish : Nat} {ts rest : List Token}

/-- The tokens of an expression are in order, and spell it whatever comes after them. -/
theorem Derives.detached {x : Phrase} {offset : Nat} (h : Derives finish ts x rest)
    (hts : Ordered finish offset ts) : ∃ consumed, consumed ≠ [] ∧ ts = consumed ++ rest ∧
      Ordered x.span.stop offset consumed ∧ Ordered finish x.span.stop rest ∧
      ∀ tail, ∃ x', Derives finish (consumed ++ tail) x' tail ∧
        x'.relocate .starts = x.relocate .starts := by
  obtain ⟨consumed, hne, rfl, hfollowed⟩ := h.followed
  obtain ⟨consumed', hsame, -, hordered⟩ := h.consumes hts
  obtain rfl := List.append_cancel_right hsame
  refine ⟨consumed, hne, rfl, hordered, (h.laid hts).2.2.2, fun tail => ?_⟩
  obtain ⟨x', hx', hstarts, -⟩ := hfollowed finish tail
  exact ⟨x', hx', hstarts⟩

/-- Parentheses around an expression make it an operand. -/
theorem Derives.surround {x : Phrase} {offset : Nat} (h : Derives finish ts x rest)
    (hts : Ordered finish offset ts) : ∃ consumed, consumed ≠ [] ∧ ts = consumed ++ rest ∧
      Ordered x.span.stop offset consumed ∧ Ordered finish x.span.stop rest ∧ ∀ s c, ∃ t,
        DerivesOperand finish (⟨.lparen, s⟩ :: (consumed ++ ⟨.rparen, c⟩ :: rest)) t rest ∧
          t.tree.relocate .nowhere = x.tree.relocate .nowhere ∧ t.levels = x.levels + 1 := by
  obtain ⟨consumed, hne, rfl, hordered, hrest, hdetached⟩ := h.detached hts
  refine ⟨consumed, hne, rfl, hordered, hrest, fun s c => ?_⟩
  obtain ⟨x', hx', hstarts⟩ := hdetached (⟨.rparen, c⟩ :: rest)
  refine ⟨_, .group s c hx', ?_, congrArg (· + 1) (levels_of_starts hstarts)⟩
  rw [Term.tree, Expr.relocate_nowhere_withSpan, tree_of_starts hstarts]

theorem DerivesOperand.start_eq {t : Term} (h : DerivesOperand finish ts t rest) :
    t.span.start = startOf finish ts := by
  cases h <;> rfl

/-- The tokens of a chain's tree go from its start to its end. -/
theorem Spells.consumes {t : Term} {offset : Nat} (h : Spells finish ts t.reading rest)
    (hts : Ordered finish offset ts) : offset ≤ t.span.start ∧
      Consumes [] t.span.start t.span.stop ts rest ∧ Ordered finish t.span.stop rest := by
  induction t using Term.chainInduction generalizing ts rest offset with
  | operand t ht =>
    have hoperand := h.derivesOperand ht
    have hconsumes := hoperand.consumes hts.startOf.2
    rw [← hoperand.start_eq] at hconsumes
    exact ⟨hoperand.start_eq ▸ hts.startOf.1,
      hconsumes.mono (List.nil_subset _) (Nat.le_refl _), (hoperand.laid hts).2.2⟩
  | operate op left right ihl ihr =>
    obtain ⟨s, after, hleft, hright⟩ := h.of_operate
    obtain ⟨hstart, hl, hs, hs', hafter⟩ := ihl hleft hts
    obtain ⟨hmid, ⟨consumed, rfl, hsubset, hordered⟩, hrest⟩ := ihr hright hafter
    have hr : Consumes [] s.stop right.span.stop (consumed ++ rest) rest :=
      ⟨consumed, rfl, hsubset, hordered.mono hmid⟩
    have hall := (hl.trans (.token _ hs hs')).trans hr
    exact ⟨hstart, hall.mono (List.nil_subset _) (Nat.le_refl _), hrest⟩

/-! ### A part in parentheses -/

/-- The tokens begin with an expression like `x`. -/
def Fits (finish : Nat) (x : Phrase) (rest us : List Token) : Prop :=
  ∃ x', Derives finish us x' rest ∧ x.Alike x'

end Phrase

open Phrase

/-- The tokens begin with a chain like that of `t`, which may stand wherever that may. -/
def Term.Fits (finish : Nat) (t : Term) (rest us : List Token) : Prop :=
  ∃ t', Spells finish us t'.reading rest ∧ t'.Respects ∧ t.rank ≤ t'.rank ∧ t.Alike t'

/-- After the given token they go on with branches like `b`. -/
def PhraseBranches.Fits (finish : Nat) (b : PhraseBranches) (word : Token)
    (rest us : List Token) : Prop :=
  ∃ b' stop, DerivesBranches finish (word :: us) b' stop rest ∧ b.Alike b'

section Fits

variable {finish : Nat} {ts mid rest us : List Token}

theorem Phrase.Fits.group {inner : Phrase} {c : Span}
    (h : inner.Fits finish (⟨.rparen, c⟩ :: rest) us) (span s : Span) :
    (Term.group span inner).Fits finish rest (⟨.lparen, s⟩ :: us) := by
  obtain ⟨x, hx, halike⟩ := h
  exact ⟨.group (.cover s c) x, spells_singleton.2 (.group s c hx), trivial, Nat.le_refl 3,
    halike.group span _⟩

/-- What fits on the left of an operator may be as it may, since it binds no less tight. -/
theorem Term.Fits.left {op : Operator} {left right : Term} {s : Span}
    (h : left.Fits finish (⟨.operator op, s⟩ :: ts) us)
    (hright : Spells finish ts right.reading rest)
    (hrespects : (Term.operate op left right).Respects) :
    (Term.operate op left right).Fits finish rest us := by
  obtain ⟨hle, hpos, hlt, -, hr⟩ := hrespects
  obtain ⟨left', hspells, hl', hrank, halike⟩ := h
  exact ⟨.operate op left' right, hspells.append (.operator op s hright),
    ⟨by omega, by omega, hlt, hl', hr⟩, Nat.le_refl _, halike.operate (.refl right) op⟩

theorem Term.Fits.right {op : Operator} {left right : Term} {first : List Token}
    (h : right.Fits finish rest us)
    (hleft : ∀ tail, Spells finish (first ++ tail) left.reading tail) (s : Span)
    (hrespects : (Term.operate op left right).Respects) :
    (Term.operate op left right).Fits finish rest (first ++ ⟨.operator op, s⟩ :: us) := by
  obtain ⟨hle, hpos, hlt, hl, -⟩ := hrespects
  obtain ⟨right', hspells, hr', hrank, halike⟩ := h
  exact ⟨.operate op left right', (hleft _).append (.operator op s hspells),
    ⟨hle, hpos, by omega, hl, hr'⟩, Nat.le_refl _, (Term.Alike.refl left).operate halike op⟩

theorem Term.Fits.chain {t : Term} (h : t.Fits finish rest us) (span : Span) :
    (Phrase.chain span t).Fits finish rest us := by
  obtain ⟨t', hspells, hrespects, -, halike⟩ := h
  obtain ⟨span', hchain⟩ := hspells.derives hrespects
  exact ⟨_, hchain, halike.chain span span'⟩

theorem PhraseBranches.Fits.choose {b : PhraseBranches} {s : Span}
    (h : b.Fits finish ⟨.keyword .when, s⟩ rest us) (span : Span) :
    (Phrase.choose span b).Fits finish rest (⟨.keyword .when, s⟩ :: us) := by
  obtain ⟨b', stop, hb', halike⟩ := h
  exact ⟨_, .choose s hb', halike.choose span _⟩

theorem Phrase.Fits.otherwise {x : Phrase} (h : x.Fits finish rest us) (s : Span) :
    (PhraseBranches.otherwise x).Fits finish ⟨.keyword .otherwise, s⟩ rest us := by
  obtain ⟨x', hx', halike⟩ := h
  exact ⟨_, _, .otherwise s hx', halike.otherwise⟩

theorem Phrase.Fits.predicate {p c : Phrase} {b : PhraseBranches} {stop : Nat}
    (h : p.Fits finish ts us) (hc : Derives finish ts c mid)
    (hb : DerivesBranches finish mid b stop rest) (s : Span) :
    (PhraseBranches.clause p c b).Fits finish ⟨.keyword .when, s⟩ rest us := by
  obtain ⟨p', hp', halike⟩ := h
  exact ⟨_, _, .clause s hp' hc hb, halike.clause (.refl c) (.refl b)⟩

theorem Phrase.Fits.consequent {p c : Phrase} {b : PhraseBranches} {stop : Nat}
    {first : List Token} (h : c.Fits finish mid us)
    (hp : ∀ tail, ∃ p', Derives finish (first ++ tail) p' tail ∧
      p'.relocate .starts = p.relocate .starts)
    (hb : DerivesBranches finish mid b stop rest) (s : Span) :
    (PhraseBranches.clause p c b).Fits finish ⟨.keyword .when, s⟩ rest (first ++ us) := by
  obtain ⟨c', hc', halike⟩ := h
  obtain ⟨p', hp', hstarts⟩ := hp us
  exact ⟨_, _, .clause s hp' hc' hb, (alike_of_starts hstarts).clause halike (.refl b)⟩

theorem PhraseBranches.Fits.clause {p c : Phrase} {b : PhraseBranches} {word : Token}
    {first second : List Token} (h : b.Fits finish word rest us)
    (hp : ∀ tail, ∃ p', Derives finish (first ++ tail) p' tail ∧
      p'.relocate .starts = p.relocate .starts)
    (hc : ∀ tail, ∃ c', Derives finish (second ++ tail) c' tail ∧
      c'.relocate .starts = c.relocate .starts) (s : Span) :
    (PhraseBranches.clause p c b).Fits finish ⟨.keyword .when, s⟩ rest
      (first ++ (second ++ word :: us)) := by
  obtain ⟨b', stop, hb', halike⟩ := h
  obtain ⟨c', hc', hstarts'⟩ := hc (word :: us)
  obtain ⟨p', hp', hstarts⟩ := hp (second ++ word :: us)
  exact ⟨_, _, .clause s hp' hc' hb',
    (alike_of_starts hstarts).clause (alike_of_starts hstarts') halike⟩

end Fits

/-- All of a chain or of a part of it may be put in parentheses. -/
theorem Term.surrounds_self {finish offset : Nat} {ts rest : List Token} {t : Term}
    (hrespects : t.Respects) (h : Spells finish ts t.reading rest)
    (hts : Ordered finish offset ts) : Surrounds finish offset t.span (t.Fits finish rest) ts := by
  obtain ⟨hstart, ⟨consumed', hconsumed', -, hordered⟩, hrest⟩ := h.consumes hts
  obtain ⟨span, hchain⟩ := h.derives hrespects
  obtain ⟨consumed, hne, rfl, -, -, hsurround⟩ := hchain.surround hts
  obtain rfl := List.append_cancel_right hconsumed'
  refine ⟨[], consumed, rest, rfl, ⟨hstart, hordered, hrest, hne⟩, fun s c => ?_⟩
  obtain ⟨t', hoperand, htree, hlevels⟩ := hsurround s c
  have ht' := hoperand.isOperand
  refine ⟨t', ?_, ht'.respects, ?_, htree, Nat.le_of_eq hlevels⟩
  · rw [ht'.reading]
    exact spells_singleton.2 hoperand
  · rw [ht'.rank]
    cases t using chainInduction with
    | operand t ht => exact Nat.le_of_eq ht.rank
    | operate op left right => exact Nat.le_succ_of_le op.rank_le_two

/-- All of a `when` expression may be put in parentheses. -/
theorem Phrase.surrounds_self {finish offset : Nat} {ts rest : List Token} {span : Span}
    {branches : PhraseBranches} (h : Derives finish ts (.choose span branches) rest)
    (hts : Ordered finish offset ts) :
    Surrounds finish offset span ((Phrase.choose span branches).Fits finish rest) ts := by
  have hspan : span.start = startOf finish ts := by
    cases h
    rfl
  obtain ⟨hstart, hts⟩ := hts.startOf
  rw [← hspan] at hstart hts
  obtain ⟨consumed, hne, rfl, hordered, hrest, hsurround⟩ := h.surround hts
  refine ⟨[], consumed, rest, rfl, ⟨hstart, hordered, hrest, hne⟩, fun s c => ?_⟩
  obtain ⟨t, hoperand, htree, hlevels⟩ := hsurround s c
  exact ⟨_, .chain hoperand (.nil rest), htree, Nat.le_of_eq (congrArg (· + 1) hlevels)⟩

theorem Phrase.DerivesBranches.exists_cons {finish : Nat} {ts rest : List Token}
    {b : PhraseBranches} {stop : Nat} (h : DerivesBranches finish ts b stop rest) :
    ∃ word after, ts = word :: after := by
  cases h with
  | otherwise s h => exact ⟨_, _, rfl⟩
  | clause s hp hc htail => exact ⟨_, _, rfl⟩

mutual

/-- A node in a chain may be put in parentheses. -/
theorem Term.surrounds {finish : Nat} {n : Expr} : ∀ (t : Term) {offset : Nat}
    {ts rest : List Token}, t.Respects → Spells finish ts t.reading rest →
    Ordered finish offset ts → n ∈ t.tree.nodes →
      Surrounds finish offset n.span (t.Fits finish rest) ts
  | .number .., _, _, _, hrespects, h, hts, hn | .boolean .., _, _, _, hrespects, h, hts, hn
  | .source .., _, _, _, hrespects, h, hts, hn | .variable .., _, _, _, hrespects, h, hts, hn => by
    obtain rfl := List.mem_singleton.1 hn
    exact Term.surrounds_self hrespects h hts
  | .group span inner, offset, ts, rest, hrespects, h, hts, hn => by
    obtain rfl | hn := Expr.mem_nodes.1 hn
    · rw [Term.span_tree]
      exact Term.surrounds_self hrespects h hts
    · have hinner : n ∈ inner.tree.nodes := by
        rw [Term.tree, Expr.parts_withSpan] at hn
        exact Expr.mem_nodes_of_mem_parts hn
      have hoperand : (Term.group span inner).IsOperand := nofun
      cases h.derivesOperand hoperand with
      | group s c h => exact (inner.surrounds h hts.2.2 hinner).cons hts fun _ hus => hus.group _ s
  | .operate op left right, offset, ts, rest, hrespects, h, hts, hn => by
    obtain rfl | hn := Expr.mem_nodes.1 hn
    · rw [Term.span_tree]
      exact Term.surrounds_self hrespects h hts
    · have hl : left.Respects := hrespects.2.2.2.1
      have hr : right.Respects := hrespects.2.2.2.2
      obtain ⟨s, after, hleft, hright⟩ := h.of_operate
      obtain hn | hn := List.mem_append.1 hn
      · exact (Term.surrounds left hl hleft hts hn).mono fun _ hus => hus.left hright hrespects
      · obtain ⟨hstart, ⟨consumed, rfl, -, hordered⟩, hs, hs', hafter⟩ := hleft.consumes hts
        obtain ⟨consumed', hsame, hfollowed⟩ := hleft.followed
        obtain rfl := List.append_cancel_right hsame
        have hword : Ordered s.stop left.span.stop [⟨.operator op, s⟩] := ⟨hs, hs', Nat.le_refl _⟩
        refine List.append_cons .. ▸ (Term.surrounds right hr hright hafter hn).after
          ((hordered.mono hstart).append hword) fun us hus => ?_
        rw [List.append_assoc]
        exact hus.right hfollowed s hrespects

/-- A node of an expression may be put in parentheses. -/
theorem Phrase.surrounds {finish : Nat} {n : Expr} : ∀ (x : Phrase) {offset : Nat}
    {ts rest : List Token}, Derives finish ts x rest → Ordered finish offset ts →
    n ∈ x.tree.nodes → Surrounds finish offset n.span (x.Fits finish rest) ts
  | .chain span top, offset, ts, rest, h, hts, hn => by
    obtain ⟨hspells, hrespects⟩ := h.spells
    exact (Term.surrounds top hrespects hspells hts hn).mono fun _ hus => hus.chain span
  | .choose span branches, offset, ts, rest, h, hts, hn => by
    obtain rfl | hn := Expr.mem_nodes.1 hn
    · exact Phrase.surrounds_self h hts
    · cases h with
      | choose s h => exact (branches.surrounds h hts hn).cons hts fun _ hus => hus.choose _

theorem PhraseBranches.surrounds {finish : Nat} {n : Expr} : ∀ (b : PhraseBranches) {offset : Nat}
    {word : Token} {ts rest : List Token} {stop : Nat},
    DerivesBranches finish (word :: ts) b stop rest → Ordered finish offset (word :: ts) →
    n ∈ b.tree.parts → Surrounds finish word.span.stop n.span (b.Fits finish word rest) ts
  | .otherwise value, offset, word, ts, rest, stop, h, hts, hn => by
    cases h with
    | otherwise s h => exact (value.surrounds h hts.2.2 hn).mono fun _ hus => hus.otherwise s
  | .clause p c tail, offset, word, ts, rest, stop, h, hts, hn => by
    cases h with
    | clause s hp hc htail =>
      obtain ⟨-, -, hts⟩ := hts
      obtain ⟨first, -, rfl, hordered, hmid, hfirst⟩ := hp.detached hts
      obtain hn | hn := List.mem_append.1 hn
      · exact (p.surrounds hp hts hn).mono fun _ hus => hus.predicate hc htail s
      obtain ⟨second, -, rfl, hordered', hmore, hsecond⟩ := hc.detached hmid
      obtain hn | hn := List.mem_append.1 hn
      · exact (c.surrounds hc hmid hn).after hordered fun _ hus => hus.consequent hfirst htail s
      · obtain ⟨word, after, rfl⟩ := htail.exists_cons
        have hword : Ordered word.span.stop c.span.stop [word] :=
          ⟨hmore.1, hmore.2.1, Nat.le_refl _⟩
        have hsurrounds := (tail.surrounds htail hmore hn).after (hordered.append
          (hordered'.append hword)) fun us hus => by
            rw [List.append_assoc, List.append_assoc]
            exact hus.clause hfirst hsecond s
        rw [List.append_assoc, List.append_assoc] at hsurrounds
        exact hsurrounds

end

namespace Phrase

variable {finish offset : Nat} {ts rest : List Token} {n : Expr}

theorem Derives.surrounds_body {x : Phrase} {name : String} {s e : Span} {sign : Token.Kind}
    (h : Derives finish ts x rest)
    (hts : Ordered finish offset (⟨.name name, s⟩ :: ⟨sign, e⟩ :: ts)) (hn : n ∈ x.tree.nodes) :
    Surrounds finish offset n.span (fun us => ∃ us' x', us = ⟨.name name, s⟩ :: ⟨sign, e⟩ :: us' ∧
      Derives finish us' x' rest ∧ x.Alike x') (⟨.name name, s⟩ :: ⟨sign, e⟩ :: ts) := by
  obtain ⟨hs, hs', he, he', hts⟩ := hts
  have hfirst : Ordered e.stop offset [⟨.name name, s⟩, ⟨sign, e⟩] :=
    ⟨hs, hs', he, he', Nat.le_refl _⟩
  refine (x.surrounds h hts hn).after hfirst ?_
  rintro us ⟨x', hx', halike⟩
  exact ⟨us, x', rfl, hx', halike⟩

/-- A node of a statement may be put in parentheses. -/
theorem DerivesStatement.surrounds {s : WrittenStatement} (h : DerivesStatement finish ts s rest)
    (hts : Ordered finish offset ts) (hn : n ∈ s.body.tree.nodes) :
    Surrounds finish offset n.span
      (fun us => ∃ s', DerivesStatement finish us s' rest ∧ s.Alike s') ts := by
  cases h with
  | assign name s e h =>
    refine (h.surrounds_body hts hn).mono ?_
    rintro _ ⟨us, body, rfl, hbody, halike⟩
    exact ⟨_, .assign name s e hbody, rfl, rfl, halike⟩
  | sink name s e h =>
    refine (h.surrounds_body hts hn).mono ?_
    rintro _ ⟨us, body, rfl, hbody, halike⟩
    exact ⟨_, .sink name s e hbody, rfl, rfl, halike⟩

/-- Of some statements a node may be put in parentheses, whatever comes before and after its own. -/
theorem DerivesStatements.surrounds {written : List WrittenStatement} {s : WrittenStatement}
    (h : DerivesStatements finish ts written rest) (hts : Ordered finish offset ts)
    (hs : s ∈ written) (hn : n ∈ s.body.tree.nodes) :
    Surrounds finish offset n.span (fun us => ∃ written',
      DerivesStatements finish us written' rest ∧
        List.Forall₂ WrittenStatement.Alike written written') ts := by
  induction h generalizing offset with
  | nil => exact nomatch hs
  | @cons ts mid rest first written head tail ih =>
    obtain rfl | hs := List.mem_cons.1 hs
    · refine (head.surrounds hts hn).mono ?_
      rintro us ⟨s', hs', halike⟩
      exact ⟨_, .cons hs' tail, .cons halike
        (List.forall₂_same.2 fun t _ => WrittenStatement.alike_of_starts rfl)⟩
    · obtain ⟨consumed, rfl, hfollowed⟩ := head.followed
      obtain ⟨stop, hconsumed, hmid⟩ := hts.of_append
      refine (ih hmid hs).after hconsumed ?_
      rintro us ⟨written', hwritten', halike⟩
      obtain ⟨first', hfirst', hstarts, -⟩ := hfollowed finish us
      exact ⟨_, .cons hfirst' hwritten', .cons (WrittenStatement.alike_of_starts hstarts) halike⟩

end Phrase

end RangeRules
