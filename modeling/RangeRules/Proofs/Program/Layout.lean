import RangeRules.Proofs.Phrase.Derivation
import RangeRules.Proofs.Program.Check
import RangeRules.Proofs.Program.Nodes
import RangeRules.Proofs.Token.Placement

/-!
# Parsed programs are laid out

The tokens that a phrase is read from stand one after the other, and so do the parts of the tree
that it becomes. Precedence only groups neighbours, so it keeps them in order. In a parsed program,
therefore, no two nodes have the same place.
-/
namespace RangeRules

open Token (Ordered startOf)

/-! ### Trees -/

@[simp]
theorem Expr.span_withSpan (span : Text.Span) (e : Expr) : (e.withSpan span).span = span := by
  cases e <;> rfl

@[simp]
theorem Term.span_tree (t : Term) : t.tree.span = t.span := by
  cases t with
  | group span inner => exact Expr.span_withSpan span inner.tree
  | _ => rfl

theorem Branches.Laid.mono {b : Branches} {offset offset' : Nat} (h : b.Laid offset)
    (hle : offset' ≤ offset) : b.Laid offset' := by
  cases b with
  | otherwise e => exact ⟨Nat.lt_of_le_of_lt hle h.1, h.2⟩
  | clause p c rest => exact ⟨Nat.lt_of_le_of_lt hle h.1, h.2⟩

/-- Parentheses around an expression widen its place. -/
theorem Expr.Laid.withSpan {e : Expr} (h : e.Laid) {s : Text.Span}
    (hstart : s.start ≤ e.span.start) (hstop : e.span.stop ≤ s.stop) : (e.withSpan s).Laid := by
  have hself := h.within e e.self_mem_nodes
  have hnonempty : s.start < s.stop := by omega
  cases e with
  | operate s' op l r =>
    obtain ⟨hl, hr, hfirst, hmid, hlast⟩ := h
    exact ⟨hl, hr, Nat.le_trans hstart hfirst, hmid, Nat.le_trans hlast hstop⟩
  | choose s' branches => exact ⟨h.1.mono hstart, Nat.le_trans h.2 hstop⟩
  | _ => exact hnonempty

/-! ### Chains -/

namespace Term

/-- The operands of a chain after the first stand one after the other. -/
def LaidLinks : Nat → Links → Prop
  | _, [] => True
  | offset, (_, t) :: rest => offset ≤ t.span.start ∧ t.tree.Laid ∧ LaidLinks t.span.stop rest

/-- Where the last operand of a chain ends, the operands so far ending at `offset`. -/
def stopOf : Nat → Links → Nat
  | offset, [] => offset
  | _, (_, t) :: rest => stopOf t.span.stop rest

theorem stop_complete (waiting : Option (Term × Arithmetic)) (product : Term) :
    (complete waiting product).span.stop = product.span.stop := by
  cases waiting <;> rfl

/-- A chain goes from its first operand to its last, however it is grouped. -/
theorem span_resolveFrom (waiting : Option (Term × Arithmetic)) (product : Term) (links : Links) :
    (resolveFrom waiting product links).span =
      ⟨(complete waiting product).span.start, stopOf product.span.stop links⟩ := by
  induction links generalizing waiting product with
  | nil =>
    change (complete waiting product).span = ⟨_, product.span.stop⟩
    rw [← stop_complete waiting product]
  | cons link rest ih =>
    obtain ⟨op, t⟩ := link
    rw [resolveFrom]
    split
    · rw [ih]
      cases waiting <;> rfl
    · rw [ih]
      rfl

theorem span_resolve (first : Term) (links : Links) :
    (first.resolve links).span = ⟨first.span.start, stopOf first.span.stop links⟩ :=
  span_resolveFrom none first links

theorem laid_operate {op : Operator} {l r : Term} (hl : l.tree.Laid) (hr : r.tree.Laid)
    (hmid : l.span.stop ≤ r.span.start) : (Term.operate op l r).tree.Laid := by
  refine ⟨hl, hr, ?_, ?_, ?_⟩
  · rw [l.span_tree]
    exact Nat.le_refl _
  · rw [l.span_tree, r.span_tree]
    exact hmid
  · rw [r.span_tree]
    exact Nat.le_refl _

/-- The sum so far, if there is one, comes before the product. -/
def Waits (waiting : Option (Term × Arithmetic)) (product : Term) : Prop :=
  ∀ w ∈ waiting, w.1.tree.Laid ∧ w.1.span.stop ≤ product.span.start

theorem laid_complete {waiting : Option (Term × Arithmetic)} {product : Term}
    (hwaiting : Waits waiting product) (hproduct : product.tree.Laid) :
    (complete waiting product).tree.Laid := by
  cases waiting with
  | none => exact hproduct
  | some w =>
    obtain ⟨hlaid, hmid⟩ := hwaiting w rfl
    exact laid_operate hlaid hproduct hmid

theorem laid_resolveFrom {waiting : Option (Term × Arithmetic)} {product : Term} {links : Links}
    (hwaiting : Waits waiting product) (hproduct : product.tree.Laid)
    (hlinks : LaidLinks product.span.stop links) :
    (resolveFrom waiting product links).tree.Laid := by
  induction links generalizing waiting product with
  | nil => exact laid_complete hwaiting hproduct
  | cons link rest ih =>
    obtain ⟨op, t⟩ := link
    obtain ⟨hmid, ht, hrest⟩ := hlinks
    rw [resolveFrom]
    split
    · exact ih hwaiting (laid_operate hproduct ht hmid) hrest
    · refine ih ?_ ht hrest
      rintro w ⟨⟩
      refine ⟨laid_complete hwaiting hproduct, ?_⟩
      rw [stop_complete]
      exact hmid

theorem laid_resolve {first : Term} {links : Links} (hfirst : first.tree.Laid)
    (hlinks : LaidLinks first.span.stop links) : (first.resolve links).tree.Laid :=
  laid_resolveFrom nofun hfirst hlinks

end Term

/-! ### Phrases -/

namespace Phrase

variable {finish : Nat}

/-- A comparison ends with its right side, or with the layout after it. -/
theorem ordered_comparedStop {first : Term} {links : Links} {rest : List Token}
    (h : Ordered finish (Term.stopOf first.span.stop links) rest) :
    (first.resolve links).span.stop ≤ Read.comparedStop (startOf finish rest) first links ∧
      Ordered finish (Read.comparedStop (startOf finish rest) first links) rest := by
  rw [Read.comparedStop, Term.span_resolve]
  split
  · exact h.startOf
  · exact ⟨Nat.le_refl _, h⟩

mutual

theorem DerivesOperand.laid {ts rest : List Token} {t : Term} :
    DerivesOperand finish ts t rest → ∀ {offset : Nat}, Ordered finish offset ts →
      t.tree.Laid ∧ offset ≤ t.span.start ∧ Ordered finish t.span.stop rest
  | .boolean _ _ _, _, h => ⟨h.2.1, h.1, h.2.2⟩
  | .number _ _ _, _, h => ⟨h.2.1, h.1, h.2.2⟩
  | .variable _ _ _, _, h => ⟨h.2.1, h.1, h.2.2⟩
  | .source name s d n rest, _, h => by
    obtain ⟨hs, hs', hd, hd', hn, hn', hrest⟩ := h
    dsimp only at hs' hd hd' hn hn'
    have hnonempty : s.start < n.stop := by omega
    exact ⟨hnonempty, hs, hrest⟩
  | .group s c hinner, _, h => by
    obtain ⟨hs, hs', hts⟩ := h
    obtain ⟨hlaid, hstart, hstop, hc, hc', hrest⟩ := hinner.laid hts
    dsimp only at hs' hstart hc hc'
    refine ⟨hlaid.withSpan ?_ ?_, hs, hrest⟩
    · exact Nat.le_trans (Nat.le_of_lt hs') hstart
    · exact Nat.le_trans hstop (Nat.le_trans hc (Nat.le_of_lt hc'))

theorem DerivesLinks.laid {ts rest : List Token} {links : Links} :
    DerivesLinks finish ts links rest → ∀ {offset : Nat}, Ordered finish offset ts →
      Term.LaidLinks offset links ∧ Ordered finish (Term.stopOf offset links) rest
  | .nil _, _, h => ⟨trivial, h⟩
  | .cons op s head tail, _, h => by
    obtain ⟨hs, hs', hts⟩ := h
    obtain ⟨hlaid, hstart, hmid⟩ := head.laid hts
    obtain ⟨hlinks, hrest⟩ := tail.laid hmid
    dsimp only at hs hs' hstart
    exact ⟨⟨by omega, hlaid, hlinks⟩, hrest⟩

theorem DerivesBranches.laid {ts rest : List Token} {branches : PhraseBranches} {stop : Nat} :
    DerivesBranches finish ts branches stop rest → ∀ {offset : Nat}, Ordered finish offset ts →
      branches.tree.Laid offset ∧ branches.tree.fallback.span.stop ≤ stop ∧
        Ordered finish stop rest
  | .otherwise s hvalue, _, h => by
    obtain ⟨hs, hs', hts⟩ := h
    obtain ⟨hlaid, hstart, hstop, hrest⟩ := hvalue.laid hts
    dsimp only at hs hs' hstart
    exact ⟨⟨by omega, hlaid⟩, hstop, hrest⟩
  | .clause s hp hc htail, _, h => by
    obtain ⟨hs, hs', hts⟩ := h
    obtain ⟨hplaid, hpstart, hpstop, hmid⟩ := hp.laid hts
    obtain ⟨hclaid, hcstart, hcstop, hmore⟩ := hc.laid hmid
    obtain ⟨hlaid, hstop, hrest⟩ := htail.laid hmore
    dsimp only at hs hs' hpstart
    exact ⟨⟨by omega, hplaid, by omega, hclaid, hlaid.mono hcstop⟩, hstop, hrest⟩

/-- The tree of a phrase is laid out, after what comes before the phrase and within it. -/
theorem Derives.laid {ts rest : List Token} {x : Phrase} :
    Derives finish ts x rest → ∀ {offset : Nat}, Ordered finish offset ts →
      x.tree.Laid ∧ offset ≤ x.tree.span.start ∧ x.tree.span.stop ≤ x.span.stop ∧
        Ordered finish x.span.stop rest
  | .chain head tail, _, h => by
    obtain ⟨hlaid, hstart, hmid⟩ := head.laid h
    obtain ⟨hlinks, hrest⟩ := tail.laid hmid
    obtain ⟨hstop, hrest⟩ := hrest.startOf
    refine ⟨Term.laid_resolve hlaid hlinks, ?_, ?_, hrest⟩
    · rw [Phrase.tree, Term.span_tree, Term.span_resolve]
      exact hstart
    · rw [Phrase.tree, Term.span_tree, Term.span_resolve]
      exact hstop
  | .compare op s head tail head' tail', _, h => by
    obtain ⟨hlaid, hstart, hmid⟩ := head.laid h
    obtain ⟨hlinks, hs, hs', hright⟩ := tail.laid hmid
    obtain ⟨hlaid', hstart', hmid'⟩ := head'.laid hright
    obtain ⟨hlinks', hrest⟩ := tail'.laid hmid'
    obtain ⟨hstop, hrest⟩ := ordered_comparedStop hrest
    dsimp only at hs hs' hstart'
    refine ⟨Term.laid_operate (Term.laid_resolve hlaid hlinks)
      (Term.laid_resolve hlaid' hlinks') ?_, ?_, ?_, hrest⟩
    · rw [Term.span_resolve, Term.span_resolve]
      exact Nat.le_trans hs (Nat.le_trans (Nat.le_of_lt hs') hstart')
    · rw [Phrase.tree, Term.span_tree, Term.span, Term.span_resolve]
      exact hstart
    · rw [Phrase.tree, Term.span_tree]
      exact hstop
  | .choose s hbranches, _, h => by
    obtain ⟨hs, hts⟩ := h
    have hkeyword : Ordered finish s.start (⟨.keyword .when, s⟩ :: _) := ⟨Nat.le_refl _, hts⟩
    obtain ⟨hlaid, hstop, hrest⟩ := hbranches.laid hkeyword
    exact ⟨⟨hlaid, hstop⟩, hs, Nat.le_refl _, hrest⟩

end

end Phrase

/-! ### Programs -/

/-- The bodies of statements are laid out and come one after the other. -/
def LaidBodies : Nat → List Statement → Prop
  | _, [] => True
  | offset, s :: rest => offset ≤ s.body.span.start ∧ s.body.Laid ∧ LaidBodies s.body.span.stop rest

theorem LaidBodies.within {offset : Nat} {statements : List Statement}
    (h : LaidBodies offset statements) :
    ∀ n ∈ statements.flatMap (·.body.nodes), offset ≤ n.span.start := by
  induction statements generalizing offset with
  | nil => exact nofun
  | cons s rest ih =>
    obtain ⟨hstart, hlaid, hrest⟩ := h
    intro n hn
    rw [List.flatMap_cons, List.mem_append] at hn
    obtain hn | hn := hn
    · exact Nat.le_trans hstart (hlaid.within n hn).1
    · have hself := hlaid.within _ s.body.self_mem_nodes
      have hn := ih hrest n hn
      omega

theorem LaidBodies.nodup {offset : Nat} {statements : List Statement}
    (h : LaidBodies offset statements) :
    ((statements.flatMap (·.body.nodes)).map Expr.span).Nodup := by
  induction statements generalizing offset with
  | nil => exact List.nodup_nil
  | cons s rest ih =>
    obtain ⟨-, hlaid, hrest⟩ := h
    rw [List.flatMap_cons, List.map_append]
    refine hlaid.nodup.append (ih hrest) (disjoint_spans ?_ hrest.within)
    exact fun n hn => (hlaid.within n hn).2

theorem Phrase.DerivesStatement.laid {finish : Nat} {ts rest : List Token} {s : WrittenStatement}
    (h : Phrase.DerivesStatement finish ts s rest) {offset : Nat} (hts : Ordered finish offset ts) :
    offset ≤ s.tree.body.span.start ∧ s.tree.body.Laid ∧
      Ordered finish s.tree.body.span.stop rest := by
  cases h with
  | assign name s e hbody | sink name s e hbody =>
    obtain ⟨hs, hs', he, he', hts⟩ := hts
    obtain ⟨hlaid, hstart, hstop, hrest⟩ := hbody.laid hts
    dsimp only at hs hs' he he' hstart
    have hbefore : offset ≤ e.stop := by omega
    exact ⟨Nat.le_trans hbefore hstart, hlaid, hrest.mono hstop⟩

theorem Phrase.DerivesStatements.laid {finish : Nat} {ts rest : List Token}
    {written : List WrittenStatement} (h : Phrase.DerivesStatements finish ts written rest)
    {offset : Nat} (hts : Ordered finish offset ts) :
    LaidBodies offset (written.map (·.tree)) := by
  induction h generalizing offset with
  | nil => trivial
  | cons head tail ih =>
    obtain ⟨hstart, hlaid, hrest⟩ := head.laid hts
    exact ⟨hstart, hlaid, ih hrest⟩

/-- No two nodes of a parsed program have the same place. -/
theorem Program.nodup_spans_of_parseWithin {limit : Nat} {source : Text.Source} {p : Program}
    (h : parseWithin limit source = .ok p) : (p.nodes.map Expr.span).Nodup := by
  obtain ⟨written, hread, -, rfl⟩ := parseWithin_eq_ok.1 h
  have hderives := Phrase.Read.program_sound hread
  exact (hderives.laid (Token.Sequence.ordered source)).nodup

end RangeRules
