import RangeRules.Proofs.Evaluation.Undefined
import RangeRules.Proofs.Program.Extent

/-!
# Places are nested, and diagnostics quote them

The place of a node is a part of the text, and what stands below the node has its places within that
one, one after the other. A diagnostic is about one of the nodes: it is at the place of the node,
and its message quotes what is written there.
-/
namespace RangeRules

open Text (Source Span Location byteCount)

/-! ### Places of nodes -/

/-- The span is a part of the text that is not empty. It ends between characters. -/
def Text.Span.IsPart (span : Span) (source : Source) : Prop :=
  ∃ before inside after, source = before ++ (inside ++ after) ∧ inside ≠ [] ∧
    span = ⟨byteCount before, byteCount (before ++ inside)⟩

theorem Text.Span.IsPart.exists_slice {span : Span} {source : Source} (h : span.IsPart source) :
    ∃ text, slice? source span = some text := by
  obtain ⟨before, inside, after, rfl, -, rfl⟩ := h
  rw [byteCount_append]
  exact ⟨inside, slice?_append before inside after⟩

/-- The expressions directly below those of a `when` expression, `otherwise` last. -/
def Branches.children : Branches → List Expr
  | .otherwise e => [e]
  | .clause p c rest => p :: c :: rest.children

/-- The expressions directly below a node, from left to right. -/
def Expr.children : Expr → List Expr
  | .number .. | .boolean .. | .variable .. | .source .. => []
  | .operate _ _ l r => [l, r]
  | .choose _ branches => branches.children

theorem Branches.children_subset (b : Branches) : b.children ⊆ b.parts := by
  induction b using Branches.clauseInduction with
  | otherwise e => exact List.cons_subset.2 ⟨e.self_mem_nodes, List.nil_subset _⟩
  | clause p c rest ih =>
    refine List.cons_subset.2 ⟨nodes_predicate_subset p c rest p.self_mem_nodes, ?_⟩
    refine List.cons_subset.2 ⟨nodes_consequent_subset p c rest c.self_mem_nodes, ?_⟩
    exact List.Subset.trans ih (parts_rest_subset p c rest)

mutual

/-- What is below an expression that is laid out is laid out. -/
theorem Expr.Laid.of_mem : ∀ {e : Expr}, e.Laid → ∀ {n : Expr}, n ∈ e.nodes → n.Laid
  | .number .., h, n, hn | .boolean .., h, n, hn | .variable .., h, n, hn
  | .source .., h, n, hn => by
    obtain rfl := List.mem_singleton.1 hn
    exact h
  | .operate s op l r, h, n, hn => by
    obtain rfl | hn := Expr.mem_nodes.1 hn
    · exact h
    · obtain ⟨hl, hr, -⟩ := h
      obtain hn | hn := List.mem_append.1 hn
      · exact hl.of_mem hn
      · exact hr.of_mem hn
  | .choose s branches, h, n, hn => by
    obtain rfl | hn := Expr.mem_nodes.1 hn
    · exact h
    · exact h.1.of_mem hn

theorem Branches.Laid.of_mem : ∀ {b : Branches} {offset : Nat}, b.Laid offset →
    ∀ {n : Expr}, n ∈ b.parts → n.Laid
  | .otherwise e, offset, h, n, hn => h.2.of_mem hn
  | .clause p c rest, offset, h, n, hn => by
    obtain ⟨-, hp, -, hc, hrest⟩ := h
    rw [Branches.parts_clause, List.mem_append, List.mem_append] at hn
    obtain hn | hn | hn := hn
    · exact hp.of_mem hn
    · exact hc.of_mem hn
    · exact hrest.of_mem hn

end

/-- The parts of a `when` expression stand one after the other. -/
theorem Branches.Laid.pairwise_children {b : Branches} {offset : Nat} (h : b.Laid offset) :
    b.children.Pairwise fun first second => first.span.stop ≤ second.span.start := by
  induction b using Branches.clauseInduction generalizing offset with
  | otherwise e => exact List.pairwise_singleton _ e
  | clause p c rest ih =>
    obtain ⟨-, -, hmid, hc, hrest⟩ := h
    have hconsequent := (hc.within c c.self_mem_nodes).2.1
    have hafter : ∀ n ∈ rest.children, c.span.stop ≤ n.span.start := fun n hn =>
      Nat.le_of_lt (hrest.within n (rest.children_subset hn)).1
    refine List.pairwise_cons.2 ⟨List.forall_mem_cons.2 ⟨hmid, fun n hn => ?_⟩, ?_⟩
    · have hstart := hafter n hn
      omega
    · exact List.pairwise_cons.2 ⟨hafter, ih hrest⟩

/-- What stands directly below a node is within it, one after the other. -/
theorem Expr.Laid.children {e : Expr} (h : e.Laid) :
    (∀ child ∈ e.children, child.span.Inside e.span) ∧
      e.children.Pairwise fun first second => first.span.stop ≤ second.span.start := by
  cases e with
  | operate s op l r =>
    obtain ⟨hl, hr, hstart, hmid, hstop⟩ := h
    have hleft := (hl.within l l.self_mem_nodes).2.1
    have hright := (hr.within r r.self_mem_nodes).2.1
    refine ⟨List.forall_mem_cons.2 ⟨⟨hstart, ?_⟩, List.forall_mem_singleton.2 ⟨?_, hstop⟩⟩,
      List.pairwise_pair.2 hmid⟩
    · change l.span.stop ≤ s.stop
      omega
    · change s.start ≤ r.span.start
      omega
  | choose s branches =>
    refine ⟨fun n hn => ?_, h.1.pairwise_children⟩
    have hn := h.within n (Expr.parts_choose_subset s branches (branches.children_subset hn))
    exact ⟨hn.1, hn.2.2⟩
  | _ => exact ⟨nofun, List.Pairwise.nil⟩

theorem LaidBodies.laid {offset : Nat} {statements : List Statement}
    (h : LaidBodies offset statements) : ∀ s ∈ statements, s.body.Laid := by
  induction statements generalizing offset with
  | nil => exact nofun
  | cons s rest ih =>
    obtain ⟨-, hlaid, hrest⟩ := h
    exact List.forall_mem_cons.2 ⟨hlaid, ih hrest⟩

namespace Program

variable {limit : Nat} {source : Source} {p : Program}

theorem laid_of_parseWithin (h : parseWithin limit source = .ok p) : ∀ n ∈ p.nodes, n.Laid := by
  obtain ⟨written, hread, -, rfl⟩ := parseWithin_eq_ok.1 h
  have hlaid := ((Phrase.Read.program_sound hread).laid (Token.Sequence.ordered source)).laid
  intro n hn
  obtain ⟨s, hs, hn⟩ := List.mem_flatMap.1 hn
  exact (hlaid s hs).of_mem hn

/-- The place of a node begins and ends between characters, because its tokens do. -/
theorem isPart_of_parseWithin (h : parseWithin limit source = .ok p) {n : Expr}
    (hn : n ∈ p.nodes) : n.span.IsPart source := by
  obtain ⟨before, text, after, x, hsource, hspan, hderives, -⟩ := exists_text_of_parseWithin h hn
  refine ⟨before, text, after, hsource, ?_, ?_⟩
  · rintro rfl
    obtain ⟨-, inside, last, htokens, -⟩ := hderives.exists_last_stop
    rw [Token.tokensFrom_layout rfl] at htokens
    exact List.append_ne_nil_of_right_ne_nil inside (List.cons_ne_nil last []) htokens.symm
  · rw [Text.byteCount_append]
    exact hspan

end Program

/-! ### Places of findings -/

/-- Whatever is found in an expression is at the place of one of its nodes, and quotes that node. -/
def Evaluator.BlamesNodes {V : Type} (eval : Evaluator V) : Prop :=
  ∀ {env e o}, eval env e = .ok o → ∀ f ∈ o.findings, ∃ n ∈ e.nodes, f.IsAt n.span

namespace Concrete

variable {env : Environment Value} {f : Finding}

theorem Arises.exists_node {n : Expr} (h : Arises env f n) : ∃ m ∈ n.nodes, f.IsAt m.span := by
  cases h with
  | @operate span op left right l r hl hr hmem =>
    obtain ⟨-, -, -, ⟨hat, -⟩ | ⟨hat, -⟩⟩ | rfl := of_mem_operate hmem
    · exact ⟨left, Expr.nodes_left_subset _ _ _ _ left.self_mem_nodes, hat⟩
    · exact ⟨right, Expr.nodes_right_subset _ _ _ _ right.self_mem_nodes, hat⟩
    · exact ⟨_, Expr.self_mem_nodes _, rfl, rfl⟩
  | @predicate span branches p c v x hclause hv hnumber heq =>
    subst heq
    exact ⟨p, Expr.parts_choose_subset _ _ (Branches.clause_mem_parts hclause).1, rfl, rfl⟩

theorem blamesNodes_eval : Evaluator.BlamesNodes eval := by
  intro env e o h f hf
  obtain ⟨n, hvisits, hn⟩ := arises_of_eval e h hf
  obtain ⟨m, hm, hat⟩ := hn.exists_node
  exact ⟨m, Expr.nodes_subset hvisits.mem_nodes hm, hat⟩

end Concrete

namespace Abstract

variable {options : AnalysisOptions} {env : Environment AbstractValue} {f : Finding}

/-- A clause or `otherwise` is warned of at its predicate or at itself. -/
theorem isAt_warning {branches : Branches} {sets : List BooleanSet}
    (hf : f ∈ unreachableFindings branches sets ++ otherwiseFindings options branches sets) :
    (∃ p c, (p, c) ∈ branches.clauses ∧ f.IsAt p.span) ∨ f.IsAt branches.fallback.span := by
  obtain hf | hf := List.mem_append.1 hf
  · obtain ⟨⟨⟨p, c⟩, set⟩, hzip, hfinding⟩ := List.mem_filterMap.1 hf
    obtain ⟨-, hfinding⟩ := Option.ite_none_left_eq_some.1 hfinding
    obtain rfl := Option.some.inj hfinding
    exact .inl ⟨p, c, (List.of_mem_zip hzip).1, rfl, rfl⟩
  · unfold otherwiseFindings at hf
    split at hf
    · obtain rfl := List.mem_singleton.1 hf
      exact .inr ⟨rfl, rfl⟩
    · exact nomatch hf

theorem Arises.exists_node {n : Expr} (h : Arises options env f n) :
    ∃ m ∈ n.nodes, f.IsAt m.span := by
  have hclause : ∀ {span : Span} {branches : Branches} {p c : Expr}, (p, c) ∈ branches.clauses →
      p ∈ (Expr.choose span branches).nodes ∧ c ∈ (Expr.choose span branches).nodes :=
    fun hmem => (Branches.clause_mem_parts hmem).imp (Expr.parts_choose_subset _ _ ·)
      (Expr.parts_choose_subset _ _ ·)
  have hfallback : ∀ {span : Span} (branches : Branches),
      branches.fallback ∈ (Expr.choose span branches).nodes :=
    fun branches => Expr.parts_choose_subset _ _ branches.fallback_mem_parts
  cases h with
  | @operate span op left right l r hl hr hmem =>
    obtain ⟨-, -, -, ⟨hat, -⟩ | ⟨hat, -⟩⟩ | rfl := of_mem_operate hmem
    · exact ⟨left, Expr.nodes_left_subset _ _ _ _ left.self_mem_nodes, hat⟩
    · exact ⟨right, Expr.nodes_right_subset _ _ _ _ right.self_mem_nodes, hat⟩
    · exact ⟨right, Expr.nodes_right_subset _ _ _ _ right.self_mem_nodes, rfl, rfl⟩
  | @predicate span branches p c v hmem hv hf =>
    obtain ⟨⟨i⟩ | s | _, fs⟩ := v
    · obtain rfl := List.mem_singleton.1 hf
      exact ⟨p, (hclause hmem).1, rfl, rfl⟩
    · exact nomatch hf
    · exact nomatch hf
  | @warning span branches parts hparts hf =>
    obtain ⟨p, c, hmem, hat⟩ | hat := isAt_warning hf
    · exact ⟨p, (hclause hmem).1, hat⟩
    · exact ⟨_, hfallback branches, hat⟩
  | @chosen span branches parts hparts hf =>
    obtain ⟨-, a, place, -, hat, hzip, -⟩ := mismatch_of_select hf
    obtain hplace | hplace := List.mem_append.1 (List.of_mem_zip hzip).2
    · obtain ⟨⟨p, c⟩, hmem, rfl⟩ := List.mem_map.1 hplace
      exact ⟨c, (hclause hmem).2, hat⟩
    · obtain rfl := List.mem_singleton.1 hplace
      exact ⟨_, hfallback branches, hat⟩

theorem blamesNodes_eval (options : AnalysisOptions) : Evaluator.BlamesNodes (eval options) := by
  intro env e o h f hf
  obtain ⟨n, hvisits, hn⟩ := arises_of_eval e h hf
  obtain ⟨m, hm, hat⟩ := hn.exists_node
  exact ⟨m, Expr.nodes_subset hvisits.mem_nodes hm, hat⟩

end Abstract

/-! ### What messages quote -/

/-- The mark on either side of a quotation. -/
def Text.quotationMark : Char := Char.ofNat 96

/--
The diagnostic is at the place of the node. Its message puts marks around what is written there,
notes and all, and has no mark before.
-/
structure Diagnostic.Quotes (d : Diagnostic) (source : Source) (n : Expr) : Prop where
  span : d.span = n.span
  location : d.location = .of source n.span.start
  quoted : ∃ text before after, Text.slice? source n.span = some text ∧
    d.message = before ++ "`" ++ String.ofList text ++ "`" ++ after ∧
    Text.quotationMark ∉ before.toList

/-- What stands between two texts is quoted if these end and begin with the mark. -/
theorem Text.exists_quotation (opening closing : String) {first last : String}
    (hfirst : first = opening ++ "`") (hlast : last = "`" ++ closing)
    (hmark : Text.quotationMark ∉ opening.toList) : ∃ before after : String,
      Text.quotationMark ∉ before.toList ∧
      ∀ quoted : String, first ++ quoted ++ last = before ++ "`" ++ quoted ++ "`" ++ after := by
  refine ⟨opening, closing, hmark, fun quoted => ?_⟩
  rw [hfirst, hlast]
  simp only [String.append_assoc]

/-- The part concerned is the first thing that a message quotes. -/
theorem Problem.exists_message (problem : Problem) : ∃ before after : String,
    Text.quotationMark ∉ before.toList ∧
      ∀ quoted, problem.message quoted = before ++ "`" ++ quoted ++ "`" ++ after := by
  cases problem with
  | predicateNotBoolean found =>
    exact Text.exists_quotation "When clause predicate " " is not a boolean" (by decide +kernel)
      (by decide +kernel) (by decide +kernel)
  | consequentTypeMismatch expected found =>
    exact Text.exists_quotation "When clause consequent " " has wrong type" (by decide +kernel)
      (by decide +kernel) (by decide +kernel)
  | nonNumericOperand op found =>
    obtain ⟨before, after, hmark, hquoted⟩ := Text.exists_quotation "Operand " " of `"
      (by decide +kernel : "Operand `" = _) (by decide +kernel : "` of `" = _) (by decide +kernel)
    refine ⟨before, after ++ op.symbol ++ "` is not a number", hmark, fun quoted => ?_⟩
    change "Operand `" ++ quoted ++ "` of `" ++ op.symbol ++ "` is not a number" = _
    rw [hquoted]
    simp only [String.append_assoc]
  | unreachableClause =>
    exact Text.exists_quotation "When clause predicate " " will never be true" (by decide +kernel)
      (by decide +kernel) (by decide +kernel)
  | unreachableOtherwise =>
    exact Text.exists_quotation "Otherwise clause " " will never be reached" (by decide +kernel)
      (by decide +kernel) (by decide +kernel)
  | precisionLoss =>
    exact Text.exists_quotation "Divisor " " may be zero; result is unbounded" (by decide +kernel)
      (by decide +kernel) (by decide +kernel)
  | divisionByZero =>
    exact Text.exists_quotation "Division by zero in " "" (by decide +kernel) (by decide +kernel)
      (by decide +kernel)

theorem Finding.IsAt.quotes {f : Finding} {source : Source} {n : Expr} (h : f.IsAt n.span)
    (hpart : n.span.IsPart source) : (f.diagnostic source).Quotes source n := by
  obtain ⟨text, htext⟩ := hpart.exists_slice
  obtain ⟨before, after, hmark, hmessage⟩ := f.problem.exists_message
  have hlocation : Location.of source f.span.start = .of source n.span.start := by rw [h.span_eq]
  have hquote : Text.quote source f.quoted = String.ofList text := by
    unfold Text.quote
    rw [h.quoted_eq, htext]
    rfl
  refine ⟨h.span_eq, hlocation, text, before, after, htext, ?_, hmark⟩
  rw [← hmessage, ← hquote]
  rfl

namespace Program

variable {limit : Nat} {source : Source} {p : Program}

section Runs

variable {V : Type} {eval : Evaluator V} {sources : Bindings V} {e : Evaluation V}

theorem exists_node_of_run (heval : eval.BlamesNodes) (hrun : p.run eval sources = .ok e) :
    ∀ f ∈ e.findings, ∃ n ∈ p.nodes, f.IsAt n.span := by
  intro f hf
  obtain hdone | ⟨before, s, after, there, r, hs, -, hr, hmem⟩ := mem_findings_of_runFrom hrun hf
  · exact nomatch hdone
  · obtain ⟨n, hn, hat⟩ := heval hr f hmem
    exact ⟨n, mem_nodes_of_statement hs hn, hat⟩

/-- If what an evaluator finds is at nodes, the diagnostics of a run quote nodes. -/
theorem quotes_of_run (h : parseWithin limit source = .ok p) (heval : eval.BlamesNodes)
    (hrun : p.run eval sources = .ok e) :
    ∀ d ∈ e.diagnostics source, ∃ n ∈ p.nodes, d.Quotes source n := by
  intro d hd
  obtain ⟨f, hf, rfl⟩ := List.mem_map.1 hd
  obtain ⟨n, hn, hat⟩ := exists_node_of_run heval hrun f hf
  exact ⟨n, hn, hat.quotes (isPart_of_parseWithin h hn)⟩

end Runs

/-- In any program, read from a text or not, a finding quotes the part that it is at. -/
theorem quoted_eq_span :
    (∀ options described e, p.analyze described options = .ok e →
      ∀ f ∈ e.findings, f.quoted = f.span) ∧
    ∀ sources e, p.interpret sources = .ok e → ∀ f ∈ e.findings, f.quoted = f.span := by
  have hquoted : ∀ {f : Finding}, (∃ n ∈ p.nodes, f.IsAt n.span) → f.quoted = f.span := by
    rintro f ⟨n, -, hat⟩
    exact hat.quoted_eq.trans hat.span_eq.symm
  exact ⟨fun options _ _ hrun f hf =>
      hquoted (exists_node_of_run (Abstract.blamesNodes_eval options) hrun f hf),
    fun _ _ hrun f hf => hquoted (exists_node_of_run Concrete.blamesNodes_eval hrun f hf)⟩

/--
The place of each node of an accepted program is a part of its text, in which what is directly below
the node has its places, one after the other. Each diagnostic of a run, on values or on descriptions
of them, is at the place of a node, and what is written there is the first thing that it quotes.
-/
theorem nested_of_parseWithin (h : parseWithin limit source = .ok p) :
    (∀ n ∈ p.nodes, n.span.IsPart source ∧ (∀ child ∈ n.children, child.span.Inside n.span) ∧
      n.children.Pairwise fun first second => first.span.stop ≤ second.span.start) ∧
    (∀ options described e, p.analyze described options = .ok e →
      ∀ d ∈ e.diagnostics p.source, ∃ n ∈ p.nodes, d.Quotes p.source n) ∧
    ∀ sources e, p.interpret sources = .ok e →
      ∀ d ∈ e.diagnostics p.source, ∃ n ∈ p.nodes, d.Quotes p.source n := by
  have hsource : p.source = source := by
    obtain ⟨written, -, -, rfl⟩ := parseWithin_eq_ok.1 h
    rfl
  rw [hsource]
  exact ⟨fun n hn => ⟨isPart_of_parseWithin h hn, (laid_of_parseWithin h n hn).children⟩,
    fun options _ _ hrun => quotes_of_run h (Abstract.blamesNodes_eval options) hrun,
    fun _ _ hrun => quotes_of_run h Concrete.blamesNodes_eval hrun⟩

end Program

namespace Nesting

/-- An operand that is no number, in parentheses with a note. -/
def noted : Source := "z: (true // so\n) + 1".toList

/-- The problem of its first operand. -/
def found : Finding := ⟨.nonNumericOperand (.arithmetic .add) .boolean, ⟨3, 16⟩, ⟨3, 16⟩⟩

end Nesting

theorem Program.nested_noted : ∃ p e e', parseWithin 8 Nesting.noted = .ok p ∧
    p.analyze .empty .plain = .ok e ∧ p.interpret .empty = .ok e' ∧
    e.findings = [Nesting.found] ∧ e'.findings = [Nesting.found] ∧
    (∃ n ∈ p.nodes, n.span = ⟨3, 20⟩ ∧ n.children.map Expr.span = [⟨3, 16⟩, ⟨19, 20⟩] ∧
      n.span.IsPart Nesting.noted) ∧
    (∃ n ∈ p.nodes, (Nesting.found.diagnostic p.source).Quotes p.source n) ∧
    ∃ n ∈ p.nodes, (Nesting.found.diagnostic p.source).Quotes p.source n := by
  have hrun : ((parseWithin 8 Nesting.noted).toOption.map fun p =>
      ((p.analyze .empty .plain).toOption.map (·.findings),
        (p.interpret .empty).toOption.map (·.findings),
        p.nodes.any fun n => n.span = ⟨3, 20⟩ ∧
          n.children.map Expr.span = [⟨3, 16⟩, ⟨19, 20⟩])) =
      some (some [Nesting.found], some [Nesting.found], true) := by
    decide +kernel
  obtain ⟨p, hp, hrun⟩ := Option.map_eq_some_iff.1 hrun
  obtain ⟨hanalyze, hboth⟩ := Prod.mk.inj hrun
  obtain ⟨hinterpret, hany⟩ := Prod.mk.inj hboth
  obtain ⟨e, he, hfindings⟩ := Option.map_eq_some_iff.1 hanalyze
  obtain ⟨e', he', hfindings'⟩ := Option.map_eq_some_iff.1 hinterpret
  obtain ⟨n, hn, hspans⟩ := List.any_eq_true.1 hany
  obtain ⟨hspan, hchildren⟩ := of_decide_eq_true hspans
  obtain ⟨hnodes, hdescribed, hvalues⟩ := nested_of_parseWithin (ok_of_toOption hp)
  refine ⟨p, e, e', ok_of_toOption hp, ok_of_toOption he, ok_of_toOption he', hfindings,
    hfindings', ⟨n, hn, hspan, hchildren, (hnodes n hn).1⟩, ?_, ?_⟩
  · refine hdescribed .plain .empty e (ok_of_toOption he) _ (List.mem_map_of_mem ?_)
    rw [hfindings]
    exact List.mem_singleton_self _
  · refine hvalues .empty e' (ok_of_toOption he') _ (List.mem_map_of_mem ?_)
    rw [hfindings']
    exact List.mem_singleton_self _

end RangeRules
