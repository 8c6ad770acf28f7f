import RangeRules.Proofs.Program.Composition
import RangeRules.Proofs.Program.Extent
import RangeRules.Proofs.Program.Parentheses

/-!
# The text of a node means the node

What is written at the place of a node is an expression in its own right: as the body of a sink it
becomes the same tree, wherever the variables that it reads are assigned before. It is no deeper
there than it was, and tokens around it made no difference to its own.
-/
namespace RangeRules

open Text (Source byteCount)
open Phrase

/-! ### Lines -/

namespace Token

/-- A lexeme in front of a character that ends it is the first token. -/
theorem IsLexeme.kinds_append {s : List Char} {k : Kind} (h : IsLexeme s k) {b : Char}
    (hb : isContinuation b = false) (hslash : b ≠ '/') (cs : List Char) :
    kinds (s ++ b :: cs) = k :: kinds (b :: cs) := by
  obtain ⟨c, s, rfl⟩ := h.exists_cons
  have hstop := classify_stops (c := c) hb s cs
  have hlength : (classify c (s ++ b :: cs)).2 = s.length :=
    Nat.le_antisymm hstop (h.le_classify (b :: cs))
  have hkind : (classify c (s ++ b :: cs)).1 = k := by
    rw [classify_append hstop]
    exact h.kind_eq
  have hsettled : Settled (c :: (s ++ b :: cs)) := by
    refine settled_cons.2 ⟨h.not_isSpace, ?_⟩
    rintro ⟨rfl, hhead⟩
    obtain rfl : s = [] := List.length_eq_zero_iff.1 (hlength.symm.trans rfl)
    exact hslash (Option.some.inj hhead)
  rw [List.cons_append, hsettled.kinds_eq, next?, hkind, hlength, List.drop_left]

/-- A name is a lexeme of a text that has it as a token. -/
theorem isLexeme_of_mem {source : Source} {name : String} {span : Text.Span}
    (h : ⟨.name name, span⟩ ∈ (Sequence.of source).tokens) : IsLexeme name.toList (.name name) := by
  obtain ⟨text, -, hlexeme | ⟨_, hstray⟩⟩ := exists_slice_of_mem h
  · obtain rfl := hlexeme.eq_name
    exact hlexeme
  · exact nomatch hstray

theorem kinds_line (p q : Source) : kinds (p ++ '\n' :: q) = kinds p ++ kinds q := by
  rw [← Sequence.map_kind, tokens_line, List.map_append, Sequence.map_kind, List.map_map,
    ← Sequence.map_kind q]
  rfl

end Token

theorem Statement.relocate_nowhere (g : Relocation) (s : Statement) :
    (s.relocate g).relocate .nowhere = s.relocate .nowhere := by
  cases s with
  | «variable» name body => exact congrArg (Statement.variable name) (body.relocate_nowhere g)
  | sink name body => exact congrArg (Statement.sink name) (body.relocate_nowhere g)

theorem map_tree_of_starts {written written' : List WrittenStatement}
    (h : written'.map (·.relocate .starts) = written.map (·.relocate .starts)) :
    (written'.map (·.tree)).map (·.relocate .nowhere) =
      (written.map (·.tree)).map (·.relocate .nowhere) := by
  have hnowhere : ∀ statements : List Statement, (statements.map (·.relocate .starts)).map
      (·.relocate .nowhere) = statements.map (·.relocate .nowhere) := by
    intro statements
    rw [List.map_map]
    exact List.map_congr_left fun s _ => s.relocate_nowhere .starts
  rw [← hnowhere, ← map_tree_relocate, h, map_tree_relocate, hnowhere]

/-- The program assigns the variable. -/
def Program.Assigns (p : Program) (name : String) : Prop :=
  ∃ body, .variable name body ∈ p.statements

theorem Program.assigns_iff {written : List WrittenStatement} {source : Source} {name : String} :
    Assigns ⟨source, written.map (·.tree)⟩ name ↔ name ∈ declareAll [] written := by
  rw [mem_declareAll, or_iff_right List.not_mem_nil]
  constructor
  · rintro ⟨body, hmem⟩
    obtain ⟨s, hs, hstatement⟩ := List.mem_map.1 hmem
    obtain ⟨_ | _, name', span, x⟩ := s
    · obtain ⟨rfl, -⟩ := Statement.variable.inj hstatement
      exact ⟨_, hs, rfl, rfl⟩
    · exact nomatch hstatement
  · rintro ⟨⟨_, name', span, x⟩, hs, rfl, rfl⟩
    exact ⟨x.tree, List.mem_map.2 ⟨_, hs, rfl⟩⟩

/-- A line with a further statement, whose variables are assigned, goes on with a program. -/
theorem Program.parseWithin_statement {limit finish : Nat} {front line : Source} {first : Program}
    {ts : List Token} {s : WrittenStatement} (hfront : parseWithin limit front = .ok first)
    (hderives : DerivesStatement finish ts s []) (hkinds : kindsOf ts = Token.kinds line)
    (hlevels : s.body.levels ≤ limit)
    (hready : ∀ declared, (∀ name, first.Assigns name → name ∈ declared) →
      s.body.tree.Ready declared)
    (hfresh : s.isSink = true → s.name ∉ first.sinkNames) :
    ∃ p, parseWithin limit (front ++ '\n' :: line) = .ok p ∧
      p.statements.map (·.relocate .nowhere) =
        first.statements.map (·.relocate .nowhere) ++ [s.tree.relocate .nowhere] := by
  obtain ⟨written, hread, hall, rfl⟩ := parseWithin_eq_ok.1 hfront
  obtain ⟨consumed, htokens, hfollowed⟩ := (Read.program_sound hread).followed
  rw [List.append_nil] at htokens
  obtain ⟨written', hwritten, hstarts, -⟩ := hfollowed finish ts
  have hspells : kindsOf (consumed ++ ts) = Token.kinds (front ++ '\n' :: line) := by
    rw [Token.kinds_line, ← htokens, ← Token.Sequence.map_kind front, ← hkinds]
    exact List.map_append
  have hpasses : s.Passes limit (declareAll [] written) (fillAll [] written) := by
    refine ⟨hlevels, hready _ fun name => assigns_iff.1, fun hsink hmem => ?_⟩
    obtain ⟨t, ht, htsink, hname⟩ := (mem_fillAll.1 hmem).resolve_left List.not_mem_nil
    exact hfresh hsink (hname ▸ mem_sinkNamesOf ht htsink)
  have hboth : PassAll limit [] [] (written' ++ [s]) := by
    rw [← passAll_relocate .starts, List.map_append, hstarts, ← List.map_append, passAll_relocate]
    exact passAll_append.2 ⟨hall, hpasses, trivial⟩
  obtain ⟨p, hp, hsame⟩ :=
    parseWithin_of_derives (hwritten.append (.cons hderives (.nil []))) hboth hspells
  refine ⟨p, hp, hsame.trans ?_⟩
  rw [List.map_append, List.map_append, map_tree_of_starts hstarts]
  rfl

/-! ### Conditions on nodes -/

/-- Nothing is wrong with the node itself: a number is finite, a variable declared. -/
def Expr.Stands (declared : List String) : Expr → Prop
  | .number _ x => x.isFinite = true
  | .variable _ name => name ∈ declared
  | .boolean .. | .source .. | .operate .. | .choose .. => True

instance (declared : List String) : DecidablePred (Expr.Stands declared)
  | .number _ x => inferInstanceAs (Decidable (x.isFinite = true))
  | .variable _ name => inferInstanceAs (Decidable (name ∈ declared))
  | .boolean .. | .source .. | .operate .. | .choose .. => inferInstanceAs (Decidable True)

theorem Expr.forall_mem_nodes {P : Expr → Prop} (e : Expr) :
    (∀ n ∈ e.nodes, P n) ↔ P e ∧ ∀ n ∈ e.parts, P n :=
  List.forall_mem_cons

mutual

/-- The condition on an expression is one on each of its nodes. -/
theorem Expr.ready_iff {declared : List String} : ∀ e : Expr,
    e.Ready declared ↔ ∀ n ∈ e.nodes, n.Stands declared
  | .number .. | .variable .. | .boolean .. | .source .. => by
    rw [Expr.forall_mem_nodes]
    exact (and_iff_left nofun).symm
  | .operate span op l r => by
    rw [Expr.Ready, l.ready_iff, r.ready_iff, Expr.forall_mem_nodes (.operate ..),
      Expr.parts_operate, List.forall_mem_append]
    exact (and_iff_right trivial).symm
  | .choose span branches => by
    rw [Expr.Ready, branches.ready_iff, Expr.forall_mem_nodes]
    exact (and_iff_right trivial).symm

theorem Branches.ready_iff {declared : List String} : ∀ b : Branches,
    b.Ready declared ↔ ∀ n ∈ b.parts, n.Stands declared
  | .otherwise e => e.ready_iff
  | .clause p c rest => by
    rw [Branches.Ready, p.ready_iff, c.ready_iff, rest.ready_iff, Branches.parts_clause,
      List.forall_mem_append, List.forall_mem_append]

end

theorem PhraseBranches.levels_pos : ∀ b : PhraseBranches, 0 < b.levels
  | .otherwise (.chain ..) | .otherwise (.choose ..) => Nat.succ_pos _
  | .clause _ _ rest => Nat.lt_of_lt_of_le rest.levels_pos (Nat.le_max_right ..)

/-- An expression has the level of its top, and one more at least. -/
theorem Phrase.two_le_levels : ∀ x : Phrase, 2 ≤ x.levels
  | .chain _ (.number ..) | .chain _ (.boolean ..) | .chain _ (.source ..)
  | .chain _ (.variable ..) => Nat.le_refl 2
  | .chain _ (.group ..) | .chain _ (.operate ..) =>
    Nat.succ_le_succ (Nat.succ_le_succ (Nat.zero_le _))
  | .choose _ branches => Nat.succ_le_succ branches.levels_pos

namespace Program

variable {limit : Nat} {source : Source} {p : Program}

/-- A node of an accepted program reads variables that the program assigns. -/
theorem ready_of_parseWithin (h : parseWithin limit source = .ok p) {n : Expr}
    (hn : n ∈ p.nodes) : ∃ declared, n.Ready declared ∧ ∀ name ∈ declared, p.Assigns name := by
  obtain ⟨written, hread, hall, rfl⟩ := parseWithin_eq_ok.1 h
  obtain ⟨t, ht, hnode⟩ := List.mem_flatMap.1 hn
  obtain ⟨s, hs, rfl⟩ := List.mem_map.1 ht
  rw [s.body_tree] at hnode
  obtain ⟨before, after, rfl⟩ := List.append_of_mem hs
  have hready := (passAll_append.1 hall).2.1.ready
  refine ⟨declareAll [] before, ?_, fun name hname => assigns_iff.2 ?_⟩
  · rw [Expr.ready_iff] at hready ⊢
    exact fun m hm => hready m (Expr.nodes_subset hnode hm)
  · obtain ⟨t, ht, hassign⟩ := (mem_declareAll.1 hname).resolve_left List.not_mem_nil
    exact mem_declareAll.2 (.inr ⟨t, List.mem_append_left _ ht, hassign⟩)

/-- The name of a variable that a program assigns is a token of it. -/
theorem isLexeme_of_assigns (h : parseWithin limit source = .ok p) {name : String}
    (hassigns : p.Assigns name) : Token.IsLexeme name.toList (.name name) := by
  obtain ⟨written, hread, -, rfl⟩ := parseWithin_eq_ok.1 h
  obtain ⟨s, hs, -, rfl⟩ :=
    (mem_declareAll.1 (assigns_iff.1 hassigns)).resolve_left List.not_mem_nil
  obtain ⟨before, after, rfl⟩ := List.append_of_mem hs
  obtain ⟨consumed, mid, rest, htokens, hderives, ⟨offset, hmid⟩, -⟩ := exists_tokens_of_read hread
  obtain ⟨⟨stop, others, rfl⟩, -⟩ := hderives.within hmid
  have hmem : ⟨.name s.name, ⟨s.span.start, stop⟩⟩ ∈ (Token.Sequence.of source).tokens := by
    rw [htokens]
    exact List.mem_append_right _ List.mem_cons_self
  exact Token.isLexeme_of_mem hmem

/-! ### Lines -/

/-- A line that assigns a sink the text of a node. -/
def sinkLine (name : String) (text : Source) : Source := name.toList ++ ':' :: ' ' :: text

/-- A line that assigns a variable some number. -/
def zeroLine (name : String) : Source := name.toList ++ " = 0".toList

theorem kinds_sinkLine {name : String} (h : Token.IsLexeme name.toList (.name name))
    (text : Source) :
    Token.kinds (sinkLine name text) = .name name :: .colon :: Token.kinds text := by
  have hcolon : Token.IsLexeme [':'] .colon := .mark (by decide)
  have hrest := hcolon.kinds_append (b := ' ') (by decide) (by decide) text
  unfold sinkLine
  rw [h.kinds_append (by decide) (by decide), ← Token.kinds_blank (c := ' ') rfl text, ← hrest]
  rfl

theorem kinds_zeroLine {name : String} (h : Token.IsLexeme name.toList (.name name)) :
    Token.kinds (zeroLine name) = [.name name, .assign, .number ['0']] := by
  have hrest : Token.kinds " = 0".toList = [.assign, .number ['0']] := by
    decide +kernel
  rw [← hrest]
  exact h.kinds_append (by decide) (by decide) "= 0".toList

theorem assigns_iff_nowhere {name : String} :
    p.Assigns name ↔ ∃ body, .variable name body ∈ p.statements.map (·.relocate .nowhere) := by
  constructor
  · rintro ⟨body, hmem⟩
    exact ⟨body.relocate .nowhere, List.mem_map_of_mem hmem⟩
  · rintro ⟨body, hmem⟩
    obtain ⟨s, hs, hsame⟩ := List.mem_map.1 hmem
    cases s with
    | sink name' body' => exact nomatch hsame
    | «variable» name' body' =>
      obtain ⟨rfl, -⟩ := Statement.variable.inj hsame
      exact ⟨body', hs⟩

/-- Where an expression may stand, assignments of the variables that it reads may stand, too. -/
theorem exists_prelude (hlimit : 2 ≤ limit) (names : List String)
    (hnames : ∀ name ∈ names, Token.IsLexeme name.toList (.name name)) :
    ∃ front first, parseWithin limit front = .ok first ∧ first.sinkNames = [] ∧
      ∀ name ∈ names, first.Assigns name := by
  induction names with
  | nil =>
    have htokens : (Token.Sequence.of []).tokens = [] := Token.tokensFrom_layout rfl 0
    have hread : read [] = .ok [] := Read.program_eq_ok.2 (by rw [htokens]; exact .nil [])
    exact ⟨[], _, parseWithin_eq_ok.2 ⟨[], hread, trivial, rfl⟩, rfl, nofun⟩
  | cons name names ih =>
    obtain ⟨hname, hnames⟩ := List.forall_mem_cons.1 hnames
    obtain ⟨front, first, hfront, hsinks, hassigns⟩ := ih hnames
    have hzero : Derives 0 [⟨.number ['0'], ⟨0, 0⟩⟩] (.chain ⟨0, 0⟩ (.number ⟨0, 0⟩ ['0'])) [] :=
      .chain (.number ['0'] ⟨0, 0⟩ []) (.nil [])
    have hfinite : (Number.ofLiteral ['0']).isFinite = true := by
      decide +kernel
    obtain ⟨p, hp, hsame⟩ := parseWithin_statement hfront (.assign name ⟨0, 0⟩ ⟨0, 0⟩ hzero)
      (kinds_zeroLine hname).symm hlimit (fun _ _ => hfinite) nofun
    refine ⟨_, p, hp, ?_, List.forall_mem_cons.2 ⟨?_, fun other hother => ?_⟩⟩
    · change sinkNamesOf p.statements = []
      rw [← sinkNamesOf_relocate .nowhere, hsame]
      unfold sinkNamesOf Program.sinkNames
      rw [List.filterMap_append]
      exact (List.append_nil _).trans ((sinkNamesOf_relocate .nowhere _).trans hsinks)
    · rw [assigns_iff_nowhere, hsame]
      exact ⟨_, List.mem_append_right _ (List.mem_singleton_self _)⟩
    · obtain ⟨body, hmem⟩ := assigns_iff_nowhere.1 (hassigns other hother)
      rw [assigns_iff_nowhere, hsame]
      exact ⟨body, List.mem_append_left _ hmem⟩

/--
The text of a node in an accepted program is accepted as the body of a sink, within the same limit,
after any program that assigns the variables that the node reads, and there it becomes the same
tree, places aside. There are such programs that only assign variables.
-/
theorem parseWithin_text (h : parseWithin limit source = .ok p) {n : Expr} (hn : n ∈ p.nodes) :
    ∃ text, Text.slice? source n.span = some text ∧
      (∀ front first name, parseWithin limit front = .ok first →
        (∀ span var, .variable span var ∈ n.nodes → first.Assigns var) →
        Token.IsLexeme name.toList (.name name) → name ∉ first.sinkNames →
        ∃ p', parseWithin limit (front ++ '\n' :: sinkLine name text) = .ok p' ∧
          p'.statements.map (·.relocate .nowhere) =
            first.statements.map (·.relocate .nowhere) ++ [.sink name (n.relocate .nowhere)]) ∧
      ∃ front first, parseWithin limit front = .ok first ∧ first.sinkNames = [] ∧
        ∀ span var, .variable span var ∈ n.nodes → first.Assigns var := by
  obtain ⟨before, text, after, x, rfl, hspan, hderives, htree, hlevels⟩ :=
    exists_text_of_parseWithin h hn
  obtain ⟨assigned, hready, hassigned⟩ := ready_of_parseWithin h hn
  refine ⟨text, hspan ▸ Text.slice?_append before text after,
    fun front first name hfront hvars hname hfresh => ?_, ?_⟩
  · have hsink := DerivesStatement.sink name ⟨0, 0⟩ ⟨0, 0⟩ hderives
    have hkinds : kindsOf (⟨.name name, ⟨0, 0⟩⟩ :: ⟨.colon, ⟨0, 0⟩⟩ ::
        Token.tokensFrom (byteCount before) text) = Token.kinds (sinkLine name text) := by
      rw [kinds_sinkLine hname, ← Token.map_kind_tokensFrom (byteCount before)]
      rfl
    have hagain : ∀ declared, (∀ var, first.Assigns var → var ∈ declared) →
        x.tree.Ready declared := by
      intro declared hdeclared
      rw [← Expr.ready_relocate .nowhere, htree, Expr.ready_relocate, Expr.ready_iff]
      rw [Expr.ready_iff] at hready
      intro m hm
      cases m with
      | number span x => exact hready _ hm
      | «variable» span var => exact hdeclared var (hvars span var hm)
      | _ => trivial
    obtain ⟨p', hp', hsame⟩ :=
      parseWithin_statement hfront hsink hkinds hlevels hagain fun _ => hfresh
    refine ⟨p', hp', hsame.trans ?_⟩
    rw [← htree]
    rfl
  · have hlimit : 2 ≤ limit := Nat.le_trans x.two_le_levels hlevels
    obtain ⟨front, first, hfront, hsinks, hassigns⟩ := exists_prelude hlimit assigned
      fun name hname => isLexeme_of_assigns h (hassigned name hname)
    refine ⟨front, first, hfront, hsinks, fun span var hvar => hassigns var ?_⟩
    rw [Expr.ready_iff] at hready
    exact hready _ hvar

end Program

namespace Quotation

/-- A product of a group, with a note between its tokens, on one side of a comparison. -/
def noted : Source := "a = 2 z: when (a - 1) // so\n* a > 1 a otherwise 0".toList

/-- Where the product is written. -/
def product : Text.Span := ⟨14, 31⟩

/-- Assigns the variable of the product. -/
def prelude : Source := "a = 7".toList

end Quotation

theorem Program.parseWithin_text_noted : ∃ (p p' : Program) (n : Expr),
    parseWithin 8 Quotation.noted = .ok p ∧ n ∈ p.nodes ∧ n.span = Quotation.product ∧
      parseWithin 8 "a = 7\nw: (a - 1) // so\n* a".toList = .ok p' ∧
      p'.statements.getLast?.map (·.relocate .nowhere) =
        some (.sink "w" (n.relocate .nowhere)) := by
  have hparse : ((parseWithin 8 Quotation.noted).toOption.bind fun p =>
      p.nodes.find? fun n =>
        n.span = Quotation.product ∧ ∀ m ∈ n.nodes, m.Stands ["a"]).isSome = true := by
    decide +kernel
  have hprelude : (parseWithin 8 Quotation.prelude).toOption.map Program.sinkNames = some [] := by
    decide +kernel
  have hdeclared : (read Quotation.prelude).toOption.map (declareAll []) = some ["a"] := by
    decide +kernel
  have hslice : Text.slice? Quotation.noted Quotation.product =
      some "(a - 1) // so\n* a".toList := by
    decide +kernel
  have hword : ⟨.name "w", ⟨0, 1⟩⟩ ∈ (Token.Sequence.of "w".toList).tokens := by
    decide +kernel
  have hsource : Quotation.prelude ++ '\n' :: sinkLine "w" "(a - 1) // so\n* a".toList =
      "a = 7\nw: (a - 1) // so\n* a".toList := by
    decide +kernel
  obtain ⟨n, hfind⟩ := Option.isSome_iff_exists.1 hparse
  obtain ⟨p, hp, hfind⟩ := Option.bind_eq_some_iff.1 hfind
  have hn := List.mem_of_find?_eq_some hfind
  have hproduct := List.find?_some hfind
  rw [decide_eq_true_iff] at hproduct
  obtain ⟨hspan, hvars⟩ := hproduct
  obtain ⟨first, hfirst, hsinks⟩ := Option.map_eq_some_iff.1 hprelude
  have hfresh : "w" ∉ first.sinkNames := hsinks ▸ List.not_mem_nil
  obtain ⟨written, hread, -, rfl⟩ := parseWithin_eq_ok.1 (ok_of_toOption hfirst)
  rw [hread] at hdeclared
  have hassigns : Assigns ⟨Quotation.prelude, written.map (·.tree)⟩ "a" :=
    assigns_iff.2 (Option.some.inj hdeclared ▸ List.mem_singleton_self _)
  obtain ⟨text, htext, hall, -⟩ := Program.parseWithin_text (ok_of_toOption hp) hn
  rw [hspan, hslice] at htext
  obtain rfl := Option.some.inj htext
  obtain ⟨p', hp', hsame⟩ := hall Quotation.prelude _ "w" (ok_of_toOption hfirst)
    (fun span var hvar => List.mem_singleton.1 (hvars _ hvar) ▸ hassigns)
    (Token.isLexeme_of_mem hword) hfresh
  rw [hsource] at hp'
  refine ⟨p, p', n, ok_of_toOption hp, hn, hspan, hp', ?_⟩
  rw [← List.getLast?_map, hsame, List.getLast?_append]
  rfl

end RangeRules
