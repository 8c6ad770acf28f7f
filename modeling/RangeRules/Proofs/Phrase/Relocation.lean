import RangeRules.Proofs.Phrase.Derivation
import RangeRules.Proofs.Program.Check

/-!
# Phrases in another place

What is written elsewhere is read as the same phrase there: a derivation uses the places of its
tokens, but never compares them. Nor do levels and checks depend on places. A relocation may treat
starts and ends differently, so that it may also forget one of the two.
-/
namespace RangeRules

open Text (Span)
open Token (Kind startOf)

/-- A change of places. -/
structure Relocation where
  start : Nat → Nat
  stop : Nat → Nat

namespace Relocation

/-- Starts and ends are changed alike. -/
def along (f : Nat → Nat) : Relocation := ⟨f, f⟩

/-- Moves everything forward by some bytes. -/
def shift (n : Nat) : Relocation := along (· + n)

/-- Forgets where things end. -/
def starts : Relocation := ⟨id, fun _ => 0⟩

/-- Forgets all places. -/
def nowhere : Relocation := ⟨fun _ => 0, fun _ => 0⟩

def span (g : Relocation) (s : Span) : Span := ⟨g.start s.start, g.stop s.stop⟩

/-- The token in its new place. -/
def token (g : Relocation) (t : Token) : Token := ⟨t.kind, g.span t.span⟩

variable (g : Relocation)

theorem span_cover (s t : Span) : g.span (.cover s t) = .cover (g.span s) (g.span t) := rfl

end Relocation

variable (g : Relocation)

mutual

def Expr.relocate : Expr → Expr
  | .number s x => .number (g.span s) x
  | .boolean s b => .boolean (g.span s) b
  | .variable s name => .variable (g.span s) name
  | .source s name => .source (g.span s) name
  | .operate s op l r => .operate (g.span s) op l.relocate r.relocate
  | .choose s branches => .choose (g.span s) branches.relocate

def Branches.relocate : Branches → Branches
  | .otherwise e => .otherwise e.relocate
  | .clause p c rest => .clause p.relocate c.relocate rest.relocate

end

mutual

def Term.relocate : Term → Term
  | .number s digits => .number (g.span s) digits
  | .boolean s b => .boolean (g.span s) b
  | .source s name => .source (g.span s) name
  | .variable s name => .variable (g.span s) name
  | .group s inner => .group (g.span s) inner.relocate
  | .operate op l r => .operate op l.relocate r.relocate

def Phrase.relocate : Phrase → Phrase
  | .chain s top => .chain (g.span s) top.relocate
  | .choose s branches => .choose (g.span s) branches.relocate

def PhraseBranches.relocate : PhraseBranches → PhraseBranches
  | .otherwise value => .otherwise value.relocate
  | .clause p c rest => .clause p.relocate c.relocate rest.relocate

end

def Statement.relocate : Statement → Statement
  | .variable name body => .variable name (body.relocate g)
  | .sink name body => .sink name (body.relocate g)

def WrittenStatement.relocate (s : WrittenStatement) : WrittenStatement :=
  ⟨s.isSink, s.name, g.span s.span, s.body.relocate g⟩

@[simp]
theorem Expr.span_relocate (e : Expr) : (e.relocate g).span = g.span e.span := by
  cases e <;> rfl

theorem Expr.relocate_withSpan (s : Span) (e : Expr) :
    (e.withSpan s).relocate g = (e.relocate g).withSpan (g.span s) := by
  cases e <;> rfl

@[simp]
theorem Term.span_relocate (t : Term) : (t.relocate g).span = g.span t.span := by
  cases t with
  | operate op l r =>
    rw [Term.relocate, Term.span, Term.span, l.span_relocate, r.span_relocate]
    rfl
  | _ => rfl

@[simp]
theorem Phrase.span_relocate (p : Phrase) : (p.relocate g).span = g.span p.span := by
  cases p <;> rfl

/-! ### Trees, levels and checks -/

mutual

theorem Term.tree_relocate : ∀ t : Term, (t.relocate g).tree = t.tree.relocate g
  | .number .. | .boolean .. | .source .. | .variable .. => rfl
  | .group s inner => by
    rw [Term.relocate, Term.tree, inner.tree_relocate, Term.tree, Expr.relocate_withSpan]
  | .operate op l r => by
    rw [Term.relocate, Term.tree, l.tree_relocate, r.tree_relocate, l.span_relocate,
      r.span_relocate, ← Relocation.span_cover]
    rfl

theorem Phrase.tree_relocate : ∀ p : Phrase, (p.relocate g).tree = p.tree.relocate g
  | .chain _ top => top.tree_relocate
  | .choose s branches => congrArg (Expr.choose (g.span s)) branches.tree_relocate

theorem PhraseBranches.tree_relocate : ∀ b : PhraseBranches,
    (b.relocate g).tree = b.tree.relocate g
  | .otherwise value => congrArg Branches.otherwise value.tree_relocate
  | .clause p c rest => by
    rw [PhraseBranches.relocate, PhraseBranches.tree, p.tree_relocate, c.tree_relocate,
      rest.tree_relocate]
    rfl

end

mutual

theorem Term.levels_relocate : ∀ t : Term, (t.relocate g).levels = t.levels
  | .number .. | .boolean .. | .source .. | .variable .. => rfl
  | .group _ inner => congrArg (· + 1) inner.levels_relocate
  | .operate _ l r => by
    rw [Term.relocate, Term.levels, l.levels_relocate, r.levels_relocate, Term.levels]

theorem Phrase.levels_relocate : ∀ p : Phrase, (p.relocate g).levels = p.levels
  | .chain _ top => congrArg (· + 1) top.levels_relocate
  | .choose _ branches => congrArg (· + 1) branches.levels_relocate

theorem PhraseBranches.levels_relocate : ∀ b : PhraseBranches, (b.relocate g).levels = b.levels
  | .otherwise value => value.levels_relocate
  | .clause p c rest => by
    rw [PhraseBranches.relocate, PhraseBranches.levels, p.levels_relocate, c.levels_relocate,
      rest.levels_relocate, PhraseBranches.levels]

end

mutual

theorem Expr.ready_relocate {declared : List String} : ∀ e : Expr,
    (e.relocate g).Ready declared ↔ e.Ready declared
  | .number .. | .boolean .. | .variable .. | .source .. => Iff.rfl
  | .operate _ _ l r => and_congr l.ready_relocate r.ready_relocate
  | .choose _ branches => branches.ready_relocate

theorem Branches.ready_relocate {declared : List String} : ∀ b : Branches,
    (b.relocate g).Ready declared ↔ b.Ready declared
  | .otherwise e => e.ready_relocate
  | .clause p c rest =>
    and_congr p.ready_relocate (and_congr c.ready_relocate rest.ready_relocate)

end

theorem WrittenStatement.tree_relocate (s : WrittenStatement) :
    (s.relocate g).tree = s.tree.relocate g := by
  unfold tree relocate
  dsimp only
  rw [Phrase.tree_relocate]
  split <;> rfl

theorem map_tree_relocate (written : List WrittenStatement) :
    (written.map (·.relocate g)).map (·.tree) = (written.map (·.tree)).map (·.relocate g) := by
  rw [List.map_map, List.map_map]
  exact List.map_congr_left fun s _ => s.tree_relocate g

/-- A check of statements passes wherever they are written. -/
theorem passAll_relocate {limit : Nat} {declared sinks : List String}
    {written : List WrittenStatement} : PassAll limit declared sinks
      (written.map (·.relocate g)) ↔ PassAll limit declared sinks written := by
  induction written generalizing declared sinks with
  | nil => exact Iff.rfl
  | cons s rest ih =>
    refine and_congr ?_ ih
    have hready := @Expr.ready_relocate g declared s.body.tree
    rw [← Phrase.tree_relocate] at hready
    constructor
    · rintro ⟨hlevels, hbody, hfresh⟩
      exact ⟨s.body.levels_relocate g ▸ hlevels, hready.1 hbody, hfresh⟩
    · rintro ⟨hlevels, hbody, hfresh⟩
      exact ⟨(s.body.levels_relocate g).symm ▸ hlevels, hready.2 hbody, hfresh⟩

/-! ### Derivations -/

namespace Term

def relocateLinks (links : Links) : Links := links.map fun link => (link.1, link.2.relocate g)

theorem resolveFrom_relocate (waiting : Option (Term × Arithmetic)) (product : Term)
    (links : Links) : (resolveFrom waiting product links).relocate g =
      resolveFrom (waiting.map fun w => (w.1.relocate g, w.2)) (product.relocate g)
        (relocateLinks g links) := by
  have hcomplete : ∀ (waiting : Option (Term × Arithmetic)) (right : Term),
      (complete waiting right).relocate g =
        complete (waiting.map fun w => (w.1.relocate g, w.2)) (right.relocate g) := by
    intro waiting right
    cases waiting <;> rfl
  induction links generalizing waiting product with
  | nil => exact hcomplete waiting product
  | cons link rest ih =>
    obtain ⟨op, t⟩ := link
    change _ = resolveFrom _ _ ((op, t.relocate g) :: relocateLinks g rest)
    rw [resolveFrom, resolveFrom]
    split
    · exact ih waiting _
    · rw [ih, ← hcomplete]
      rfl

theorem resolve_relocate (first : Term) (links : Links) : (first.resolve links).relocate g =
    (first.relocate g).resolve (relocateLinks g links) :=
  resolveFrom_relocate g none first links

end Term

section Along

variable (f : Nat → Nat) {finish : Nat}

theorem startOf_map (ts : List Token) :
    startOf (f finish) (ts.map (Relocation.along f).token) = f (startOf finish ts) := by
  cases ts <;> rfl

theorem comparedStop_relocate (next : Nat) (first : Term) (links : Links) :
    Phrase.Read.comparedStop (f next) (first.relocate (.along f))
      (Term.relocateLinks (.along f) links) = f (Phrase.Read.comparedStop next first links) := by
  unfold Phrase.Read.comparedStop
  rw [← Term.resolve_relocate, Term.span_relocate]
  cases links <;> rfl

namespace Phrase

mutual

theorem DerivesOperand.relocate {ts rest : List Token} {t : Term} :
    DerivesOperand finish ts t rest →
      DerivesOperand (f finish) (ts.map (Relocation.along f).token) (t.relocate (.along f))
        (rest.map (Relocation.along f).token)
  | .boolean .. => .boolean ..
  | .number .. => .number ..
  | .variable .. => .variable ..
  | .source .. => .source ..
  | .group _ _ h => .group _ _ h.relocate

theorem DerivesLinks.relocate {ts rest : List Token} {links : Links} :
    DerivesLinks finish ts links rest →
      DerivesLinks (f finish) (ts.map (Relocation.along f).token)
        (Term.relocateLinks (.along f) links) (rest.map (Relocation.along f).token)
  | .nil _ => .nil _
  | .cons op _ head tail => .cons op _ head.relocate tail.relocate

theorem DerivesBranches.relocate {ts rest : List Token} {branches : PhraseBranches} {stop : Nat} :
    DerivesBranches finish ts branches stop rest →
      DerivesBranches (f finish) (ts.map (Relocation.along f).token)
        (branches.relocate (.along f)) (f stop) (rest.map (Relocation.along f).token)
  | @DerivesBranches.otherwise _ _ _ value s h => by
    have hvalue := DerivesBranches.otherwise ((Relocation.along f).span s) h.relocate
    rw [value.span_relocate] at hvalue
    exact hvalue
  | .clause _ p c tail => .clause _ p.relocate c.relocate tail.relocate

/-- A phrase is read as the same where its tokens are moved to. -/
theorem Derives.relocate {ts rest : List Token} {x : Phrase} :
    Derives finish ts x rest →
      Derives (f finish) (ts.map (Relocation.along f).token) (x.relocate (.along f))
        (rest.map (Relocation.along f).token)
  | @Derives.chain _ ts mid rest t links head tail => by
    have h := Derives.chain head.relocate tail.relocate
    rw [startOf_map, startOf_map, ← Term.resolve_relocate] at h
    exact h
  | @Derives.compare _ ts mid right mid' rest t t' links links' op s head tail head' tail' => by
    have h := Derives.compare op ((Relocation.along f).span s) head.relocate tail.relocate
      head'.relocate tail'.relocate
    rw [startOf_map, startOf_map, ← Term.resolve_relocate, ← Term.resolve_relocate,
      comparedStop_relocate] at h
    exact h
  | .choose _ h => .choose _ h.relocate

end

theorem DerivesStatement.relocate {ts rest : List Token} {s : WrittenStatement}
    (h : DerivesStatement finish ts s rest) :
    DerivesStatement (f finish) (ts.map (Relocation.along f).token) (s.relocate (.along f))
      (rest.map (Relocation.along f).token) := by
  cases h with
  | @assign _ _ body name s e h =>
    have hbody := DerivesStatement.assign name ((Relocation.along f).span s)
      ((Relocation.along f).span e) (h.relocate f)
    rw [body.span_relocate] at hbody
    exact hbody
  | @sink _ _ body name s e h =>
    have hbody := DerivesStatement.sink name ((Relocation.along f).span s)
      ((Relocation.along f).span e) (h.relocate f)
    rw [body.span_relocate] at hbody
    exact hbody

theorem DerivesStatements.relocate {ts rest : List Token} {written : List WrittenStatement}
    (h : DerivesStatements finish ts written rest) :
    DerivesStatements (f finish) (ts.map (Relocation.along f).token)
      (written.map (·.relocate (.along f))) (rest.map (Relocation.along f).token) := by
  induction h with
  | nil ts => exact .nil _
  | cons head tail ih => exact .cons (head.relocate f) ih

end Phrase

end Along

end RangeRules
