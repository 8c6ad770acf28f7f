import RangeRules.Proofs.Phrase.Derivation

/-!
# The reader reads all that is derived

What is derived is read, provided that the tokens after an expression do not begin with an
operator, which would belong to it. Whichever alternatives the reader tries first then fail at the
first token. So no choice that it makes has to be taken back, and a derivation is read as it is.
-/
namespace RangeRules.Phrase

open Text (Span)
open Token (Kind startOf)

/-- The tokens do not begin with an operator. -/
def Ends (ts : List Token) : Prop := ∀ op s rest, ts ≠ ⟨.operator op, s⟩ :: rest

theorem ends_nil : Ends [] := fun _ _ _ => nofun

theorem ends_cons {k : Kind} {s : Span} {rest : List Token} (h : ∀ op, k ≠ .operator op) :
    Ends (⟨k, s⟩ :: rest) := by
  intro op s' rest' heq
  injection heq with hhead
  injection hhead with hkind
  exact h op hkind

theorem DerivesOperand.ends {finish : Nat} {ts rest : List Token} {t : Term}
    (h : DerivesOperand finish ts t rest) : Ends ts := by
  cases h <;> exact ends_cons fun _ => nofun

theorem DerivesOperand.ne_when {finish : Nat} {ts rest : List Token} {t : Term}
    (h : DerivesOperand finish ts t rest) (s : Span) (after : List Token) :
    ts ≠ ⟨.keyword .when, s⟩ :: after := by
  cases h <;> nofun

theorem DerivesBranches.ends {finish : Nat} {ts rest : List Token} {branches : PhraseBranches}
    {stop : Nat} (h : DerivesBranches finish ts branches stop rest) : Ends ts := by
  cases h <;> exact ends_cons fun _ => nofun

theorem Derives.ends {finish : Nat} {ts rest : List Token} {p : Phrase}
    (h : Derives finish ts p rest) : Ends ts := by
  cases h with
  | chain head tail => exact head.ends
  | compare op s head tail head' tail' => exact head.ends
  | choose s h => exact h.ends

theorem Derives.no_equals {finish : Nat} {ts rest : List Token} {p : Phrase}
    (h : Derives finish ts p rest) (t : Token) (after : List Token) (hts : ts = t :: after) :
    t.kind.startsWithEquals = false := by
  have hoperand : ∀ {u mid}, DerivesOperand finish ts u mid → t.kind.startsWithEquals = false := by
    intro u mid hu
    cases hu <;> cases hts <;> rfl
  cases h with
  | chain head tail => exact hoperand head
  | compare op s head tail head' tail' => exact hoperand head
  | choose s h =>
    cases hts
    rfl

/-- What comes before the end or a statement ends there. -/
theorem DerivesStatements.ends {finish : Nat} {ts : List Token} {written : List WrittenStatement}
    (h : DerivesStatements finish ts written []) : Ends ts := by
  cases h with
  | nil => exact ends_nil
  | cons head tail => cases head <;> exact ends_cons fun _ => nofun

namespace Read

/-- The trial succeeds with a value and the tokens left. -/
def Trial.Yields {α : Type} {n : Nat} (trial : Trial α n) (v : α) (rest : List Token) : Prop :=
  ∃ a h, trial = ⟨a, some ⟨v, rest, h⟩⟩

def Trial.Fails {α : Type} {n : Nat} (trial : Trial α n) : Prop := ∃ a, trial = ⟨a, none⟩

variable {finish : Nat} {ts rest : List Token} {α : Type} {rule : Rule}

theorem attempt_yields {n offset : Nat} {read : Attempts → Trial α n} {a : Attempts} {v : α}
    (h : (read a).Yields v rest) : (attempt rule offset read a).Yields v rest := by
  obtain ⟨a', hshorter, heq⟩ := h
  unfold attempt
  rw [heq]
  exact ⟨a', hshorter, rfl⟩

theorem attempt_fails {n offset : Nat} {read : Attempts → Trial α n} {a : Attempts}
    (h : (read a).Fails) : (attempt rule offset read a).Fails := by
  obtain ⟨a', heq⟩ := h
  unfold attempt
  rw [heq]
  exact ⟨_, rfl⟩

section Tokens

variable {accept : Kind → Option α} {k : Kind} {s : Span}

theorem one_yields {v : α} (h : accept k = some v) (a : Attempts) :
    (one finish rule accept (⟨k, s⟩ :: rest) a).Yields (v, s) rest := by
  unfold one
  dsimp only
  rw [h]
  exact ⟨_, _, rfl⟩

theorem one_refused (h : ∀ k s rest, ts = ⟨k, s⟩ :: rest → accept k = none) (a : Attempts) :
    one finish rule accept ts a = ⟨a.failToken rule (startOf finish ts), none⟩ := by
  cases ts with
  | nil => rfl
  | cons t rest =>
    unfold one
    dsimp only
    rw [h t.kind t.span rest rfl]
    rfl

theorem one_fails (h : ∀ k s rest, ts = ⟨k, s⟩ :: rest → accept k = none) (a : Attempts) :
    (one finish rule accept ts a).Fails :=
  ⟨_, one_refused h a⟩

theorem keyword_yields {word : Keyword} (a : Attempts) :
    (keyword finish rule word (⟨.keyword word, s⟩ :: rest) a).Yields ((), s) rest :=
  one_yields (if_pos rfl) a

theorem keyword_fails {word : Keyword} (h : ∀ s rest, ts ≠ ⟨.keyword word, s⟩ :: rest)
    (a : Attempts) : (keyword finish rule word ts a).Fails := by
  refine one_fails (fun k s rest hts => ?_) a
  show (if k = .keyword word then some () else none) = none
  rw [if_neg]
  rintro rfl
  exact h s rest hts

theorem name_yields {n : String} (a : Attempts) :
    (name finish (⟨.name n, s⟩ :: rest) a).Yields (n, s) rest := by
  refine one_yields ?_ a
  rfl

theorem skip?_yields (kind : Kind) (s : Span) (rest : List Token) :
    ∃ h, skip? kind (⟨kind, s⟩ :: rest) = some ⟨s, rest, h⟩ := by
  unfold skip?
  dsimp only
  rw [if_pos rfl]
  exact ⟨_, rfl⟩

theorem skip?_fails {kind : Kind} (h : ∀ s rest, ts ≠ ⟨kind, s⟩ :: rest) :
    skip? kind ts = none := by
  cases ts with
  | nil => rfl
  | cons t rest => exact if_neg fun hk => h t.span rest (by rw [← hk])

theorem operator_yields {ω : Type} {wrap : ω → Operator} (hwrap : Function.Injective wrap)
    {ops : List ω} {op : ω} (hop : op ∈ ops) (a : Attempts) :
    (operator finish wrap ops (⟨.operator (wrap op), s⟩ :: rest) a).Yields op rest := by
  induction ops generalizing a with
  | nil => exact nomatch hop
  | cons first ops ih =>
    unfold operator
    dsimp only
    by_cases hfirst : first = op
    · subst hfirst
      obtain ⟨a', hshorter, heq⟩ := @one_yields finish rest ω (.ofOperator (wrap first))
        (fun k => if k = .operator (wrap first) then some first else none) _ s first (if_pos rfl) a
      rw [heq]
      exact ⟨a', hshorter, rfl⟩
    · have hother : Kind.operator (wrap op) ≠ .operator (wrap first) := fun hk =>
        hfirst (hwrap (Kind.operator.inj hk)).symm
      obtain ⟨a', heq⟩ := @one_fails finish (⟨.operator (wrap op), s⟩ :: rest) ω
        (.ofOperator (wrap first)) (fun k => if k = .operator (wrap first) then some first else none)
        (fun k s' rest' hts => if_neg fun hk => hother (by cases hts; exact hk)) a
      rw [heq]
      exact ih ((List.mem_cons.1 hop).resolve_left (Ne.symm hfirst)) a'

theorem operator_fails {ω : Type} {wrap : ω → Operator} {ops : List ω}
    (h : ∀ op s rest, ts ≠ ⟨.operator (wrap op), s⟩ :: rest) (a : Attempts) :
    (operator finish wrap ops ts a).Fails := by
  induction ops generalizing a with
  | nil => exact ⟨_, rfl⟩
  | cons first ops ih =>
    have hfirst : ∀ k s rest, ts = ⟨k, s⟩ :: rest →
        (if k = .operator (wrap first) then some first else none) = none := by
      intro k s rest hts
      rw [if_neg]
      rintro rfl
      exact h first s rest hts
    obtain ⟨a', heq⟩ := @one_fails finish ts ω (.ofOperator (wrap first)) _ hfirst a
    unfold operator
    dsimp only
    rw [heq]
    exact ih a'

end Tokens

theorem clause_fails (h : ∀ s rest, ts ≠ ⟨.keyword .when, s⟩ :: rest) (a : Attempts) :
    (clause finish ts a).Fails := by
  rw [clause]
  obtain ⟨a', heq⟩ := @keyword_fails finish ts .kwWhen .when h a
  refine attempt_fails ?_
  rw [heq]
  exact ⟨a', rfl⟩

theorem choose_fails (h : ∀ s rest, ts ≠ ⟨.keyword .when, s⟩ :: rest) (a : Attempts) :
    (choose finish ts a).Fails := by
  rw [choose]
  obtain ⟨a', heq⟩ := clause_fails h a
  refine attempt_fails ?_
  rw [heq]
  exact ⟨a', rfl⟩

/-- A clause is read when its two expressions are. -/
theorem clause_yields {mid more : List Token} {p c : Phrase} (s : Span)
    (hp : ∀ a, (expression finish ts a).Yields p mid)
    (hc : ∀ a, (expression finish mid a).Yields c more) (a : Attempts) :
    (clause finish (⟨.keyword .when, s⟩ :: ts) a).Yields (p, c) more := by
  obtain ⟨a₁, _, hword⟩ := @keyword_yields finish ts .kwWhen s .when a
  obtain ⟨a₂, _, hp⟩ := hp a₁
  obtain ⟨a₃, _, hc⟩ := hc a₂
  rw [clause]
  refine attempt_yields ?_
  rw [hword]
  dsimp only
  rw [hp]
  dsimp only
  rw [hc]
  exact ⟨a₃, _, rfl⟩

/-- Clauses are read when the first one and what follows it are. -/
theorem branches_yields {more : List Token} {p c : Phrase} {tail : PhraseBranches} {stop : Nat}
    (hfirst : ∀ a, (clause finish ts a).Yields (p, c) more)
    (htail : ∀ a, (branches finish more a).Yields (tail, stop) rest) (a : Attempts) :
    (branches finish ts a).Yields (.clause p c tail, stop) rest ∧
      (choose finish ts a).Yields (.choose ⟨startOf finish ts, stop⟩ (.clause p c tail)) rest := by
  obtain ⟨a₁, _, hfirst⟩ := hfirst a
  obtain ⟨a₂, _, htail⟩ := htail a₁
  constructor
  · rw [branches, hfirst]
    dsimp only
    rw [htail]
    exact ⟨a₂, _, rfl⟩
  · rw [choose]
    refine attempt_yields ?_
    rw [hfirst]
    dsimp only
    rw [htail]
    exact ⟨a₂, _, rfl⟩

theorem otherwise_yields {value : Phrase} (s : Span)
    (hvalue : ∀ a, (expression finish ts a).Yields value rest) (a : Attempts) :
    (branches finish (⟨.keyword .otherwise, s⟩ :: ts) a).Yields
      (.otherwise value, value.span.stop) rest := by
  obtain ⟨a₁, hclause⟩ := @clause_fails finish (⟨.keyword .otherwise, s⟩ :: ts) (fun _ _ => nofun) a
  obtain ⟨a₂, _, hword⟩ := @keyword_yields finish ts .kwOtherwise s .otherwise a₁
  obtain ⟨a₃, _, hvalue⟩ := hvalue a₂
  rw [branches, hclause]
  dsimp only
  rw [otherwiseClause]
  refine attempt_yields ?_
  rw [hword]
  dsimp only
  rw [hvalue]
  exact ⟨a₃, _, rfl⟩

theorem group_yields {inner : Phrase} (s c : Span)
    (h : ∀ a, (expression finish ts a).Yields inner (⟨.rparen, c⟩ :: rest)) (a : Attempts) :
    (operand finish (⟨.lparen, s⟩ :: ts) a).Yields (.group (.cover s c) inner) rest := by
  obtain ⟨_, hopening⟩ := skip?_yields .lparen s ts
  obtain ⟨_, hclosing⟩ := skip?_yields .rparen c rest
  obtain ⟨a', _, hinner⟩ := h a
  have hgroup : (group finish (⟨.lparen, s⟩ :: ts) a).Yields (.group (.cover s c) inner) rest := by
    rw [group]
    refine attempt_yields ?_
    rw [hopening]
    dsimp only
    rw [hinner]
    dsimp only
    rw [hclosing]
    exact ⟨a', _, rfl⟩
  obtain ⟨a'', _, hgroup⟩ := hgroup
  rw [operand, hgroup]
  exact ⟨a'', _, rfl⟩

theorem atom_boolean (b : Bool) (s : Span) (rest : List Token) (a : Attempts) :
    (atom finish (⟨.boolean b, s⟩ :: rest) a).Yields (.boolean s b) rest :=
  ⟨_, _, rfl⟩

theorem atom_number (digits : List Char) (s : Span) (rest : List Token) (a : Attempts) :
    (atom finish (⟨.number digits, s⟩ :: rest) a).Yields (.number s digits) rest :=
  ⟨_, _, rfl⟩

theorem atom_variable (n : String) (s : Span) (rest : List Token) (a : Attempts) :
    (atom finish (⟨.name n, s⟩ :: rest) a).Yields (.variable s n) rest :=
  ⟨_, _, rfl⟩

theorem atom_source (n : String) (s d s' : Span) (rest : List Token) (a : Attempts) :
    (atom finish (⟨.keyword .this, s⟩ :: ⟨.dot, d⟩ :: ⟨.name n, s'⟩ :: rest) a).Yields
      (.source (.cover s s') n) rest :=
  ⟨_, _, rfl⟩

/-- What is no group is read as an atom. -/
theorem operand_of_atom {t : Term} (h : ∀ s rest, ts ≠ ⟨.lparen, s⟩ :: rest)
    (hatom : ∀ a, (atom finish ts a).Yields t rest) (a : Attempts) :
    (operand finish ts a).Yields t rest := by
  have hgroup : (group finish ts a).Fails := by
    rw [group]
    refine attempt_fails ?_
    rw [skip?_fails h]
    exact ⟨a, rfl⟩
  obtain ⟨a', hgroup⟩ := hgroup
  rw [operand, hgroup]
  exact hatom a'

theorem binary_yields_alone {t : Term} {links : Links}
    (h : ∀ a, (arithmetic finish ts a).Yields (t, links) rest)
    (hrest : ∀ op s after, rest ≠ ⟨.operator (.comparison op), s⟩ :: after) (a : Attempts) :
    (binary finish ts a).Yields
      (.chain ⟨startOf finish ts, startOf finish rest⟩ (t.resolve links)) rest := by
  obtain ⟨a₁, _, harith⟩ := h a
  obtain ⟨a₂, hop⟩ := @operator_fails finish rest Comparison .comparison comparisonOps hrest a₁
  rw [binary]
  refine attempt_yields ?_
  rw [harith]
  dsimp only
  rw [hop]
  exact ⟨a₂, _, rfl⟩

theorem binary_yields_compare {right : List Token} {t t' : Term} {links links' : Links}
    (op : Comparison) (s : Span)
    (h : ∀ a, (arithmetic finish ts a).Yields (t, links) (⟨.operator (.comparison op), s⟩ :: right))
    (h' : ∀ a, (arithmetic finish right a).Yields (t', links') rest) (a : Attempts) :
    (binary finish ts a).Yields
      (.chain ⟨startOf finish ts, comparedStop (startOf finish rest) t' links'⟩
        (.operate (.comparison op) (t.resolve links) (t'.resolve links'))) rest := by
  obtain ⟨a₁, _, harith⟩ := h a
  obtain ⟨a₂, _, hop⟩ := @operator_yields finish right s Comparison .comparison
    (fun _ _ heq => Operator.comparison.inj heq) comparisonOps op (by cases op <;> decide) a₁
  obtain ⟨a₃, _, harith'⟩ := h' a₂
  rw [binary]
  refine attempt_yields ?_
  rw [harith]
  dsimp only
  rw [hop]
  dsimp only
  rw [harith']
  exact ⟨a₃, _, rfl⟩

theorem arithmetic_yields {mid : List Token} {t : Term} {ls : Links}
    (hhead : ∀ a, (operand finish ts a).Yields t mid)
    (htail : ∀ a, ∃ a' h, links finish mid a = (a', ⟨ls, rest, h⟩)) (a : Attempts) :
    (arithmetic finish ts a).Yields (t, ls) rest := by
  obtain ⟨a₁, _, hhead⟩ := hhead a
  obtain ⟨a₂, _, htail⟩ := htail a₁
  rw [arithmetic, hhead]
  dsimp only
  rw [htail]
  exact ⟨a₂, _, rfl⟩

theorem expression_of_binary {p : Phrase} (h : ∀ s rest, ts ≠ ⟨.keyword .when, s⟩ :: rest)
    (hbinary : ∀ a, (binary finish ts a).Yields p rest) (a : Attempts) :
    (expression finish ts a).Yields p rest := by
  obtain ⟨a', hchoose⟩ := @choose_fails finish ts h a
  rw [expression, hchoose]
  exact hbinary a'

theorem expression_of_choose {p : Phrase} (hchoose : ∀ a, (choose finish ts a).Yields p rest)
    (a : Attempts) : (expression finish ts a).Yields p rest := by
  obtain ⟨a', _, hchoose⟩ := hchoose a
  rw [expression, hchoose]
  exact ⟨a', _, rfl⟩

mutual

theorem operand_complete {finish : Nat} {ts rest : List Token} {t : Term} :
    DerivesOperand finish ts t rest → ∀ a, (operand finish ts a).Yields t rest
  | .boolean b s rest => operand_of_atom (fun _ _ => nofun) (atom_boolean b s rest)
  | .number digits s rest => operand_of_atom (fun _ _ => nofun) (atom_number digits s rest)
  | .variable n s rest => operand_of_atom (fun _ _ => nofun) (atom_variable n s rest)
  | .source n s d s' rest => operand_of_atom (fun _ _ => nofun) (atom_source n s d s' rest)
  | .group s c h => group_yields s c (expression_complete h (ends_cons fun _ => nofun))

theorem links_complete {finish : Nat} {ts rest : List Token} {ls : Links} :
    DerivesLinks finish ts ls rest →
    (∀ op s after, rest ≠ ⟨.operator (.arithmetic op), s⟩ :: after) →
    ∀ a, ∃ a' h, links finish ts a = (a', ⟨ls, rest, h⟩)
  | .nil ts, hrest, a => by
    obtain ⟨a', hop⟩ := @operator_fails finish ts Arithmetic .arithmetic arithmeticOps hrest a
    rw [links, hop]
    exact ⟨a', _, rfl⟩
  | .cons op s head tail, hrest, a => by
    obtain ⟨a₁, _, hop⟩ := @operator_yields finish _ s Arithmetic .arithmetic
      (fun _ _ heq => Operator.arithmetic.inj heq) arithmeticOps op (by cases op <;> decide) a
    obtain ⟨a₂, _, hhead⟩ := operand_complete head a₁
    obtain ⟨a₃, _, htail⟩ := links_complete tail hrest a₂
    rw [links, hop]
    dsimp only
    rw [hhead]
    dsimp only
    rw [htail]
    exact ⟨a₃, _, rfl⟩

/-- Branches are read also as a `when` expression of their own, if they begin with a clause. -/
theorem branches_complete {finish : Nat} {ts rest : List Token} {branches : PhraseBranches}
    {stop : Nat} : DerivesBranches finish ts branches stop rest → Ends rest → ∀ a,
      (Read.branches finish ts a).Yields (branches, stop) rest ∧
      ∀ s after, ts = ⟨.keyword .when, s⟩ :: after →
        (choose finish ts a).Yields (.choose ⟨s.start, stop⟩ branches) rest
  | .otherwise s h, hrest, a =>
    ⟨otherwise_yields s (expression_complete h hrest) a, fun _ _ => nofun⟩
  | .clause s predicate consequent tail, hrest, a => by
    have hfirst := clause_yields s (expression_complete predicate consequent.ends)
      (expression_complete consequent tail.ends)
    have hboth := branches_yields hfirst (fun a => (branches_complete tail hrest a).1) a
    refine ⟨hboth.1, fun s' after heq => ?_⟩
    cases heq
    exact hboth.2

theorem expression_complete {finish : Nat} {ts rest : List Token} {p : Phrase} :
    Derives finish ts p rest → Ends rest → ∀ a, (expression finish ts a).Yields p rest
  | .chain head tail, hrest => by
    have harith := arithmetic_yields (operand_complete head)
      (links_complete tail fun op => hrest (.arithmetic op))
    exact expression_of_binary head.ne_when
      (binary_yields_alone harith fun op => hrest (.comparison op))
  | .compare op s head tail head' tail', hrest => by
    have harith := arithmetic_yields (operand_complete head)
      (links_complete tail fun _ _ _ => nofun)
    have harith' := arithmetic_yields (operand_complete head')
      (links_complete tail' fun op => hrest (.arithmetic op))
    exact expression_of_binary head.ne_when (binary_yields_compare op s harith harith')
  | .choose s h, hrest =>
    expression_of_choose fun a => (branches_complete h hrest a).2 s _ rfl

end

theorem assignment_yields {isSink : Bool}
    {skip : (ts : List Token) → Option (Found Span ts.length)} {n : String} {s e : Span}
    {sign : Kind} {body : Phrase} (hskip : ∃ h, skip (⟨sign, e⟩ :: ts) = some ⟨e, ts, h⟩)
    (hbody : ∀ a, (expression finish ts a).Yields body rest) (a : Attempts) :
    (assignment finish rule isSink skip (⟨.name n, s⟩ :: ⟨sign, e⟩ :: ts) a).Yields
      ⟨isSink, n, ⟨s.start, body.span.stop⟩, body⟩ rest := by
  obtain ⟨a₁, _, hname⟩ := @name_yields finish (⟨sign, e⟩ :: ts) s n a
  obtain ⟨_, hskip⟩ := hskip
  obtain ⟨a₂, _, hbody⟩ := hbody a₁
  refine attempt_yields ?_
  rw [hname]
  dsimp only
  rw [hskip]
  dsimp only
  rw [hbody]
  exact ⟨a₂, _, rfl⟩

theorem skipAssign?_yields {e : Span} (h : ∀ t after, ts = t :: after →
    t.kind.startsWithEquals = false) : ∃ h, skipAssign? (⟨.assign, e⟩ :: ts) = some ⟨e, ts, h⟩ := by
  obtain ⟨_, hsign⟩ := skip?_yields .assign e ts
  unfold skipAssign?
  rw [hsign]
  cases ts with
  | nil => exact ⟨_, rfl⟩
  | cons t after =>
    dsimp only
    rw [h t after rfl]
    exact ⟨_, rfl⟩

theorem statement_complete {s : WrittenStatement} (h : DerivesStatement finish ts s rest)
    (hrest : Ends rest) (a : Attempts) : (statement finish ts a).Yields s rest := by
  cases h with
  | assign n s e h =>
    obtain ⟨a', _, hassign⟩ := @assignment_yields finish _ rest .variableAssignment false skipAssign?
      n s e .assign _ (skipAssign?_yields h.no_equals) (expression_complete h hrest) a
    unfold statement
    rw [hassign]
    exact ⟨a', _, rfl⟩
  | @sink ts' _ body n s e h =>
    have hfails : (assignment finish .variableAssignment false skipAssign?
        (⟨.name n, s⟩ :: ⟨.colon, e⟩ :: ts') a).Fails := attempt_fails ⟨a, rfl⟩
    obtain ⟨a', hfails⟩ := hfails
    unfold statement
    rw [hfails]
    exact assignment_yields (skip?_yields .colon e ts') (expression_complete h hrest) a'

theorem statements_complete {written : List WrittenStatement}
    (h : DerivesStatements finish ts written []) (a : Attempts) :
    ∃ a' h, statements finish ts a = (a', ⟨written, [], h⟩) := by
  generalize hend : ([] : List Token) = rest at h
  induction h generalizing a with
  | nil ts =>
    subst hend
    rw [statements]
    exact ⟨_, _, rfl⟩
  | cons head tail ih =>
    subst hend
    obtain ⟨a₁, _, hhead⟩ := statement_complete head tail.ends a
    obtain ⟨a₂, _, htail⟩ := ih a₁ rfl
    rw [statements, hhead]
    dsimp only
    rw [htail]
    exact ⟨a₂, _, rfl⟩

/-- A program is read exactly if its tokens are statements, and then as these. -/
theorem program_eq_ok {written : List WrittenStatement} :
    program finish ts = .ok written ↔ DerivesStatements finish ts written [] := by
  refine ⟨program_sound, fun h => ?_⟩
  obtain ⟨a, _, hstatements⟩ := statements_complete h .start
  unfold program
  rw [hstatements]

end Read

end RangeRules.Phrase
