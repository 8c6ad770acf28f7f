import RangeRules.Grammar.Attempts
import RangeRules.Phrase.Basic
import RangeRules.Token.Basic

/-!
# Reading phrases

The reader follows the grammar from the top down, one function for each rule, and takes the first
alternative that matches. A rule is tried on the tokens that are left; it either yields what it
read and the fewer tokens left after it, or fails. Either way it hands on the attempts that failed.
An optional or repeated part that fails halfway counts as absent.

An expression ends where the next token starts, because the layout after its last operand is
skipped before a further operator is looked for. Only after a comparison whose right side has
operators of its own does it end with its last operand.
-/
namespace RangeRules.Phrase.Read

open Text (Span)
open Token (Kind startOf)

/-- What was read, and the tokens left, of which there are fewer than `bound`. -/
structure Found (α : Type) (bound : Nat) where
  value : α
  rest : List Token
  shorter : rest.length < bound

def Found.map (f : α → β) (r : Found α n) : Found β n := ⟨f r.value, r.rest, r.shorter⟩

/-- The outcome of trying a rule. -/
structure Trial (α : Type) (bound : Nat) where
  attempts : Attempts
  found : Option (Found α bound)

/-- Tries a rule that begins at `offset`, and keeps the attempt if it fails. -/
def attempt (rule : Rule) (offset : Nat) (read : Attempts → Trial α n) (before : Attempts) :
    Trial α n :=
  let trial := read before
  match trial.found with
  | some _ => trial
  | none => ⟨trial.attempts.fail rule offset before, none⟩

/-- Reads one token of a kind that `accept` takes. -/
def one (finish : Nat) (rule : Rule) (accept : Kind → Option α) (ts : List Token) (a : Attempts) :
    Trial (α × Span) ts.length :=
  match ts with
  | [] => ⟨a.failToken rule finish, none⟩
  | t :: rest =>
    match accept t.kind with
    | some v => ⟨a, some ⟨(v, t.span), rest, by simp⟩⟩
    | none => ⟨a.failToken rule t.span.start, none⟩

/-- Passes over a token of the given kind; no rule of its own stands for it. -/
def skip? (kind : Kind) (ts : List Token) : Option (Found Span ts.length) :=
  match ts with
  | [] => none
  | t :: rest => if t.kind = kind then some ⟨t.span, rest, by simp⟩ else none

def keyword (finish : Nat) (rule : Rule) (word : Keyword) :=
  one finish rule fun k => if k = .keyword word then some () else none

def name (finish : Nat) :=
  one finish .ident fun
    | .name text => some text
    | _ => none

/-- Reads the first of some operators that matches. -/
def operator (finish : Nat) (wrap : ω → Operator) :
    List ω → (ts : List Token) → Attempts → Trial ω ts.length
  | [], _, a => ⟨a, none⟩
  | op :: ops, ts, a =>
    let accept k := if k = Kind.operator (wrap op) then some op else none
    match one finish (.ofOperator (wrap op)) accept ts a with
    | ⟨a, some r⟩ => ⟨a, some (r.map Prod.fst)⟩
    | ⟨a, none⟩ => operator finish wrap ops ts a

/-- The arithmetic operators, in the order in which they are tried. -/
def arithmeticOps : List Arithmetic := [.add, .sub, .mul, .div]

/-- The comparisons, in the order in which they are tried. -/
def comparisonOps : List Comparison := [.le, .ge, .eq, .ne, .lt, .gt]

def boolean (finish : Nat) (ts : List Token) (a : Attempts) : Trial Term ts.length :=
  let accept : Kind → Option Bool
    | .boolean b => some b
    | _ => none
  let trial := one finish .boolean accept ts a
  ⟨trial.attempts, trial.found.map (·.map fun (b, s) => .boolean s b)⟩

def number (finish : Nat) (ts : List Token) (a : Attempts) : Trial Term ts.length :=
  let accept : Kind → Option (List Char)
    | .number ds => some ds
    | _ => none
  let trial := one finish .number accept ts a
  ⟨trial.attempts, trial.found.map (·.map fun (ds, s) => .number s ds)⟩

def variableRef (finish : Nat) (ts : List Token) (a : Attempts) : Trial Term ts.length :=
  let trial := attempt .variableRef (startOf finish ts) (name finish ts) a
  ⟨trial.attempts, trial.found.map (·.map fun (n, s) => .variable s n)⟩

/-- Reads `this . name`. -/
def sourceRef (finish : Nat) (ts : List Token) : Attempts → Trial Term ts.length :=
  attempt .sourceRef (startOf finish ts) fun a =>
    match keyword finish .kwThis .this ts a with
    | ⟨a, none⟩ => ⟨a, none⟩
    | ⟨a, some this⟩ =>
      match skip? .dot this.rest with
      | none => ⟨a, none⟩
      | some dot =>
        match name finish dot.rest a with
        | ⟨a, none⟩ => ⟨a, none⟩
        | ⟨a, some n⟩ =>
          let span := Span.cover this.value.2 n.value.2
          have h := this.shorter
          have h' := dot.shorter
          have h'' := n.shorter
          ⟨a, some ⟨.source span n.value.1, n.rest, by omega⟩⟩

/-- Reads an operand that is no group. -/
def atom (finish : Nat) (ts : List Token) (a : Attempts) : Trial Term ts.length :=
  match boolean finish ts a with
  | ⟨a, some r⟩ => ⟨a, some r⟩
  | ⟨a, none⟩ =>
    match sourceRef finish ts a with
    | ⟨a, some r⟩ => ⟨a, some r⟩
    | ⟨a, none⟩ =>
      match number finish ts a with
      | ⟨a, some r⟩ => ⟨a, some r⟩
      | ⟨a, none⟩ => variableRef finish ts a

/-- Where a comparison with the given right side ends, the next token starting at `next`. -/
def comparedStop (next : Nat) (first : Term) (links : Links) : Nat :=
  if links = [] then next else (Term.resolve first links).span.stop

mutual

/-- Reads an expression: a `when` expression or a chain of operators. -/
def expression (finish : Nat) (ts : List Token) (a : Attempts) : Trial Phrase ts.length :=
  match choose finish ts a with
  | ⟨a, some r⟩ => ⟨a, some r⟩
  | ⟨a, none⟩ => binary finish ts a
termination_by 8 * ts.length + 5

/-- Reads a `when` expression: clauses, at least one, and an `otherwise`. -/
def choose (finish : Nat) (ts : List Token) : Attempts → Trial Phrase ts.length :=
  attempt .whenExpr (startOf finish ts) fun a =>
    match clause finish ts a with
    | ⟨a, none⟩ => ⟨a, none⟩
    | ⟨a, some first⟩ =>
      have h := first.shorter
      match branches finish first.rest a with
      | ⟨a, none⟩ => ⟨a, none⟩
      | ⟨a, some more⟩ =>
        have h' := more.shorter
        let span : Span := ⟨startOf finish ts, more.value.2⟩
        ⟨a, some ⟨.choose span (.clause first.value.1 first.value.2 more.value.1), more.rest,
          by omega⟩⟩
termination_by 8 * ts.length + 4

/-- Reads further clauses and the `otherwise` that ends them, and where that ends. -/
def branches (finish : Nat) (ts : List Token) (a : Attempts) :
    Trial (PhraseBranches × Nat) ts.length :=
  match clause finish ts a with
  | ⟨a, some first⟩ =>
    have h := first.shorter
    match branches finish first.rest a with
    | ⟨a, none⟩ => ⟨a, none⟩
    | ⟨a, some more⟩ =>
      have h' := more.shorter
      ⟨a, some ⟨(.clause first.value.1 first.value.2 more.value.1, more.value.2), more.rest,
        by omega⟩⟩
  | ⟨a, none⟩ => otherwiseClause finish ts a
termination_by 8 * ts.length + 4

/-- Reads `when predicate consequent`. -/
def clause (finish : Nat) (ts : List Token) : Attempts → Trial (Phrase × Phrase) ts.length :=
  attempt .whenClause (startOf finish ts) fun a =>
    match keyword finish .kwWhen .when ts a with
    | ⟨a, none⟩ => ⟨a, none⟩
    | ⟨a, some word⟩ =>
      have h := word.shorter
      match expression finish word.rest a with
      | ⟨a, none⟩ => ⟨a, none⟩
      | ⟨a, some predicate⟩ =>
        have h' := predicate.shorter
        match expression finish predicate.rest a with
        | ⟨a, none⟩ => ⟨a, none⟩
        | ⟨a, some consequent⟩ =>
          have h'' := consequent.shorter
          ⟨a, some ⟨(predicate.value, consequent.value), consequent.rest, by omega⟩⟩
termination_by 8 * ts.length + 3

/-- Reads `otherwise value`. -/
def otherwiseClause (finish : Nat) (ts : List Token) :
    Attempts → Trial (PhraseBranches × Nat) ts.length :=
  attempt .otherwiseClause (startOf finish ts) fun a =>
    match keyword finish .kwOtherwise .otherwise ts a with
    | ⟨a, none⟩ => ⟨a, none⟩
    | ⟨a, some word⟩ =>
      have h := word.shorter
      match expression finish word.rest a with
      | ⟨a, none⟩ => ⟨a, none⟩
      | ⟨a, some r⟩ =>
        have h' := r.shorter
        ⟨a, some ⟨(.otherwise r.value, r.value.span.stop), r.rest, by omega⟩⟩
termination_by 8 * ts.length + 3

/-- Reads a chain of operators, with at most one comparison. -/
def binary (finish : Nat) (ts : List Token) : Attempts → Trial Phrase ts.length :=
  attempt .binary (startOf finish ts) fun a =>
    match arithmetic finish ts a with
    | ⟨a, none⟩ => ⟨a, none⟩
    | ⟨a, some left⟩ =>
      have h := left.shorter
      let term := Term.resolve left.value.1 left.value.2
      let next := startOf finish left.rest
      let alone : Found Phrase ts.length :=
        ⟨.chain ⟨startOf finish ts, next⟩ term, left.rest, h⟩
      match operator finish .comparison comparisonOps left.rest a with
      | ⟨a, none⟩ => ⟨a, some alone⟩
      | ⟨a, some op⟩ =>
        have h' := op.shorter
        match arithmetic finish op.rest a with
        | ⟨a, none⟩ => ⟨a, some alone⟩
        | ⟨a, some right⟩ =>
          have h'' := right.shorter
          let other := Term.resolve right.value.1 right.value.2
          let stop := comparedStop (startOf finish right.rest) right.value.1 right.value.2
          ⟨a, some ⟨.chain ⟨startOf finish ts, stop⟩
            (.operate (.comparison op.value) term other), right.rest, by omega⟩⟩
termination_by 8 * ts.length + 3

/-- Reads operands joined by arithmetic operators. -/
def arithmetic (finish : Nat) (ts : List Token) (a : Attempts) : Trial (Term × Links) ts.length :=
  match operand finish ts a with
  | ⟨a, none⟩ => ⟨a, none⟩
  | ⟨a, some first⟩ =>
    have h := first.shorter
    let (a, more) := links finish first.rest a
    have h' := more.shorter
    ⟨a, some ⟨(first.value, more.value), more.rest, by omega⟩⟩
termination_by 8 * ts.length + 2

/-- Reads operators with the operand after each, as many as there are. -/
def links (finish : Nat) (ts : List Token) (a : Attempts) :
    Attempts × Found Links (ts.length + 1) :=
  match operator finish .arithmetic arithmeticOps ts a with
  | ⟨a, none⟩ => (a, ⟨[], ts, by omega⟩)
  | ⟨a, some op⟩ =>
    have h := op.shorter
    match operand finish op.rest a with
    | ⟨a, none⟩ => (a, ⟨[], ts, by omega⟩)
    | ⟨a, some term⟩ =>
      have h' := term.shorter
      let (a, more) := links finish term.rest a
      have h'' := more.shorter
      (a, ⟨(op.value, term.value) :: more.value, more.rest, by omega⟩)
termination_by 8 * ts.length + 2

/-- Reads an operand. -/
def operand (finish : Nat) (ts : List Token) (a : Attempts) : Trial Term ts.length :=
  match group finish ts a with
  | ⟨a, some r⟩ => ⟨a, some r⟩
  | ⟨a, none⟩ => atom finish ts a
termination_by 8 * ts.length + 1

/-- Reads an expression in parentheses. -/
def group (finish : Nat) (ts : List Token) : Attempts → Trial Term ts.length :=
  attempt .grouped (startOf finish ts) fun a =>
    match skip? .lparen ts with
    | none => ⟨a, none⟩
    | some opening =>
      have h := opening.shorter
      match expression finish opening.rest a with
      | ⟨a, none⟩ => ⟨a, none⟩
      | ⟨a, some inner⟩ =>
        match skip? .rparen inner.rest with
        | none => ⟨a, none⟩
        | some closing =>
          have h' := inner.shorter
          have h'' := closing.shorter
          let span := Span.cover opening.value closing.value
          ⟨a, some ⟨.group span inner.value, closing.rest, by omega⟩⟩
termination_by 8 * ts.length

end

/-- Reads the rest of a statement: its mark, which `skip` passes over, and its expression. -/
def assignment (finish : Nat) (rule : Rule) (isSink : Bool)
    (skip : (ts : List Token) → Option (Found Span ts.length)) (ts : List Token) :
    Attempts → Trial WrittenStatement ts.length :=
  attempt rule (startOf finish ts) fun a =>
    match name finish ts a with
    | ⟨a, none⟩ => ⟨a, none⟩
    | ⟨a, some n⟩ =>
      match skip n.rest with
      | none => ⟨a, none⟩
      | some sign =>
        match expression finish sign.rest a with
        | ⟨a, none⟩ => ⟨a, none⟩
        | ⟨a, some body⟩ =>
          have h := n.shorter
          have h' := sign.shorter
          have h'' := body.shorter
          let span : Span := ⟨n.value.2.start, body.value.span.stop⟩
          ⟨a, some ⟨⟨isSink, n.value.1, span, body.value⟩, body.rest, by omega⟩⟩

/-- Passes over the sign of a variable assignment, which no further equals sign may follow. -/
def skipAssign? (ts : List Token) : Option (Found Span ts.length) :=
  match skip? .assign ts with
  | none => none
  | some sign =>
    match sign.rest with
    | t :: _ => if t.kind.startsWithEquals then none else some sign
    | [] => some sign

/-- Reads a statement: `name = expression` or `name: expression`. -/
def statement (finish : Nat) (ts : List Token) (a : Attempts) : Trial WrittenStatement ts.length :=
  match assignment finish .variableAssignment false skipAssign? ts a with
  | ⟨a, some r⟩ => ⟨a, some r⟩
  | ⟨a, none⟩ => assignment finish .sinkAssignment true (skip? .colon) ts a

/-- Reads as many statements as there are. -/
def statements (finish : Nat) (ts : List Token) (a : Attempts) :
    Attempts × Found (List WrittenStatement) (ts.length + 1) :=
  match statement finish ts a with
  | ⟨a, none⟩ => (a, ⟨[], ts, by omega⟩)
  | ⟨a, some first⟩ =>
    have h := first.shorter
    let (a, more) := statements finish first.rest a
    have h' := more.shorter
    (a, ⟨first.value :: more.value, more.rest, by omega⟩)
termination_by ts.length

/-- Reads a whole program, which begins with the text: statements up to its end. -/
def program (finish : Nat) (ts : List Token) : Except Attempts (List WrittenStatement) :=
  let (a, r) := statements finish ts .start
  match r.rest with
  | [] => .ok r.value
  | t :: _ =>
    let a := a.failToken .endOfInput t.span.start
    .error (a.fail .program 0 .start)

end RangeRules.Phrase.Read
