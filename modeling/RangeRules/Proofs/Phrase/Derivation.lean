import RangeRules.Phrase.Read

/-!
# What the reader reads

A derivation says which tokens spell a phrase, and which are left. It has one rule for each
production of the grammar and leaves the failed attempts of the reader out. The reader yields only
what has a derivation, whatever comes after; that is shown function by function, along the
reader's own recursion.
-/
namespace RangeRules.Phrase

open Text (Span)
open Token (Kind startOf)

mutual

/-- The tokens `ts` begin with an operand and go on with `rest`. -/
inductive DerivesOperand (finish : Nat) : List Token → Term → List Token → Prop where
  | boolean (b : Bool) (s : Span) (rest : List Token) :
    DerivesOperand finish (⟨.boolean b, s⟩ :: rest) (.boolean s b) rest
  | number (digits : List Char) (s : Span) (rest : List Token) :
    DerivesOperand finish (⟨.number digits, s⟩ :: rest) (.number s digits) rest
  | variable (name : String) (s : Span) (rest : List Token) :
    DerivesOperand finish (⟨.name name, s⟩ :: rest) (.variable s name) rest
  | source (name : String) (s d n : Span) (rest : List Token) :
    DerivesOperand finish (⟨.keyword .this, s⟩ :: ⟨.dot, d⟩ :: ⟨.name name, n⟩ :: rest)
      (.source (.cover s n) name) rest
  | group {ts rest : List Token} {inner : Phrase} (s c : Span)
    (h : Derives finish ts inner (⟨.rparen, c⟩ :: rest)) :
    DerivesOperand finish (⟨.lparen, s⟩ :: ts) (.group (.cover s c) inner) rest

/-- They begin with arithmetic operators, each with the operand after it. -/
inductive DerivesLinks (finish : Nat) : List Token → Links → List Token → Prop where
  | nil (ts : List Token) : DerivesLinks finish ts [] ts
  | cons {ts mid rest : List Token} {t : Term} {links : Links} (op : Arithmetic) (s : Span)
    (head : DerivesOperand finish ts t mid) (tail : DerivesLinks finish mid links rest) :
    DerivesLinks finish (⟨.operator (.arithmetic op), s⟩ :: ts) ((op, t) :: links) rest

/-- They begin with clauses and an `otherwise`, which ends at `stop`. -/
inductive DerivesBranches (finish : Nat) :
    List Token → PhraseBranches → Nat → List Token → Prop where
  | otherwise {ts rest : List Token} {value : Phrase} (s : Span)
    (h : Derives finish ts value rest) :
    DerivesBranches finish (⟨.keyword .otherwise, s⟩ :: ts) (.otherwise value) value.span.stop rest
  | clause {ts mid more rest : List Token} {p c : Phrase} {branches : PhraseBranches} {stop : Nat}
    (s : Span) (predicate : Derives finish ts p mid) (consequent : Derives finish mid c more)
    (tail : DerivesBranches finish more branches stop rest) :
    DerivesBranches finish (⟨.keyword .when, s⟩ :: ts) (.clause p c branches) stop rest

/-- They begin with an expression. -/
inductive Derives (finish : Nat) : List Token → Phrase → List Token → Prop where
  | chain {ts mid rest : List Token} {t : Term} {links : Links}
    (head : DerivesOperand finish ts t mid) (tail : DerivesLinks finish mid links rest) :
    Derives finish ts (.chain ⟨startOf finish ts, startOf finish rest⟩ (t.resolve links)) rest
  | compare {ts mid right mid' rest : List Token} {t t' : Term} {links links' : Links}
    (op : Comparison) (s : Span) (head : DerivesOperand finish ts t mid)
    (tail : DerivesLinks finish mid links (⟨.operator (.comparison op), s⟩ :: right))
    (head' : DerivesOperand finish right t' mid')
    (tail' : DerivesLinks finish mid' links' rest) :
    Derives finish ts
      (.chain ⟨startOf finish ts, Read.comparedStop (startOf finish rest) t' links'⟩
        (.operate (.comparison op) (t.resolve links) (t'.resolve links'))) rest
  | choose {ts rest : List Token} {branches : PhraseBranches} {stop : Nat} (s : Span)
    (h : DerivesBranches finish (⟨.keyword .when, s⟩ :: ts) branches stop rest) :
    Derives finish (⟨.keyword .when, s⟩ :: ts) (.choose ⟨s.start, stop⟩ branches) rest

end

/-- The tokens begin with a statement. -/
inductive DerivesStatement (finish : Nat) :
    List Token → WrittenStatement → List Token → Prop where
  | assign {ts rest : List Token} {body : Phrase} (name : String) (s e : Span)
    (h : Derives finish ts body rest) :
    DerivesStatement finish (⟨.name name, s⟩ :: ⟨.assign, e⟩ :: ts)
      ⟨false, name, ⟨s.start, body.span.stop⟩, body⟩ rest
  | sink {ts rest : List Token} {body : Phrase} (name : String) (s e : Span)
    (h : Derives finish ts body rest) :
    DerivesStatement finish (⟨.name name, s⟩ :: ⟨.colon, e⟩ :: ts)
      ⟨true, name, ⟨s.start, body.span.stop⟩, body⟩ rest

/-- The tokens begin with statements. -/
inductive DerivesStatements (finish : Nat) :
    List Token → List WrittenStatement → List Token → Prop where
  | nil (ts : List Token) : DerivesStatements finish ts [] ts
  | cons {ts mid rest : List Token} {s : WrittenStatement} {written : List WrittenStatement}
    (head : DerivesStatement finish ts s mid) (tail : DerivesStatements finish mid written rest) :
    DerivesStatements finish ts (s :: written) rest

namespace Read

variable {finish : Nat} {ts : List Token} {a : Attempts}

theorem attempt_found {α : Type} {n : Nat} (rule : Rule) (offset : Nat)
    (read : Attempts → Trial α n) (before : Attempts) :
    (attempt rule offset read before).found = (read before).found := by
  unfold attempt
  dsimp only
  split
  · rfl
  · next h => exact h.symm

/-- A token is read if it is the first and is accepted. -/
theorem one_eq_some {α : Type} {rule : Rule} {accept : Kind → Option α} {v : α} {s : Span}
    {rest : List Token} {hshorter : rest.length < ts.length}
    (h : (one finish rule accept ts a).found = some ⟨(v, s), rest, hshorter⟩) :
    ∃ k, accept k = some v ∧ ts = ⟨k, s⟩ :: rest := by
  cases ts with
  | nil => exact nomatch h
  | cons t ts =>
    unfold one at h
    dsimp only at h
    split at h
    · next hv =>
      cases h
      exact ⟨t.kind, hv, rfl⟩
    · exact nomatch h

theorem skip?_eq_some {kind : Kind} {s : Span} {rest : List Token}
    {hshorter : rest.length < ts.length} (h : skip? kind ts = some ⟨s, rest, hshorter⟩) :
    ts = ⟨kind, s⟩ :: rest := by
  cases ts with
  | nil => exact nomatch h
  | cons t ts =>
    unfold skip? at h
    dsimp only at h
    split at h
    · next hkind =>
      cases h
      rw [← hkind]
    · exact nomatch h

theorem keyword_eq_some {rule : Rule} {word : Keyword} {u : Unit} {s : Span} {rest : List Token}
    {hshorter : rest.length < ts.length}
    (h : (keyword finish rule word ts a).found = some ⟨(u, s), rest, hshorter⟩) :
    ts = ⟨.keyword word, s⟩ :: rest := by
  obtain ⟨k, hk, hts⟩ := one_eq_some h
  rw [Option.ite_none_right_eq_some] at hk
  rw [← hk.1]
  exact hts

theorem name_eq_some {n : String} {s : Span} {rest : List Token}
    {hshorter : rest.length < ts.length}
    (h : (name finish ts a).found = some ⟨(n, s), rest, hshorter⟩) :
    ts = ⟨.name n, s⟩ :: rest := by
  obtain ⟨k, hk, hts⟩ := one_eq_some h
  split at hk
  · obtain rfl := Option.some.inj hk
    exact hts
  · exact nomatch hk

theorem operator_eq_some {ω : Type} {wrap : ω → Operator} {ops : List ω} {op : ω}
    {rest : List Token} {hshorter : rest.length < ts.length}
    (h : (operator finish wrap ops ts a).found = some ⟨op, rest, hshorter⟩) :
    ∃ s, ts = ⟨.operator (wrap op), s⟩ :: rest := by
  induction ops generalizing a with
  | nil => exact nomatch h
  | cons first ops ih =>
    unfold operator at h
    dsimp only at h
    split at h
    · next found hfound =>
      obtain ⟨⟨first', s⟩, rest', _⟩ := found
      obtain ⟨k, hk, hts⟩ := one_eq_some (congrArg Trial.found hfound)
      cases h
      rw [Option.ite_none_right_eq_some] at hk
      obtain ⟨rfl, hop⟩ := hk
      obtain rfl := Option.some.inj hop
      exact ⟨s, hts⟩
    · exact ih h

theorem boolean_sound {r : Found Term ts.length} (h : (boolean finish ts a).found = some r) :
    DerivesOperand finish ts r.value r.rest := by
  obtain ⟨⟨⟨b, s⟩, rest, hshorter⟩, htoken, rfl⟩ := Option.map_eq_some_iff.1 h
  obtain ⟨k, hk, rfl⟩ := one_eq_some htoken
  split at hk
  · obtain rfl := Option.some.inj hk
    exact .boolean ..
  · exact nomatch hk

theorem number_sound {r : Found Term ts.length} (h : (number finish ts a).found = some r) :
    DerivesOperand finish ts r.value r.rest := by
  obtain ⟨⟨⟨digits, s⟩, rest, hshorter⟩, htoken, rfl⟩ := Option.map_eq_some_iff.1 h
  obtain ⟨k, hk, rfl⟩ := one_eq_some htoken
  split at hk
  · obtain rfl := Option.some.inj hk
    exact .number ..
  · exact nomatch hk

theorem variableRef_sound {r : Found Term ts.length}
    (h : (variableRef finish ts a).found = some r) : DerivesOperand finish ts r.value r.rest := by
  obtain ⟨⟨⟨n, s⟩, rest, hshorter⟩, htoken, rfl⟩ := Option.map_eq_some_iff.1 h
  rw [attempt_found] at htoken
  obtain rfl := name_eq_some htoken
  exact .variable ..

theorem sourceRef_sound {r : Found Term ts.length} (h : (sourceRef finish ts a).found = some r) :
    DerivesOperand finish ts r.value r.rest := by
  rw [sourceRef, attempt_found] at h
  split at h
  · cases h
  · next word hword =>
    obtain ⟨⟨_, s⟩, rest, _⟩ := word
    obtain rfl := keyword_eq_some (congrArg Trial.found hword)
    split at h
    · cases h
    · next dot hdot =>
      obtain ⟨d, rest, _⟩ := dot
      obtain rfl := skip?_eq_some hdot
      split at h
      · cases h
      · next n hn =>
        obtain ⟨⟨n, s'⟩, rest, _⟩ := n
        obtain rfl := name_eq_some (congrArg Trial.found hn)
        obtain rfl := Option.some.inj h
        exact .source ..

theorem atom_sound {r : Found Term ts.length} (h : (atom finish ts a).found = some r) :
    DerivesOperand finish ts r.value r.rest := by
  unfold atom at h
  split at h
  · next hboolean => exact boolean_sound (hboolean ▸ h)
  · split at h
    · next hsource => exact sourceRef_sound (hsource ▸ h)
    · split at h
      · next hnumber => exact number_sound (hnumber ▸ h)
      · exact variableRef_sound h

mutual

theorem expression_sound (finish : Nat) (ts : List Token) (a : Attempts) {r : Found Phrase ts.length}
    (h : (expression finish ts a).found = some r) : Derives finish ts r.value r.rest := by
  rw [expression] at h
  split at h
  · next hchoose => exact choose_sound finish ts a (hchoose ▸ h)
  · exact binary_sound finish ts _ h
termination_by 8 * ts.length + 5

theorem choose_sound (finish : Nat) (ts : List Token) (a : Attempts) {r : Found Phrase ts.length}
    (h : (choose finish ts a).found = some r) : Derives finish ts r.value r.rest := by
  rw [choose, attempt_found] at h
  split at h
  · exact nomatch h
  · next a' first hfirst =>
    obtain ⟨⟨p, c⟩, rest, hshorter⟩ := first
    split at h
    · exact nomatch h
    · next more hmore =>
      obtain rfl := Option.some.inj h
      obtain ⟨mid, s, after, rfl, hp, hc⟩ := clause_sound finish ts a (congrArg Trial.found hfirst)
      have hbranches := branches_sound finish rest a' (congrArg Trial.found hmore)
      exact .choose s (.clause s hp hc hbranches)
termination_by 8 * ts.length + 4

theorem branches_sound (finish : Nat) (ts : List Token) (a : Attempts)
    {r : Found (PhraseBranches × Nat) ts.length} (h : (branches finish ts a).found = some r) :
    DerivesBranches finish ts r.value.1 r.value.2 r.rest := by
  rw [branches] at h
  split at h
  · next a' first hfirst =>
    obtain ⟨⟨p, c⟩, rest, hshorter⟩ := first
    split at h
    · exact nomatch h
    · next more hmore =>
      obtain rfl := Option.some.inj h
      obtain ⟨mid, s, after, rfl, hp, hc⟩ := clause_sound finish ts a (congrArg Trial.found hfirst)
      have hbranches := branches_sound finish rest a' (congrArg Trial.found hmore)
      exact .clause s hp hc hbranches
  · exact otherwiseClause_sound finish ts _ h
termination_by 8 * ts.length + 4

theorem clause_sound (finish : Nat) (ts : List Token) (a : Attempts)
    {r : Found (Phrase × Phrase) ts.length} (h : (clause finish ts a).found = some r) :
    ∃ mid s after, ts = ⟨.keyword .when, s⟩ :: after ∧ Derives finish after r.value.1 mid ∧
      Derives finish mid r.value.2 r.rest := by
  rw [clause, attempt_found] at h
  split at h
  · exact nomatch h
  · next a' word hword =>
    obtain ⟨⟨_, s⟩, rest, hshorter⟩ := word
    have hts := keyword_eq_some (congrArg Trial.found hword)
    split at h
    · exact nomatch h
    · next a'' predicate hpredicate =>
      have hp := expression_sound finish rest a' (congrArg Trial.found hpredicate)
      obtain ⟨p, mid, hshorter'⟩ := predicate
      have hmid : mid.length < rest.length := hshorter'
      split at h
      · exact nomatch h
      · next consequent hconsequent =>
        have hc := expression_sound finish mid a'' (congrArg Trial.found hconsequent)
        obtain rfl := Option.some.inj h
        exact ⟨_, _, _, hts, hp, hc⟩
termination_by 8 * ts.length + 3

theorem otherwiseClause_sound (finish : Nat) (ts : List Token) (a : Attempts)
    {r : Found (PhraseBranches × Nat) ts.length}
    (h : (otherwiseClause finish ts a).found = some r) :
    DerivesBranches finish ts r.value.1 r.value.2 r.rest := by
  rw [otherwiseClause, attempt_found] at h
  split at h
  · exact nomatch h
  · next a' word hword =>
    obtain ⟨⟨_, s⟩, rest, hshorter⟩ := word
    have hts := keyword_eq_some (congrArg Trial.found hword)
    split at h
    · exact nomatch h
    · next value hvalue =>
      have hvalue' := expression_sound finish rest a' (congrArg Trial.found hvalue)
      obtain rfl := Option.some.inj h
      subst hts
      exact .otherwise s hvalue'
termination_by 8 * ts.length + 3

theorem binary_sound (finish : Nat) (ts : List Token) (a : Attempts) {r : Found Phrase ts.length}
    (h : (binary finish ts a).found = some r) : Derives finish ts r.value r.rest := by
  rw [binary, attempt_found] at h
  split at h
  · exact nomatch h
  · next left hleft =>
    obtain ⟨mid, hhead, htail⟩ := arithmetic_sound finish ts a (congrArg Trial.found hleft)
    obtain ⟨⟨t, links⟩, rest, hshorter⟩ := left
    dsimp only at h htail
    split at h
    · obtain rfl := Option.some.inj h
      exact .chain hhead htail
    · next a'' op hop =>
      obtain ⟨s, hrest⟩ := operator_eq_some (congrArg Trial.found hop)
      obtain ⟨op, right, hshorter'⟩ := op
      have hright : right.length < rest.length := hshorter'
      split at h
      · obtain rfl := Option.some.inj h
        exact .chain hhead htail
      · next found hfound =>
        obtain ⟨mid', hhead', htail'⟩ :=
          arithmetic_sound finish right a'' (congrArg Trial.found hfound)
        obtain rfl := Option.some.inj h
        rw [hrest] at htail
        exact .compare op s hhead htail hhead' htail'
termination_by 8 * ts.length + 3

theorem arithmetic_sound (finish : Nat) (ts : List Token) (a : Attempts)
    {r : Found (Term × Links) ts.length} (h : (arithmetic finish ts a).found = some r) :
    ∃ mid, DerivesOperand finish ts r.value.1 mid ∧ DerivesLinks finish mid r.value.2 r.rest := by
  rw [arithmetic] at h
  split at h
  · exact nomatch h
  · next a' first hfirst =>
    have hhead := operand_sound finish ts a (congrArg Trial.found hfirst)
    obtain ⟨t, rest, hshorter⟩ := first
    obtain rfl := Option.some.inj h
    exact ⟨_, hhead, links_sound finish rest a'⟩
termination_by 8 * ts.length + 2

theorem links_sound (finish : Nat) (ts : List Token) (a : Attempts) :
    DerivesLinks finish ts (links finish ts a).2.value (links finish ts a).2.rest := by
  rw [links]
  split
  · exact .nil ts
  · next a' op hop =>
    obtain ⟨s, hts⟩ := operator_eq_some (congrArg Trial.found hop)
    obtain ⟨op, right, hshorter⟩ := op
    dsimp only at hts ⊢
    split
    · exact .nil ts
    · next a'' term hterm =>
      have hhead := operand_sound finish right a' (congrArg Trial.found hterm)
      obtain ⟨t, rest, hshorter'⟩ := term
      have hrest : rest.length < right.length := hshorter'
      have htail := links_sound finish rest a''
      have hlinks := DerivesLinks.cons op s hhead htail
      rw [← hts] at hlinks
      exact hlinks
termination_by 8 * ts.length + 2

theorem operand_sound (finish : Nat) (ts : List Token) (a : Attempts) {r : Found Term ts.length}
    (h : (operand finish ts a).found = some r) : DerivesOperand finish ts r.value r.rest := by
  rw [operand] at h
  split at h
  · next hgroup => exact group_sound finish ts a (hgroup ▸ h)
  · exact atom_sound h
termination_by 8 * ts.length + 1

theorem group_sound (finish : Nat) (ts : List Token) (a : Attempts) {r : Found Term ts.length}
    (h : (group finish ts a).found = some r) : DerivesOperand finish ts r.value r.rest := by
  rw [group, attempt_found] at h
  split at h
  · exact nomatch h
  · next opening hopening =>
    obtain ⟨s, after, hshorter⟩ := opening
    have hts := skip?_eq_some hopening
    split at h
    · exact nomatch h
    · next inner hinner =>
      have hinner' := expression_sound finish after a (congrArg Trial.found hinner)
      obtain ⟨e, rest, _⟩ := inner
      split at h
      · exact nomatch h
      · next closing hclosing =>
        obtain ⟨c, rest, _⟩ := closing
        obtain rfl := skip?_eq_some hclosing
        obtain rfl := Option.some.inj h
        subst hts
        exact .group s c hinner'
termination_by 8 * ts.length

end

theorem skipAssign?_eq_some {e : Span} {rest : List Token} {hshorter : rest.length < ts.length}
    (h : skipAssign? ts = some ⟨e, rest, hshorter⟩) : ts = ⟨.assign, e⟩ :: rest := by
  unfold skipAssign? at h
  split at h
  · exact nomatch h
  · next sign hsign =>
    have hsame : some sign = some ⟨e, rest, hshorter⟩ := by
      split at h
      · exact (Option.ite_none_left_eq_some.1 h).2
      · exact h
    obtain rfl := Option.some.inj hsame
    exact skip?_eq_some hsign

theorem assignment_eq_some {rule : Rule} {isSink : Bool}
    {skip : (ts : List Token) → Option (Found Span ts.length)} {sign : Kind}
    (hskip : ∀ {ts : List Token} {e : Span} {rest : List Token} {hshorter},
      skip ts = some ⟨e, rest, hshorter⟩ → ts = ⟨sign, e⟩ :: rest)
    {r : Found WrittenStatement ts.length}
    (h : (assignment finish rule isSink skip ts a).found = some r) :
    ∃ name s e after body, ts = ⟨.name name, s⟩ :: ⟨sign, e⟩ :: after ∧
      Derives finish after body r.rest ∧
      r.value = ⟨isSink, name, ⟨s.start, body.span.stop⟩, body⟩ := by
  rw [assignment, attempt_found] at h
  split at h
  · exact nomatch h
  · next n hn =>
    obtain ⟨⟨n, s⟩, rest, _⟩ := n
    have hts := name_eq_some (congrArg Trial.found hn)
    split at h
    · exact nomatch h
    · next e he =>
      obtain ⟨e, after, _⟩ := e
      obtain rfl := hskip he
      split at h
      · exact nomatch h
      · next body hbody =>
        have hbody' := expression_sound finish after _ (congrArg Trial.found hbody)
        obtain rfl := Option.some.inj h
        exact ⟨n, s, e, after, _, hts, hbody', rfl⟩

theorem statement_sound {r : Found WrittenStatement ts.length}
    (h : (statement finish ts a).found = some r) :
    DerivesStatement finish ts r.value r.rest := by
  unfold statement at h
  split at h
  · next hassign =>
    obtain ⟨name, s, e, after, body, rfl, hbody, hvalue⟩ :=
      assignment_eq_some skipAssign?_eq_some ((congrArg Trial.found hassign).trans h)
    rw [hvalue]
    exact .assign name s e hbody
  · obtain ⟨name, s, e, after, body, rfl, hbody, hvalue⟩ := assignment_eq_some skip?_eq_some h
    rw [hvalue]
    exact .sink name s e hbody

theorem statements_sound (finish : Nat) (ts : List Token) (a : Attempts) :
    DerivesStatements finish ts (statements finish ts a).2.value
      (statements finish ts a).2.rest := by
  rw [statements]
  split
  · exact .nil ts
  · next a' first hfirst =>
    have hhead := statement_sound (congrArg Trial.found hfirst)
    obtain ⟨s, rest, hshorter⟩ := first
    exact .cons hhead (statements_sound finish rest a')
termination_by ts.length

theorem program_sound {written : List WrittenStatement} (h : program finish ts = .ok written) :
    DerivesStatements finish ts written [] := by
  have hstatements := statements_sound finish ts .start
  unfold program at h
  dsimp only at h
  split at h
  · next hrest =>
    obtain rfl := Except.ok.inj h
    rw [hrest] at hstatements
    exact hstatements
  · exact nomatch h

end Read

end RangeRules.Phrase
