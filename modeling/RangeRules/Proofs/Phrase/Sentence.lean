import RangeRules.Program.Parse
import RangeRules.Proofs.Grammar.Sentence
import RangeRules.Proofs.Phrase.Completeness
import RangeRules.Proofs.Token.Placement

/-!
# What is read is what the grammar generates

A derivation forgets to a sentence of the context-free grammar, and a sentence, with any places for
its tokens, has a derivation. Together with the reader's own correctness, a text is read exactly if
the kinds of its tokens form a program.
-/
namespace RangeRules.Phrase

open Text (Span)
open Token (Kind)
open Grammar

/-- The kinds of some tokens. -/
abbrev kindsOf (ts : List Token) : List Kind := ts.map (·.kind)

mutual

theorem DerivesOperand.sentence {finish : Nat} {ts rest : List Token} {t : Term} :
    DerivesOperand finish ts t rest → ∃ w, IsOperand w ∧ kindsOf ts = w ++ kindsOf rest
  | .boolean b _ _ => ⟨_, .boolean b, rfl⟩
  | .number digits _ _ => ⟨_, .number digits, rfl⟩
  | .variable name _ _ => ⟨_, .variable name, rfl⟩
  | .source name _ _ _ _ => ⟨_, .source name, rfl⟩
  | .group _ _ h => by
    obtain ⟨w, hw, heq⟩ := h.sentence
    refine ⟨_, .group hw, ?_⟩
    simp [heq]

theorem DerivesLinks.sentence {finish : Nat} {ts rest : List Token} {links : Links} :
    DerivesLinks finish ts links rest → ∃ w, IsLinks w ∧ kindsOf ts = w ++ kindsOf rest
  | .nil _ => ⟨[], .nil, rfl⟩
  | .cons op _ head tail => by
    obtain ⟨v, hv, heq⟩ := head.sentence
    obtain ⟨w, hw, heq'⟩ := tail.sentence
    refine ⟨_, .cons op hv hw, ?_⟩
    simp [heq, heq']

/-- Branches are clauses, if any, and an `otherwise`. -/
theorem DerivesBranches.sentence {finish : Nat} {ts rest : List Token}
    {branches : PhraseBranches} {stop : Nat} :
    DerivesBranches finish ts branches stop rest → ∃ v w, (v = [] ∨ IsClauses v) ∧
      IsExpression w ∧ kindsOf ts = v ++ .keyword .otherwise :: w ++ kindsOf rest
  | .otherwise _ h => by
    obtain ⟨w, hw, heq⟩ := h.sentence
    refine ⟨[], w, .inl rfl, hw, ?_⟩
    simp [heq]
  | .clause _ predicate consequent tail => by
    obtain ⟨p, hp, heq⟩ := predicate.sentence
    obtain ⟨c, hc, heq'⟩ := consequent.sentence
    obtain ⟨v, w, hv, hw, heq''⟩ := tail.sentence
    obtain rfl | hv := hv
    · refine ⟨_, w, .inr (.single hp hc), hw, ?_⟩
      simp [heq, heq', heq'']
    · refine ⟨_, w, .inr (.cons hp hc hv), hw, ?_⟩
      simp [heq, heq', heq'']

theorem Derives.sentence {finish : Nat} {ts rest : List Token} {p : Phrase} :
    Derives finish ts p rest → ∃ w, IsExpression w ∧ kindsOf ts = w ++ kindsOf rest
  | .chain head tail => by
    obtain ⟨v, hv, heq⟩ := head.sentence
    obtain ⟨w, hw, heq'⟩ := tail.sentence
    refine ⟨_, .arith (.mk hv hw), ?_⟩
    simp [heq, heq']
  | .compare op _ head tail head' tail' => by
    obtain ⟨v, hv, heq⟩ := head.sentence
    obtain ⟨w, hw, heq'⟩ := tail.sentence
    obtain ⟨v', hv', heq''⟩ := head'.sentence
    obtain ⟨w', hw', heq'''⟩ := tail'.sentence
    refine ⟨_, .compare op (.mk hv hw) (.mk hv' hw'), ?_⟩
    simp [heq, heq', heq'', heq''']
  | .choose _ h => by
    obtain ⟨v, w, hv, hw, heq⟩ := h.sentence
    obtain rfl | hv := hv
    · cases heq
    · exact ⟨_, .choose hv hw, heq⟩

end

theorem DerivesStatements.sentence {finish : Nat} {ts : List Token}
    {written : List WrittenStatement} (h : DerivesStatements finish ts written []) :
    IsProgram (kindsOf ts) := by
  generalize hend : ([] : List Token) = rest at h
  induction h with
  | nil ts =>
    subst hend
    exact .nil
  | cons head tail ih =>
    cases head with
    | assign name s e h =>
      obtain ⟨w, hw, heq⟩ := h.sentence
      have hstatement := IsStatement.variable name hw
      have hprogram := IsProgram.cons hstatement (ih hend)
      simpa [heq] using hprogram
    | sink name s e h =>
      obtain ⟨w, hw, heq⟩ := h.sentence
      have hstatement := IsStatement.sink name hw
      have hprogram := IsProgram.cons hstatement (ih hend)
      simpa [heq] using hprogram

theorem kindsOf_eq_cons {ts : List Token} {k : Kind} {ks : List Kind}
    (h : kindsOf ts = k :: ks) : ∃ s after, ts = ⟨k, s⟩ :: after ∧ kindsOf after = ks := by
  obtain ⟨t, after, rfl, rfl, rfl⟩ := List.map_eq_cons_iff.1 h
  exact ⟨t.span, after, rfl, rfl⟩

mutual

theorem derives_operand (finish : Nat) {w ks : List Kind} {ts : List Token} :
    IsOperand w → kindsOf ts = w ++ ks →
    ∃ t rest, DerivesOperand finish ts t rest ∧ kindsOf rest = ks
  | .boolean b, heq => by
    obtain ⟨s, rest, rfl, hrest⟩ := kindsOf_eq_cons heq
    exact ⟨_, rest, .boolean b s rest, hrest⟩
  | .number digits, heq => by
    obtain ⟨s, rest, rfl, hrest⟩ := kindsOf_eq_cons heq
    exact ⟨_, rest, .number digits s rest, hrest⟩
  | .variable name, heq => by
    obtain ⟨s, rest, rfl, hrest⟩ := kindsOf_eq_cons heq
    exact ⟨_, rest, .variable name s rest, hrest⟩
  | .source name, heq => by
    obtain ⟨s, ts', rfl, heq'⟩ := kindsOf_eq_cons heq
    obtain ⟨d, ts'', rfl, heq''⟩ := kindsOf_eq_cons heq'
    obtain ⟨n, rest, rfl, hrest⟩ := kindsOf_eq_cons heq''
    exact ⟨_, rest, .source name s d n rest, hrest⟩
  | .group h, heq => by
    rw [List.cons_append, List.append_assoc] at heq
    obtain ⟨s, ts', rfl, heq'⟩ := kindsOf_eq_cons heq
    obtain ⟨inner, mid, hinner, hmid⟩ := derives_expression finish h heq'
    obtain ⟨c, rest, rfl, hrest⟩ := kindsOf_eq_cons hmid
    exact ⟨_, rest, .group s c hinner, hrest⟩

theorem derives_links (finish : Nat) {w ks : List Kind} {ts : List Token} :
    IsLinks w → kindsOf ts = w ++ ks →
    ∃ links rest, DerivesLinks finish ts links rest ∧ kindsOf rest = ks
  | .nil, heq => ⟨[], ts, .nil ts, heq⟩
  | .cons op head tail, heq => by
    rw [List.cons_append, List.append_assoc] at heq
    obtain ⟨s, ts', rfl, heq'⟩ := kindsOf_eq_cons heq
    obtain ⟨t, mid, hhead, hmid⟩ := derives_operand finish head heq'
    obtain ⟨links, rest, htail, hrest⟩ := derives_links finish tail hmid
    exact ⟨_, rest, .cons op s hhead htail, hrest⟩

theorem derives_arith (finish : Nat) {w ks : List Kind} {ts : List Token} :
    IsArith w → kindsOf ts = w ++ ks →
    ∃ t mid links rest, DerivesOperand finish ts t mid ∧ DerivesLinks finish mid links rest ∧
      kindsOf rest = ks
  | .mk head tail, heq => by
    rw [List.append_assoc] at heq
    obtain ⟨t, mid, hhead, hmid⟩ := derives_operand finish head heq
    obtain ⟨links, rest, htail, hrest⟩ := derives_links finish tail hmid
    exact ⟨t, mid, links, rest, hhead, htail, hrest⟩

/-- Clauses go on with whatever branches come after them. -/
theorem derives_clauses (finish : Nat) {w ks ks' : List Kind} {ts : List Token} :
    IsClauses w → kindsOf ts = w ++ ks →
    (∀ mid, kindsOf mid = ks → ∃ branches stop rest,
      DerivesBranches finish mid branches stop rest ∧ kindsOf rest = ks') →
    ∃ s after branches stop rest, ts = ⟨.keyword .when, s⟩ :: after ∧
      DerivesBranches finish ts branches stop rest ∧ kindsOf rest = ks'
  | .single predicate consequent, heq, hnext => by
    rw [List.cons_append, List.append_assoc] at heq
    obtain ⟨s, ts', rfl, heq'⟩ := kindsOf_eq_cons heq
    obtain ⟨p, mid, hp, hmid⟩ := derives_expression finish predicate heq'
    obtain ⟨c, more, hc, hmore⟩ := derives_expression finish consequent hmid
    obtain ⟨branches, stop, rest, htail, hrest⟩ := hnext more hmore
    exact ⟨s, ts', _, stop, rest, rfl, .clause s hp hc htail, hrest⟩
  | .cons predicate consequent tail, heq, hnext => by
    rw [List.cons_append, List.append_assoc, List.append_assoc] at heq
    obtain ⟨s, ts', rfl, heq'⟩ := kindsOf_eq_cons heq
    obtain ⟨p, mid, hp, hmid⟩ := derives_expression finish predicate heq'
    obtain ⟨c, more, hc, hmore⟩ := derives_expression finish consequent hmid
    obtain ⟨s', after, branches, stop, rest, -, htail, hrest⟩ :=
      derives_clauses finish tail hmore hnext
    exact ⟨s, ts', _, stop, rest, rfl, .clause s hp hc htail, hrest⟩

theorem derives_expression (finish : Nat) {w ks : List Kind} {ts : List Token} :
    IsExpression w → kindsOf ts = w ++ ks →
    ∃ p rest, Derives finish ts p rest ∧ kindsOf rest = ks
  | .arith h, heq => by
    obtain ⟨t, mid, links, rest, hhead, htail, hrest⟩ := derives_arith finish h heq
    exact ⟨_, rest, .chain hhead htail, hrest⟩
  | .compare op left right, heq => by
    rw [List.append_assoc] at heq
    obtain ⟨t, mid, links, more, hhead, htail, hmore⟩ := derives_arith finish left heq
    obtain ⟨s, ts', rfl, heq⟩ := kindsOf_eq_cons hmore
    obtain ⟨t', mid', links', rest, hhead', htail', hrest⟩ := derives_arith finish right heq
    exact ⟨_, rest, .compare op s hhead htail hhead' htail', hrest⟩
  | .choose clauses otherwise, heq => by
    rw [List.append_assoc] at heq
    obtain ⟨s, after, branches, stop, rest, rfl, hbranches, hrest⟩ :=
      derives_clauses finish clauses heq fun mid hmid => by
        obtain ⟨s, ts', rfl, heq⟩ := kindsOf_eq_cons hmid
        obtain ⟨value, rest, hvalue, hrest⟩ := derives_expression finish otherwise heq
        exact ⟨_, _, rest, .otherwise s hvalue, hrest⟩
    exact ⟨_, rest, .choose s hbranches, hrest⟩

end

theorem derives_program (finish : Nat) {w : List Kind} (h : IsProgram w) :
    ∀ {ts : List Token}, kindsOf ts = w → ∃ written, DerivesStatements finish ts written [] := by
  induction h with
  | nil =>
    intro ts hts
    obtain rfl := List.map_eq_nil_iff.1 hts
    exact ⟨[], .nil []⟩
  | cons head tail ih =>
    intro ts hts
    cases head with
    | «variable» name h =>
      obtain ⟨s, ts', rfl, heq⟩ := kindsOf_eq_cons hts
      obtain ⟨e, ts'', rfl, heq'⟩ := kindsOf_eq_cons heq
      obtain ⟨body, rest, hbody, hrest⟩ := derives_expression finish h heq'
      obtain ⟨written, hwritten⟩ := ih hrest
      exact ⟨_, .cons (.assign name s e hbody) hwritten⟩
    | sink name h =>
      obtain ⟨s, ts', rfl, heq⟩ := kindsOf_eq_cons hts
      obtain ⟨e, ts'', rfl, heq'⟩ := kindsOf_eq_cons heq
      obtain ⟨body, rest, hbody, hrest⟩ := derives_expression finish h heq'
      obtain ⟨written, hwritten⟩ := ih hrest
      exact ⟨_, .cons (.sink name s e hbody) hwritten⟩

/-- A text is read exactly if it is a sentence. -/
theorem read_ok_iff (source : Text.Source) :
    (∃ written, Program.read source = .ok written) ↔ IsProgram (Token.kinds source) := by
  have hkinds : kindsOf (Token.Sequence.of source).tokens = Token.kinds source :=
    Token.Sequence.map_kind source
  constructor
  · rintro ⟨written, h⟩
    rw [← hkinds]
    exact (Read.program_eq_ok.1 h).sentence
  · intro h
    obtain ⟨written, hwritten⟩ := derives_program (Token.Sequence.of source).finish h hkinds
    exact ⟨written, Read.program_eq_ok.2 hwritten⟩

end RangeRules.Phrase
