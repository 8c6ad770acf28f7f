import RangeRules.Proofs.Phrase.Following

/-!
# The reader fails where the grammar does

Each function of the reader follows its rule: at a place without layout in front of some tokens it
yields what the rule leaves, or fails with it. The furthest attempt that is left of a refused text is
therefore the furthest place at which a rule fails while the grammar tries the whole text, and no
statement that is matched from the start ends later.
-/
namespace RangeRules.Phrase.Read

open Text (Span byteCount)
open Token (Kind Settled splitLayout settled_skip)
open Peg (Matches FailsAt Tries place skip body andThen oneOf)

variable {whole cs mid : List Char} {ts : List Token} {a b : Attempts}

/-! ### Operands -/

section Operands

variable (h : Left whole cs ts) (hcs : Settled cs)
include h hcs

theorem boolean_follows (a : Attempts) :
    Follows whole (.rule .boolean) cs a (boolean (byteCount whole) ts a) := by
  refine (one_follows h hcs rfl rfl Peg.reads_boolean (fun k => ?_) a).map _
  cases k <;> rfl

theorem number_follows (a : Attempts) :
    Follows whole (.rule .number) cs a (number (byteCount whole) ts a) := by
  refine (one_follows h hcs rfl rfl Peg.reads_number (fun k => ?_) a).map _
  cases k <;> rfl

theorem variableRef_follows (a : Attempts) :
    Follows whole (.rule .variableRef) cs a (variableRef (byteCount whole) ts a) :=
  (attempt_follows (r := .variableRef) rfl rfl (h.place hcs) (name_follows h hcs a)).map _

theorem sourceRef_follows (a : Attempts) :
    Follows whole (.rule .sourceRef) cs a (sourceRef (byteCount whole) ts a) := by
  refine attempt_follows rfl rfl (h.place hcs) ?_
  have hthis := keyword_follows (r := .kwThis) rfl rfl Peg.reads_kwThis h hcs a
  split
  · next hnone => exact .none (hthis.of_none hnone).andThenFails
  · next a' this hword =>
    obtain ⟨mid, hthis, hmid⟩ := hthis.of_some hword
    have hdot := skip?_follows hmid.skip (settled_skip mid) Peg.reads_dot a'
    split
    · next hnone =>
      exact .none (hthis.andThen (hdot.of_none (congrArg (Trial.mk a') hnone)).andThenFails)
    · next dot hfound =>
      obtain ⟨mid', hdot, hmid'⟩ := hdot.of_some (congrArg (Trial.mk a') hfound)
      have hname := name_follows hmid'.skip (settled_skip mid') a'
      split
      · next hnone => exact .none (hthis.andThen (hdot.andThen (hname.of_none hnone)))
      · next hfound =>
        obtain ⟨mid'', hname, hrest⟩ := hname.of_some hfound
        exact .some (hthis.andThen (hdot.andThen hname)) hrest

theorem atom_follows (a : Attempts) :
    Follows whole (oneOf (.rule .boolean) [.rule .sourceRef, .rule .number, .rule .variableRef]) cs a
      (atom (byteCount whole) ts a) := by
  unfold atom
  have hboolean := boolean_follows h hcs a
  split
  · next hfound =>
    obtain ⟨mid, hboolean, hrest⟩ := hboolean.of_some hfound
    exact .some hboolean.choiceLeft hrest
  · next a' hnone =>
    refine .choiceRight (hboolean.of_none hnone) ?_
    have hsource := sourceRef_follows h hcs a'
    split
    · next hfound =>
      obtain ⟨mid, hsource, hrest⟩ := hsource.of_some hfound
      exact .some hsource.choiceLeft hrest
    · next a' hnone =>
      refine .choiceRight (hsource.of_none hnone) ?_
      have hnumber := number_follows h hcs a'
      split
      · next hfound =>
        obtain ⟨mid, hnumber, hrest⟩ := hnumber.of_some hfound
        exact .some hnumber.choiceLeft hrest
      · next hnone => exact .choiceRight (hnumber.of_none hnone) (variableRef_follows h hcs _)

end Operands

/-! ### Expressions -/

/-- Clauses, if any, and an `otherwise`, with layout before each. -/
def branchesPeg : Peg :=
  .seq (.many (.seq skip (.rule .whenClause))) (.seq skip (.rule .otherwiseClause))

/-- An operator and the operand after it. -/
def linkPeg : Peg := andThen (.rule .arithmeticOp) (.rule .operand)

/-- The first clause, with the layout after it skipped before the others are tried. -/
theorem whenExpr_tries {x : Option (List Char)} {c : Attempts}
    (hfirst : Tries whole (.rule .whenClause) cs a (some mid) b)
    (hbranches : Tries whole branchesPeg (splitLayout mid).2 b x c) :
    Tries whole (body .whenExpr) cs a x c := by
  obtain ⟨rest, hclauses⟩ : ∃ rest, Matches whole (.many (.seq skip (.rule .whenClause)))
      (splitLayout mid).2 (some rest) := by
    cases hbranches.fares with
    | seq first second => exact ⟨_, first⟩
    | seqFails first => exact absurd rfl first.many_ne_none
  obtain ⟨d, hclauses, hotherwise⟩ := hbranches.split hclauses
  exact (hfirst.andThen (hclauses.series (settled_skip mid))).seq hotherwise

mutual

theorem expression_follows (cs : List Char) (ts : List Token) (a : Attempts)
    (h : Left whole cs ts) (hcs : Settled cs) :
    Follows whole (.rule .expression) cs a (expression (byteCount whole) ts a) := by
  rw [expression]
  refine .silent rfl rfl ?_
  have hchoose := choose_follows cs ts a h hcs
  split
  · next hfound =>
    obtain ⟨mid, hchoose, hrest⟩ := hchoose.of_some hfound
    exact .some hchoose.choiceLeft hrest
  · next hnone => exact .choiceRight (hchoose.of_none hnone) (binary_follows cs ts _ h hcs)
termination_by 8 * ts.length + 5

theorem choose_follows (cs : List Char) (ts : List Token) (a : Attempts) (h : Left whole cs ts)
    (hcs : Settled cs) :
    Follows whole (.rule .whenExpr) cs a (choose (byteCount whole) ts a) := by
  rw [choose]
  refine attempt_follows rfl rfl (h.place hcs) ?_
  have hclause := clause_follows cs ts a h hcs
  split
  · next hnone => exact .none (hclause.of_none hnone).andThenFails.andThenFails
  · next a' first hfirst =>
    obtain ⟨mid, hclause, hmid⟩ := hclause.of_some hfirst
    have hshorter := first.shorter
    obtain ⟨x, hbranches, hrel⟩ := branches_follows _ first.rest a' hmid.skip
    have hwhole := whenExpr_tries hclause hbranches
    split
    · next hnone =>
      rw [hnone] at hwhole hrel
      cases hrel
      exact .none hwhole
    · next hmore =>
      rw [hmore] at hwhole hrel
      cases hrel with
      | some hrest => exact .some hwhole hrest
termination_by 8 * ts.length + 4

theorem branches_follows (cs : List Char) (ts : List Token) (a : Attempts) (h : Left whole cs ts) :
    Follows whole branchesPeg cs a (branches (byteCount whole) ts a) := by
  rw [branches]
  have hclause := clause_follows _ ts a h.skip (settled_skip cs)
  split
  · next a' first hfirst =>
    obtain ⟨mid, hclause, hmid⟩ := hclause.of_some hfirst
    have hshorter := first.shorter
    have hbranches := branches_follows mid first.rest a' hmid
    split
    · next hnone => exact .none (hclause.skip_then.moreThen (hbranches.of_none hnone))
    · next hmore =>
      obtain ⟨mid', hbranches, hrest⟩ := hbranches.of_some hmore
      exact .some (hclause.skip_then.moreThen hbranches) hrest
  · next a' hnone =>
    have hclauses := (hclause.of_none hnone).skip_then.stop
    obtain ⟨x, hotherwise, hrel⟩ := otherwiseClause_follows _ ts a' h.skip (settled_skip cs)
    exact ⟨x, hclauses.seq hotherwise.skip_then, hrel⟩
termination_by 8 * ts.length + 4

theorem clause_follows (cs : List Char) (ts : List Token) (a : Attempts) (h : Left whole cs ts)
    (hcs : Settled cs) :
    Follows whole (.rule .whenClause) cs a (clause (byteCount whole) ts a) := by
  rw [clause]
  refine attempt_follows rfl rfl (h.place hcs) ?_
  have hword := keyword_follows (r := .kwWhen) rfl rfl Peg.reads_kwWhen h hcs a
  split
  · next hnone => exact .none (hword.of_none hnone).andThenFails
  · next a' word hfound =>
    obtain ⟨mid, hword, hmid⟩ := hword.of_some hfound
    have hshorter := word.shorter
    have hpredicate := expression_follows _ word.rest a' hmid.skip (settled_skip mid)
    split
    · next hnone => exact .none (hword.andThen (hpredicate.of_none hnone).andThenFails)
    · next a'' predicate hfound =>
      obtain ⟨mid', hpredicate, hmid'⟩ := hpredicate.of_some hfound
      have hshorter' := predicate.shorter
      have hconsequent := expression_follows _ predicate.rest a'' hmid'.skip (settled_skip mid')
      split
      · next hnone => exact .none (hword.andThen (hpredicate.andThen (hconsequent.of_none hnone)))
      · next hfound =>
        obtain ⟨mid'', hconsequent, hrest⟩ := hconsequent.of_some hfound
        exact .some (hword.andThen (hpredicate.andThen hconsequent)) hrest
termination_by 8 * ts.length + 3

theorem otherwiseClause_follows (cs : List Char) (ts : List Token) (a : Attempts)
    (h : Left whole cs ts) (hcs : Settled cs) :
    Follows whole (.rule .otherwiseClause) cs a (otherwiseClause (byteCount whole) ts a) := by
  rw [otherwiseClause]
  refine attempt_follows rfl rfl (h.place hcs) ?_
  have hword := keyword_follows (r := .kwOtherwise) rfl rfl Peg.reads_kwOtherwise h hcs a
  split
  · next hnone => exact .none (hword.of_none hnone).andThenFails
  · next a' word hfound =>
    obtain ⟨mid, hword, hmid⟩ := hword.of_some hfound
    have hshorter := word.shorter
    have hvalue := expression_follows _ word.rest a' hmid.skip (settled_skip mid)
    split
    · next hnone => exact .none (hword.andThen (hvalue.of_none hnone))
    · next hfound =>
      obtain ⟨mid', hvalue, hrest⟩ := hvalue.of_some hfound
      exact .some (hword.andThen hvalue) hrest
termination_by 8 * ts.length + 3

theorem binary_follows (cs : List Char) (ts : List Token) (a : Attempts) (h : Left whole cs ts)
    (hcs : Settled cs) :
    Follows whole (.rule .binary) cs a (binary (byteCount whole) ts a) := by
  rw [binary]
  refine attempt_follows rfl rfl (h.place hcs) ?_
  have hleft := arithmetic_follows cs ts a h hcs
  split
  · next hnone => exact .none (hleft.of_none hnone).andThenFails
  · next a' left hfound =>
    obtain ⟨mid, hleft, hmid⟩ := hleft.of_some hfound
    have hshorter := left.shorter
    have hop := comparisonOp_follows hmid.skip (settled_skip mid) a'
    dsimp only
    split
    · next hnone =>
      exact .some (hleft.andThen (hop.of_none hnone).andThenFails.absent) hmid.skip
    · next a'' op hfound =>
      obtain ⟨mid', hop, hmid'⟩ := hop.of_some hfound
      have hshorter' := op.shorter
      have hright := arithmetic_follows _ op.rest a'' hmid'.skip (settled_skip mid')
      split
      · next hnone =>
        exact .some (hleft.andThen (hop.andThen (hright.of_none hnone)).absent) hmid.skip
      · next hfound =>
        obtain ⟨mid'', hright, hrest⟩ := hright.of_some hfound
        exact .some (hleft.andThen (hop.andThen hright).present) hrest
termination_by 8 * ts.length + 3

theorem arithmetic_follows (cs : List Char) (ts : List Token) (a : Attempts)
    (h : Left whole cs ts) (hcs : Settled cs) :
    Follows whole (.rule .arithmetic) cs a (arithmetic (byteCount whole) ts a) := by
  rw [arithmetic]
  refine .silent rfl rfl ?_
  have hoperand := operand_follows cs ts a h hcs
  split
  · next hnone => exact .none (hoperand.of_none hnone).andThenFails
  · next a' first hfound =>
    obtain ⟨mid, hoperand, hmid⟩ := hoperand.of_some hfound
    have hshorter := first.shorter
    obtain ⟨rest, hlinks, hrest⟩ := links_follow _ first.rest a' hmid.skip
    exact .some (hoperand.andThen (hlinks.series (settled_skip mid))) hrest
termination_by 8 * ts.length + 2

theorem links_follow (cs : List Char) (ts : List Token) (a : Attempts) (h : Left whole cs ts) :
    ∃ rest, Tries whole (.many (.seq skip linkPeg)) cs a (some rest)
        (links (byteCount whole) ts a).1 ∧
      Left whole rest (links (byteCount whole) ts a).2.rest := by
  rw [links]
  have hop := arithmeticOp_follows h.skip (settled_skip cs) a
  split
  · next hnone => exact ⟨cs, (hop.of_none hnone).andThenFails.skip_then.stop, h⟩
  · next a' op hfound =>
    obtain ⟨mid, hop, hmid⟩ := hop.of_some hfound
    have hshorter := op.shorter
    have hoperand := operand_follows _ op.rest a' hmid.skip (settled_skip mid)
    dsimp only
    split
    · next hnone => exact ⟨cs, (hop.andThen (hoperand.of_none hnone)).skip_then.stop, h⟩
    · next a'' term hfound =>
      obtain ⟨mid', hoperand, hmid'⟩ := hoperand.of_some hfound
      have hshorter' := term.shorter
      obtain ⟨rest, hlinks, hrest⟩ := links_follow mid' term.rest a'' hmid'
      exact ⟨rest, (hop.andThen hoperand).skip_then.more hlinks, hrest⟩
termination_by 8 * ts.length + 2

theorem operand_follows (cs : List Char) (ts : List Token) (a : Attempts) (h : Left whole cs ts)
    (hcs : Settled cs) :
    Follows whole (.rule .operand) cs a (operand (byteCount whole) ts a) := by
  rw [operand]
  refine .silent rfl rfl ?_
  have hgroup := group_follows cs ts a h hcs
  split
  · next hfound =>
    obtain ⟨mid, hgroup, hrest⟩ := hgroup.of_some hfound
    exact .some hgroup.choiceLeft hrest
  · next hnone => exact .choiceRight (hgroup.of_none hnone) (atom_follows h hcs _)
termination_by 8 * ts.length + 1

theorem group_follows (cs : List Char) (ts : List Token) (a : Attempts) (h : Left whole cs ts)
    (hcs : Settled cs) :
    Follows whole (.rule .grouped) cs a (group (byteCount whole) ts a) := by
  rw [group]
  refine attempt_follows rfl rfl (h.place hcs) ?_
  have hopening := skip?_follows h hcs Peg.reads_lparen a
  split
  · next hnone => exact .none (hopening.of_none (congrArg (Trial.mk a) hnone)).andThenFails
  · next opening hfound =>
    obtain ⟨mid, hopening, hmid⟩ := hopening.of_some (congrArg (Trial.mk a) hfound)
    have hshorter := opening.shorter
    have hinner := expression_follows _ opening.rest a hmid.skip (settled_skip mid)
    dsimp only
    split
    · next hnone => exact .none (hopening.andThen (hinner.of_none hnone).andThenFails)
    · next a' inner hfound =>
      obtain ⟨mid', hinner, hmid'⟩ := hinner.of_some hfound
      have hclosing := skip?_follows hmid'.skip (settled_skip mid') Peg.reads_rparen a'
      split
      · next hnone =>
        exact .none (hopening.andThen (hinner.andThen
          (hclosing.of_none (congrArg (Trial.mk a') hnone))))
      · next hfound =>
        obtain ⟨mid'', hclosing, hrest⟩ := hclosing.of_some (congrArg (Trial.mk a') hfound)
        exact .some (hopening.andThen (hinner.andThen hclosing)) hrest
termination_by 8 * ts.length

end

/-! ### Statements -/

theorem startsWithEquals_classify (c : Char) (cs : List Char) :
    (Token.classify c cs).1.startsWithEquals = decide (c = '=') := by
  by_cases hc : c = '='
  · subst hc
    rw [Token.classify_equals]
    split <;> rfl
  · rw [decide_eq_false hc]
    unfold Token.classify
    split
    · have hword := Token.isWord_ofWord (String.ofList (c :: cs.takeWhile Token.isWordChar))
      dsimp only
      generalize Kind.ofWord _ = k at hword
      cases k <;> first | rfl | exact nomatch hword
    · split
      · rfl
      · unfold Token.mark
        split <;> (try split) <;> first | rfl | exact absurd rfl hc

/-- An equals sign comes next where the first token starts with one. -/
theorem Left.startsWithEquals (h : Left whole cs ts) (hcs : Settled cs) :
    ts.head?.any (·.kind.startsWithEquals) = decide (cs.head? = some '=') := by
  cases ts with
  | nil =>
    rw [h.nil hcs]
    rfl
  | cons t ts =>
    obtain ⟨mid, hnext, -⟩ := h.cons hcs
    cases cs with
    | nil => exact nomatch hnext
    | cons c cs =>
      obtain ⟨hkind, -⟩ := Prod.mk.inj (Option.some.inj hnext)
      rw [List.head?_cons, Option.any_some, ← hkind, startsWithEquals_classify, List.head?_cons]
      simp only [Option.some.injEq]

theorem matches_not_equals (cs : List Char) :
    Matches whole (.not (.text "=")) cs (if cs.head? = some '=' then none else some cs) := by
  split
  · next hhead =>
    obtain ⟨rest, rfl⟩ := List.head?_eq_some_iff.1 hhead
    exact .notFails (.text "=" ('=' :: rest))
  · next hhead =>
    refine .not ?_
    have htext : Matches whole (.text "=") cs (Peg.strip ['='] cs) := .text "=" cs
    cases hstrip : Peg.strip ['='] cs with
    | none => rwa [hstrip] at htext
    | some rest => exact absurd (by rw [Peg.strip_eq_some.1 hstrip]; rfl) hhead

/-- What comes after the name in a statement is matched up to its expression where `skip` passes
over a sign, and not at all elsewhere. -/
def Leads (whole : List Char) (tail : Peg)
    (skip : (ts : List Token) → Option (Found Span ts.length)) : Prop :=
  ∀ {cs : List Char} {ts : List Token}, Left whole cs ts → Settled cs → ∀ a : Attempts,
    match skip ts with
    | none => Tries whole tail cs a none a
    | some sign => ∃ mid, Left whole mid sign.rest ∧ ∀ {x : Option (List Char)} {b : Attempts},
        Tries whole (.rule .expression) (splitLayout mid).2 a x b → Tries whole tail cs a x b

theorem leads_colon : Leads whole (andThen (.text ":") (.rule .expression)) (skip? .colon) := by
  intro cs ts h hcs a
  have hcolon := skip?_follows h hcs Peg.reads_colon a
  split
  · next hnone => exact (hcolon.of_none (congrArg (Trial.mk a) hnone)).andThenFails
  · next sign hfound =>
    obtain ⟨mid, hcolon, hmid⟩ := hcolon.of_some (congrArg (Trial.mk a) hfound)
    exact ⟨mid, hmid, hcolon.andThen⟩

theorem assignment_follows {r : Rule} (hsilent : r.isSilent = false) (hatomic : r.isAtomic = false)
    {tail : Peg} (hbody : body r = andThen (.rule .ident) tail)
    {skip : (ts : List Token) → Option (Found Span ts.length)} (hleads : Leads whole tail skip)
    {isSink : Bool} (h : Left whole cs ts) (hcs : Settled cs) (a : Attempts) :
    Follows whole (.rule r) cs a (assignment (byteCount whole) r isSink skip ts a) := by
  refine attempt_follows hsilent hatomic (h.place hcs) ?_
  rw [hbody]
  have hname := name_follows h hcs a
  split
  · next hnone => exact .none (hname.of_none hnone).andThenFails
  · next a' n hfound =>
    obtain ⟨mid, hname, hmid⟩ := hname.of_some hfound
    have hsign := hleads hmid.skip (settled_skip mid) a'
    split
    · next hnone =>
      rw [hnone] at hsign
      exact .none (hname.andThen hsign)
    · next sign hfound =>
      rw [hfound] at hsign
      obtain ⟨mid', hmid', hsign⟩ := hsign
      have hexpression := expression_follows _ sign.rest a' hmid'.skip (settled_skip mid')
      split
      · next hnone => exact .none (hname.andThen (hsign (hexpression.of_none hnone)))
      · next hfound =>
        obtain ⟨mid'', hexpression, hrest⟩ := hexpression.of_some hfound
        exact .some (hname.andThen (hsign hexpression)) hrest

theorem skipAssign?_assign (s : Span) (ts : List Token) : skipAssign? (⟨.assign, s⟩ :: ts) =
    if ts.head?.any (·.kind.startsWithEquals) then none else some ⟨s, ts, by simp⟩ := by
  cases ts <;> rfl

theorem skipAssign?_of_ne {t : Token} (h : t.kind ≠ .assign) (ts : List Token) :
    skipAssign? (t :: ts) = none := by
  unfold skipAssign? skip?
  dsimp only
  rw [if_neg h]

theorem leads_assign : Leads whole
    (andThen (.text "=") (andThen (.not (.text "=")) (.rule .expression))) skipAssign? := by
  intro cs ts h hcs a
  have hsign : Tries whole (.text "=") cs a (Peg.strip ['='] cs) a := .text "=" cs a
  have hother : ∀ rest : List Char, Tries whole (.not (.text "=")) rest a
      (if rest.head? = some '=' then none else some rest) a :=
    fun rest => .not (matches_not_equals rest) a
  cases ts with
  | nil =>
    rw [h.nil hcs] at hsign ⊢
    exact hsign.andThenFails
  | cons t ts =>
    obtain ⟨mid, hnext, hmid⟩ := h.cons hcs
    by_cases hassign : t.kind = .assign
    · obtain ⟨kind, span⟩ := t
      obtain rfl : kind = .assign := hassign
      obtain rfl := Token.eq_of_next?_assign hnext
      have hequals := hmid.skip.startsWithEquals (settled_skip mid)
      have hnot := hother (splitLayout mid).2
      rw [skipAssign?_assign]
      by_cases hstarts : ts.head?.any (·.kind.startsWithEquals) = true
      · rw [if_pos hstarts]
        rw [if_pos (of_decide_eq_true (hequals.symm.trans hstarts))] at hnot
        exact hsign.andThen hnot.andThenFails
      · rw [if_neg hstarts]
        rw [if_neg fun hhead => hstarts (hequals.trans (decide_eq_true hhead))] at hnot
        exact ⟨_, hmid.skip, fun h => hsign.andThen (hnot.andThen h)⟩
    · rw [skipAssign?_of_ne hassign]
      cases hstrip : Peg.strip ['='] cs with
      | none =>
        rw [hstrip] at hsign
        exact hsign.andThenFails
      | some rest =>
        -- The first token is a comparison, which starts with two equals signs.
        rw [hstrip] at hsign
        obtain rfl : cs = '=' :: rest := Peg.strip_eq_some.1 hstrip
        have hhead : rest.head? = some '=' := by
          by_contra hhead
          rw [Token.next?_assign hhead] at hnext
          exact hassign (Prod.mk.inj (Option.some.inj hnext)).1.symm
        obtain ⟨rest, rfl⟩ := List.head?_eq_some_iff.1 hhead
        have hsettled : Settled ('=' :: rest) :=
          Token.settled_cons.2 ⟨rfl, fun h => absurd h.1 (by decide)⟩
        refine hsign.andThen ?_
        rw [hsettled]
        exact (hother ('=' :: rest)).andThenFails

theorem statement_follows (h : Left whole cs ts) (hcs : Settled cs) (a : Attempts) :
    Follows whole (.rule .statement) cs a (statement (byteCount whole) ts a) := by
  refine .silent rfl rfl ?_
  have hvariable : Follows whole (.rule .variableAssignment) cs a
      (assignment (byteCount whole) .variableAssignment false skipAssign? ts a) :=
    assignment_follows rfl rfl rfl leads_assign h hcs a
  unfold statement
  split
  · next hfound =>
    obtain ⟨mid, hvariable, hrest⟩ := hvariable.of_some hfound
    exact .some hvariable.choiceLeft hrest
  · next hnone =>
    exact .choiceRight (hvariable.of_none hnone)
      (assignment_follows rfl rfl rfl leads_colon h hcs _)

theorem statements_follow (cs : List Char) (ts : List Token) (a : Attempts) (h : Left whole cs ts) :
    ∃ rest, Tries whole (.many (.seq skip (.rule .statement))) cs a (some rest)
        (statements (byteCount whole) ts a).1 ∧
      Left whole rest (statements (byteCount whole) ts a).2.rest := by
  rw [statements]
  have hstatement := statement_follows h.skip (settled_skip cs) a
  split
  · next hnone => exact ⟨cs, (hstatement.of_none hnone).skip_then.stop, h⟩
  · next a' first hfound =>
    obtain ⟨mid, hstatement, hmid⟩ := hstatement.of_some hfound
    have hshorter := first.shorter
    obtain ⟨rest, hothers, hrest⟩ := statements_follow mid first.rest a' hmid
    exact ⟨rest, hstatement.skip_then.more hothers, hrest⟩
termination_by ts.length

/-- The end is not reached where a token comes first. -/
theorem endOfInput_tries {t : Token} (h : Left whole cs (t :: ts)) (hcs : Settled cs)
    (a : Attempts) :
    Tries whole (.rule .endOfInput) cs a none (a.failToken .endOfInput t.span.start) := by
  obtain ⟨mid, hnext, -⟩ := h.cons hcs
  have hfinish : Matches whole .finish cs none := by
    cases cs with
    | nil => exact nomatch hnext
    | cons c cs => exact .finishFails c cs
  have hplace : place whole cs = t.span.start := h.place hcs
  rw [← hplace]
  exact (Tries.quiet hfinish nofun a).failed (r := .endOfInput) rfl rfl a

/-- The attempts that a refused text leaves are those of the grammar. -/
theorem program_tries (source : List Char) {a : Attempts}
    (h : program (byteCount source) (Token.tokensFrom 0 source) = .error a) :
    Tries source (.rule .program) source .start none a := by
  have hleft : Left source source (Token.tokensFrom 0 source) := ⟨[], rfl, rfl⟩
  obtain ⟨rest, hstatements, hrest⟩ := statements_follow _ _ .start hleft.skip
  unfold program at h
  dsimp only at h
  split at h
  · exact nomatch h
  · next t ts hts =>
    rw [hts] at hrest
    have hbody := (Tries.start .start).andThen
      ((hstatements.series (settled_skip source)).andThen
        (endOfInput_tries hrest.skip (settled_skip rest) _))
    have hprogram := hbody.failed (r := .program) rfl rfl .start
    have hplace : place source source = 0 := Nat.sub_self _
    rw [hplace] at hprogram
    obtain rfl := Except.error.inj h
    exact hprogram

/-- The furthest attempt is where the grammar fails last. -/
theorem program_isGreatest (source : List Char) {a : Attempts}
    (h : program (byteCount source) (Token.tokensFrom 0 source) = .error a) :
    IsGreatest {offset | FailsAt source (.rule .program) source offset} a.furthest := by
  have htries := program_tries source h
  have hall := (htries.furthest a.furthest).1 le_rfl
  refine ⟨?_, hall.2⟩
  by_contra hnone
  -- All failures would be nearer then, but the program itself is one.
  have hnearer : ∀ offset, FailsAt source (.rule .program) source offset → offset < a.furthest := by
    intro offset hfails
    exact (hall.2 offset hfails).lt_of_ne fun heq => hnone (heq ▸ hfails)
  have hself := hnearer _ (.rule rfl htries.fares)
  have hle := (htries.furthest (a.furthest - 1)).2
    ⟨Nat.zero_le _, fun offset hfails => Nat.le_sub_one_of_lt (hnearer offset hfails)⟩
  omega

/-- No statements that are matched from the start end later. -/
theorem place_le_of_statements (source : List Char) {a : Attempts}
    (h : program (byteCount source) (Token.tokensFrom 0 source) = .error a) {rest : List Char}
    (hreaches : Relation.ReflTransGen
      (fun cs mid => Matches source (.seq skip (.rule .statement)) cs (some mid)) source rest) :
    place source rest ≤ a.furthest := by
  obtain ⟨last, hstatements, -⟩ := statements_follow source _ .start ⟨[], rfl, rfl⟩
  obtain ⟨offset, hfails, hplace⟩ :=
    Peg.exists_failsAt_statements (hstatements.fares.many_of_reaches hreaches)
  exact hplace.trans ((program_isGreatest source h).2 (hfails.many_of_reaches hreaches).program)

end RangeRules.Phrase.Read
