import RangeRules.Proofs.Grammar.Soundness

/-!
# Every sentence is matched

The proof follows the derivation of the sentence. At the first lexeme each earlier alternative
fails, so that no choice hides a later one; and a repetition stops where it should, since what
comes after an expression does not go on with an operator.
-/
namespace RangeRules.Peg

open Token Grammar

variable {whole : List Char}

/-- The expression matches, and what is left is of the given kinds. -/
def Leaves (whole : List Char) (e : Peg) (cs : List Char) (ks : List Kind) : Prop :=
  ∃ rest, Matches whole e cs (some rest) ∧ kinds rest = ks

theorem Leaves.rule {r : Rule} {cs : List Char} {ks : List Kind} (h : Leaves whole (body r) cs ks) :
    Leaves whole (.rule r) cs ks :=
  h.imp fun _ h => ⟨.rule h.1, h.2⟩

theorem Leaves.choiceLeft {a b : Peg} {cs : List Char} {ks : List Kind} (h : Leaves whole a cs ks) :
    Leaves whole (.choice a b) cs ks :=
  h.imp fun _ h => ⟨.choiceLeft h.1, h.2⟩

theorem Leaves.choiceRight {a b : Peg} {cs : List Char} {ks : List Kind}
    (hfails : Matches whole a cs none) (h : Leaves whole b cs ks) :
    Leaves whole (.choice a b) cs ks :=
  h.imp fun _ h => ⟨.choiceRight hfails h.1, h.2⟩

theorem Leaves.andThen {a b : Peg} {cs : List Char} {ks ks' : List Kind}
    (ha : Leaves whole a cs ks)
    (hb : ∀ mid, Settled mid → kinds mid = ks → Leaves whole b mid ks') :
    Leaves whole (.andThen a b) cs ks' := by
  obtain ⟨mid, ha, hmid⟩ := ha
  obtain ⟨rest, hb, hrest⟩ := hb _ (settled_skip mid) ((kinds_skip mid).trans hmid)
  exact ⟨rest, matches_andThen_some.2 ⟨mid, ha, hb⟩, hrest⟩

theorem Reads.leaves {e : Peg} {accept : Kind → Bool} (h : Reads whole e accept) {cs : List Char}
    (hcs : Settled cs) {k : Kind} {ks : List Kind} (hkinds : kinds cs = k :: ks)
    (hk : accept k = true) : Leaves whole e cs ks := by
  obtain ⟨rest, hnext, hrest⟩ := hcs.next?_of_kinds hkinds
  have hstep := h cs hcs
  unfold step at hstep
  rw [hnext] at hstep
  dsimp only at hstep
  rw [if_pos hk] at hstep
  exact ⟨rest, hstep, hrest⟩

theorem Reads.fails {e : Peg} {accept : Kind → Bool} (h : Reads whole e accept) {cs : List Char}
    (hcs : Settled cs) (hkinds : (kinds cs).head?.any accept = false) :
    Matches whole e cs none := by
  have hstep := h cs hcs
  have hnone : step accept cs = none := by
    rw [hcs.kinds_eq] at hkinds
    unfold step
    split
    · rfl
    · next k rest hnext =>
      rw [hnext] at hkinds
      dsimp only [List.head?_cons, Option.any_some] at hkinds
      rw [hkinds]
      rfl
  rwa [hnone] at hstep

theorem Leaves.series {a : Peg} {cs : List Char} {ks : List Kind} (hcs : Settled cs)
    (h : Leaves whole (.many (.seq skip a)) cs ks) : Leaves whole (.series a) cs ks :=
  h.imp fun _ h => ⟨(matches_series_some hcs).2 h.1, h.2⟩

theorem Leaves.stop {a : Peg} {cs : List Char} (h : Matches whole a (splitLayout cs).2 none) :
    Leaves whole (.many (.seq skip a)) cs (kinds cs) :=
  ⟨cs, .stop (matches_skip_then.2 h), rfl⟩

theorem Leaves.more {a : Peg} {cs : List Char} {ks ks' : List Kind}
    (ha : Leaves whole a (splitLayout cs).2 ks)
    (hothers : ∀ mid, kinds mid = ks → Leaves whole (.many (.seq skip a)) mid ks') :
    Leaves whole (.many (.seq skip a)) cs ks' := by
  obtain ⟨mid, ha, hmid⟩ := ha
  obtain ⟨rest, hothers, hrest⟩ := hothers mid hmid
  exact ⟨rest, .more (matches_skip_then.2 ha) hothers, hrest⟩

/-- A part with a repetition of it is a series of at least one. -/
theorem Leaves.series₁ {a : Peg} {cs : List Char} {ks ks' : List Kind} (ha : Leaves whole a cs ks)
    (hothers : ∀ mid, kinds mid = ks → Leaves whole (.many (.seq skip a)) mid ks') :
    Leaves whole (.series₁ a) cs ks' :=
  ha.andThen fun mid hmid heq => (hothers mid heq).series hmid

theorem IsArith.not_when {w : List Kind} (h : IsArith w) (ks : List Kind) :
    (w ++ ks).head?.any (isKeyword .when) = false := by
  cases h with
  | mk head tail => cases head <;> rfl

theorem arithmetic_of_ends {ks : List Kind} (h : Ends ks) : ks.head?.any isArithmetic = false := by
  cases ks with
  | nil => rfl
  | cons k ks =>
    cases k with
    | operator op => exact absurd rfl (h op ks)
    | _ => rfl

theorem comparison_of_ends {ks : List Kind} (h : Ends ks) : ks.head?.any isComparison = false := by
  cases ks with
  | nil => rfl
  | cons k ks =>
    cases k with
    | operator op => exact absurd rfl (h op ks)
    | _ => rfl

theorem grouped_fails {cs : List Char} (hcs : Settled cs)
    (h : (kinds cs).head?.any (fun k => decide (k = .lparen)) = false) :
    Matches whole (.rule .grouped) cs none :=
  .rule (.seqFails (reads_lparen.fails hcs h))

theorem sourceRef_fails {cs : List Char} (hcs : Settled cs)
    (h : (kinds cs).head?.any (isKeyword .this) = false) :
    Matches whole (.rule .sourceRef) cs none :=
  .rule (.seqFails (reads_kwThis.fails hcs h))

theorem whenClause_fails {cs : List Char} (hcs : Settled cs)
    (h : (kinds cs).head?.any (isKeyword .when) = false) :
    Matches whole (.rule .whenClause) cs none :=
  .rule (.seqFails (reads_kwWhen.fails hcs h))

theorem whenExpr_fails {cs : List Char} (hcs : Settled cs)
    (h : (kinds cs).head?.any (isKeyword .when) = false) :
    Matches whole (.rule .whenExpr) cs none :=
  .rule (.seqFails (.seqFails (whenClause_fails hcs h)))

mutual

theorem operand_leaves {w : List Kind} : IsOperand w → ∀ {cs : List Char} {ks : List Kind},
    Settled cs → kinds cs = w ++ ks → Leaves whole (.rule .operand) cs ks
  | .group h, cs, ks, hcs, hkinds => by
    rw [List.cons_append, List.append_assoc] at hkinds
    exact .rule (.choiceLeft (.rule ((reads_lparen.leaves hcs hkinds rfl).andThen
      fun mid hmid heq => (expression_leaves h hmid heq (by rintro _ _ ⟨⟩)).andThen
        fun mid' hmid' heq' => reads_rparen.leaves hmid' heq' rfl)))
  | .boolean b, cs, ks, hcs, hkinds =>
    .rule (.choiceRight (grouped_fails hcs (hkinds ▸ rfl))
      (.choiceLeft (reads_boolean.leaves hcs hkinds rfl)))
  | .source name, cs, ks, hcs, hkinds => by
    refine .rule (.choiceRight (grouped_fails hcs (hkinds ▸ rfl))
      (.choiceRight (reads_boolean.fails hcs (hkinds ▸ rfl)) (.choiceLeft (.rule ?_))))
    exact (reads_kwThis.leaves hcs hkinds rfl).andThen fun mid hmid heq =>
      (reads_dot.leaves hmid heq rfl).andThen fun mid' hmid' heq' =>
        reads_ident.leaves hmid' heq' rfl
  | .number digits, cs, ks, hcs, hkinds =>
    .rule (.choiceRight (grouped_fails hcs (hkinds ▸ rfl))
      (.choiceRight (reads_boolean.fails hcs (hkinds ▸ rfl))
        (.choiceRight (sourceRef_fails hcs (hkinds ▸ rfl))
          (.choiceLeft (reads_number.leaves hcs hkinds rfl)))))
  | .variable name, cs, ks, hcs, hkinds =>
    .rule (.choiceRight (grouped_fails hcs (hkinds ▸ rfl))
      (.choiceRight (reads_boolean.fails hcs (hkinds ▸ rfl))
        (.choiceRight (sourceRef_fails hcs (hkinds ▸ rfl))
          (.choiceRight (reads_number.fails hcs (hkinds ▸ rfl))
            (.rule (reads_ident.leaves hcs hkinds rfl))))))

theorem links_leave {w : List Kind} : IsLinks w → ∀ {cs : List Char} {ks : List Kind},
    kinds cs = w ++ ks → ks.head?.any isArithmetic = false →
      Leaves whole (.many (.seq skip (.andThen (.rule .arithmeticOp) (.rule .operand)))) cs ks
  | .nil, cs, ks, hkinds, hends => by
    obtain rfl : kinds cs = ks := hkinds
    refine .stop (.seqFails (reads_arithmeticOp.fails (settled_skip cs) ?_))
    rw [kinds_skip]
    exact hends
  | .cons op head tail, cs, ks, hkinds, hends => by
    rw [List.cons_append, List.append_assoc] at hkinds
    rw [← kinds_skip] at hkinds
    have hfirst := (reads_arithmeticOp.leaves (settled_skip cs) hkinds rfl).andThen
      fun mid hmid heq => operand_leaves head hmid heq
    exact .more hfirst fun mid heq => links_leave tail heq hends

theorem arith_leaves {w : List Kind} : IsArith w → ∀ {cs : List Char} {ks : List Kind},
    Settled cs → kinds cs = w ++ ks → ks.head?.any isArithmetic = false →
      Leaves whole (.rule .arithmetic) cs ks
  | .mk head tail, cs, ks, hcs, hkinds, hends => by
    rw [List.append_assoc] at hkinds
    exact .rule ((operand_leaves head hcs hkinds).andThen
      fun mid hmid heq => (links_leave tail heq hends).series hmid)

/-- The first clause leaves the others, and these leave what comes after them. -/
theorem clauses_leave {w : List Kind} : IsClauses w → ∀ {cs : List Char} {ks : List Kind},
    Settled cs → kinds cs = w ++ .keyword .otherwise :: ks →
      ∃ others, Leaves whole (.rule .whenClause) cs others ∧ ∀ mid, kinds mid = others →
        Leaves whole (.many (.seq skip (.rule .whenClause))) mid (.keyword .otherwise :: ks)
  | .single predicate consequent, cs, ks, hcs, hkinds => by
    rw [List.cons_append, List.append_assoc] at hkinds
    refine ⟨_, .rule ((reads_kwWhen.leaves hcs hkinds rfl).andThen fun mid hmid heq =>
      (expression_leaves predicate hmid heq (consequent.ends _)).andThen fun mid' hmid' heq' =>
        expression_leaves consequent hmid' heq' (by rintro _ _ ⟨⟩)), ?_⟩
    intro mid hmid
    rw [← hmid]
    -- After the last clause comes `otherwise`, at which one more clause fails.
    refine .stop (whenClause_fails (settled_skip mid) ?_)
    rw [kinds_skip, hmid]
    rfl
  | .cons predicate consequent tail, cs, ks, hcs, hkinds => by
    simp only [List.cons_append, List.append_assoc] at hkinds
    refine ⟨_, .rule ((reads_kwWhen.leaves hcs hkinds rfl).andThen fun mid hmid heq =>
      (expression_leaves predicate hmid heq (consequent.ends _)).andThen fun mid' hmid' heq' =>
        expression_leaves consequent hmid' heq' (tail.ends _)), ?_⟩
    intro mid hmid
    rw [← kinds_skip] at hmid
    obtain ⟨others, hfirst, hothers⟩ := clauses_leave tail (settled_skip mid) hmid
    exact .more hfirst hothers

theorem expression_leaves {w : List Kind} : IsExpression w → ∀ {cs : List Char} {ks : List Kind},
    Settled cs → kinds cs = w ++ ks → Ends ks → Leaves whole (.rule .expression) cs ks
  | .choose clauses otherwise, cs, ks, hcs, hkinds, hends => by
    rw [List.append_assoc] at hkinds
    obtain ⟨others, hfirst, hothers⟩ := clauses_leave clauses hcs hkinds
    exact .rule (.choiceLeft (.rule ((hfirst.series₁ hothers).andThen fun mid hmid heq =>
      .rule ((reads_kwOtherwise.leaves hmid heq rfl).andThen fun mid' hmid' heq' =>
        expression_leaves otherwise hmid' heq' hends))))
  | .arith h, cs, ks, hcs, hkinds, hends => by
    refine .rule (.choiceRight (whenExpr_fails hcs (hkinds ▸ IsArith.not_when h ks)) (.rule ?_))
    exact (arith_leaves h hcs hkinds (arithmetic_of_ends hends)).andThen fun mid hmid heq =>
      ⟨mid, .absent (.seqFails (reads_comparisonOp.fails hmid (heq ▸ comparison_of_ends hends))), heq⟩
  | .compare op left right, cs, ks, hcs, hkinds, hends => by
    rw [List.append_assoc] at hkinds
    refine .rule (.choiceRight (whenExpr_fails hcs (hkinds ▸ IsArith.not_when left _)) (.rule ?_))
    refine (arith_leaves left hcs hkinds rfl).andThen fun mid hmid heq => ?_
    have hright := (reads_comparisonOp.leaves hmid heq rfl).andThen fun mid' hmid' heq' =>
      arith_leaves right hmid' heq' (arithmetic_of_ends hends)
    exact hright.imp fun _ h => ⟨.present h.1, h.2⟩

end

theorem startsWithEquals_of_begins {k : Kind} (h : begins k = true) :
    k.startsWithEquals = false := by
  cases k with
  | assign | operator => exact nomatch h
  | _ => rfl

/-- An equals sign is not matched at a lexeme that begins otherwise. -/
theorem equals_fails {cs : List Char} (hcs : Settled cs) {k : Kind} {ks : List Kind}
    (hkinds : kinds cs = k :: ks) (hk : k.startsWithEquals = false) :
    Matches whole (.text "=") cs none := by
  have htext : Matches whole (.text "=") cs (strip ['='] cs) := .text "=" cs
  cases hstrip : strip ['='] cs with
  | none => rwa [hstrip] at htext
  | some rest =>
    obtain rfl := strip_eq_some.1 hstrip
    obtain ⟨_, hnext, -⟩ := hcs.next?_of_kinds hkinds
    obtain ⟨rfl, -⟩ := Prod.mk.inj (Option.some.inj hnext)
    rw [classify_equals] at hk
    split at hk <;> exact nomatch hk

theorem assignment_leaves {name : String} {w : List Kind} (h : IsExpression w) {cs : List Char}
    {ks : List Kind} (hcs : Settled cs) (hkinds : kinds cs = .name name :: .assign :: (w ++ ks))
    (hends : Ends ks) : Leaves whole (.rule .variableAssignment) cs ks := by
  obtain ⟨k, t, rfl, hk⟩ := h.begins
  refine .rule ((reads_ident.leaves hcs hkinds rfl).andThen fun mid hmid heq => ?_)
  obtain ⟨rest, hnext, hrest⟩ := hmid.next?_of_kinds heq
  obtain rfl := eq_of_next?_assign hnext
  have hequals : Leaves whole (.text "=") ('=' :: rest) (k :: t ++ ks) := ⟨rest, .text "=" _, hrest⟩
  refine hequals.andThen fun mid' hmid' heq' => ?_
  have hnot : Leaves whole (.not (.text "=")) mid' (k :: t ++ ks) :=
    ⟨mid', .not (equals_fails hmid' heq' (startsWithEquals_of_begins hk)), heq'⟩
  exact hnot.andThen fun mid'' hmid'' heq'' => expression_leaves h hmid'' heq'' hends

theorem sink_leaves {name : String} {w : List Kind} (h : IsExpression w) {cs : List Char}
    {ks : List Kind} (hcs : Settled cs) (hkinds : kinds cs = .name name :: .colon :: (w ++ ks))
    (hends : Ends ks) : Leaves whole (.rule .sinkAssignment) cs ks :=
  .rule ((reads_ident.leaves hcs hkinds rfl).andThen fun _ hmid heq =>
    (reads_colon.leaves hmid heq rfl).andThen fun _ hmid' heq' =>
      expression_leaves h hmid' heq' hends)

theorem assignment_fails {name : String} {cs : List Char} {ks : List Kind} (hcs : Settled cs)
    (hkinds : kinds cs = .name name :: .colon :: ks) :
    Matches whole (.rule .variableAssignment) cs none := by
  obtain ⟨mid, hname, hmid⟩ := (@reads_ident whole).leaves hcs hkinds rfl
  rw [← kinds_skip] at hmid
  exact .rule (.seq hname (matches_skip_then.2 (.seqFails (equals_fails (settled_skip mid) hmid rfl))))

/-- A statement that is a sentence is matched, whichever of the two it is. -/
theorem statement_leaves {w : List Kind} (h : IsStatement w) {cs : List Char} {ks : List Kind}
    (hcs : Settled cs) (hkinds : kinds cs = w ++ ks) (hends : Ends ks) :
    Leaves whole (.rule .statement) cs ks := by
  match h with
  | .variable name h => exact .rule (.choiceLeft (assignment_leaves h hcs hkinds hends))
  | .sink name h =>
    exact .rule (.choiceRight (assignment_fails hcs hkinds) (sink_leaves h hcs hkinds hends))

theorem statements_leave {w : List Kind} (h : IsProgram w) :
    ∀ {cs : List Char}, kinds cs = w → Leaves whole (.many (.seq skip (.rule .statement))) cs [] := by
  induction h with
  | nil =>
    intro cs hkinds
    rw [← hkinds]
    refine .stop (.rule (.choiceRight (.rule (.seqFails ?_)) (.rule (.seqFails ?_))))
    all_goals
      refine reads_ident.fails (settled_skip cs) ?_
      rw [kinds_skip, hkinds]
      rfl
  | cons head tail ih =>
    intro cs hkinds
    rw [← kinds_skip] at hkinds
    exact .more (statement_leaves head (settled_skip cs) hkinds tail.ends) fun mid heq => ih heq

/-- A text that spells a program is matched by the grammar, up to its end. -/
theorem matches_of_isProgram {source : List Char} (h : IsProgram (kinds source)) :
    Matches source (.rule .program) source (some []) := by
  obtain ⟨rest, hstatements, hrest⟩ :=
    (@statements_leave source _ h _ (kinds_skip source)).series (settled_skip source)
  have hempty : (splitLayout rest).2 = [] := by
    rw [kinds_eq] at hrest
    cases hlayout : (splitLayout rest).2 with
    | nil => rfl
    | cons c cs =>
      rw [hlayout] at hrest
      exact nomatch hrest
  have hfinish : Matches source (.rule .endOfInput) (splitLayout rest).2 (some []) := by
    rw [hempty]
    exact .rule .finish
  exact .rule (matches_andThen_some.2 ⟨source, .start,
    matches_andThen_some.2 ⟨rest, hstatements, hfinish⟩⟩)

end RangeRules.Peg
