import RangeRules.Proofs.Grammar.Lexical
import RangeRules.Proofs.Grammar.Sentence

/-!
# What the grammar on characters matches

Whatever a rule matches spells what the context-free grammar generates. The proof is by induction
on the length of the text, since every rule reads a lexeme before it refers back to expressions.
-/
namespace RangeRules.Peg

open Token Grammar

variable {whole : List Char}

/-! ### Layout between the parts of a rule -/

theorem matches_skip_then {a : Peg} {cs : List Char} {x : Option (List Char)} :
    Matches whole (.seq skip a) cs x ↔ Matches whole a (splitLayout cs).2 x := by
  constructor
  · intro h
    cases h with
    | seq hskip ha =>
      obtain rfl := Option.some.inj (hskip.unique (matches_skip cs))
      exact ha
    | seqFails hskip => exact nomatch hskip.unique (matches_skip cs)
  · exact .seq (matches_skip cs)

theorem matches_andThen_some {a b : Peg} {cs rest : List Char} :
    Matches whole (andThen a b) cs (some rest) ↔
      ∃ mid, Matches whole a cs (some mid) ∧ Matches whole b (splitLayout mid).2 (some rest) := by
  unfold andThen
  rw [matches_seq_some]
  simp only [matches_skip_then]

/-- A repetition never fails. -/
theorem Matches.many_ne_none {a : Peg} {cs : List Char} {x : Option (List Char)}
    (h : Matches whole (.many a) cs x) : x ≠ none := by
  generalize he : Peg.many a = e at h
  induction h with
  | stop => exact Option.some_ne_none _
  | more first others ih ih' => exact ih' he
  | _ => exact nomatch he

/-- Where no layout comes first, a series is a repetition with layout before each part. -/
theorem matches_series_some {a : Peg} {cs rest : List Char} (hcs : Settled cs) :
    Matches whole (series a) cs (some rest) ↔
      Matches whole (.many (.seq skip a)) cs (some rest) := by
  have hskip : ∀ x, Matches whole (.seq skip a) cs x ↔ Matches whole a cs x := by
    intro x
    rw [matches_skip_then, hcs]
  unfold series
  rw [matches_optional_some, matches_seq_some]
  constructor
  · rintro (⟨mid, ha, hmany⟩ | ⟨hfails, rfl⟩)
    · exact .more ((hskip _).2 ha) hmany
    · cases hfails with
      | seq ha hmany => exact absurd rfl hmany.many_ne_none
      | seqFails ha => exact .stop ((hskip _).2 ha)
  · intro h
    cases h with
    | stop hfails => exact .inr ⟨.seqFails ((hskip _).1 hfails), rfl⟩
    | more ha hmany => exact .inl ⟨_, (hskip _).1 ha, hmany⟩

/-! ### What is matched is a sentence -/

/-- What lies between two places of a text is of the given form, and more than layout. -/
structure Spells (form : List Kind → Prop) (cs rest : List Char) : Prop where
  shorter : rest.length < cs.length
  kinds_eq : ∃ w, form w ∧ kinds cs = w ++ kinds rest

/-- On texts of at most `n` characters the expression matches only what has the given form. -/
def Sound (whole : List Char) (e : Peg) (form : List Kind → Prop) (n : Nat) : Prop :=
  ∀ cs rest, cs.length ≤ n → Settled cs → Matches whole e cs (some rest) → Spells form cs rest

theorem Reads.spells {e : Peg} {accept : Kind → Bool} (h : Reads whole e accept)
    {cs rest : List Char} (hcs : Settled cs) (hmatch : Matches whole e cs (some rest)) :
    rest.length < cs.length ∧ ∃ k, accept k = true ∧ kinds cs = k :: kinds rest := by
  have hstep := (h cs hcs).unique hmatch
  unfold step at hstep
  split at hstep
  · exact nomatch hstep
  · next k rest' hnext =>
    obtain ⟨hk, hrest⟩ := Option.ite_none_right_eq_some.1 hstep
    obtain rfl := Option.some.inj hrest
    refine ⟨length_of_next? hnext, k, hk, ?_⟩
    rw [hcs.kinds_eq, hnext]

/-- A series spells a sequence of what its part spells. -/
theorem series_spells {a : Peg} {part all : List Kind → Prop} {n : Nat}
    (ha : Sound whole a part n) (hnil : all [])
    (hcons : ∀ v w, part v → all w → all (v ++ w)) :
    ∀ cs rest, cs.length ≤ n → Matches whole (.many (.seq skip a)) cs (some rest) →
      rest.length ≤ cs.length ∧ ∃ w, all w ∧ kinds cs = w ++ kinds rest := by
  intro cs rest hlength h
  cases h with
  | stop hfails => exact ⟨le_rfl, [], hnil, rfl⟩
  | @more _ _ mid _ hfirst hothers =>
    have hskip := splitLayout_length cs
    obtain ⟨hshorter, v, hv, heq⟩ :=
      ha _ mid (hskip.trans hlength) (settled_skip cs) (matches_skip_then.1 hfirst)
    obtain ⟨hlength', w, hw, heq'⟩ :=
      series_spells ha hnil hcons mid rest (by omega) hothers
    refine ⟨by omega, _, hcons v w hv hw, ?_⟩
    rw [← kinds_skip cs, heq, heq', List.append_assoc]
termination_by cs => cs.length

/-- A part that is matched after layout, among the parts of a rule. -/
theorem Sound.after {e : Peg} {form : List Kind → Prop} {n : Nat} (h : Sound whole e form n)
    {cs rest : List Char} (hlength : cs.length ≤ n)
    (hmatch : Matches whole e (splitLayout cs).2 (some rest)) : Spells form cs rest := by
  have hskip := splitLayout_length cs
  obtain ⟨hshorter, w, hw, heq⟩ := h _ rest (hskip.trans hlength) (settled_skip cs) hmatch
  exact ⟨by omega, w, hw, (kinds_skip cs).symm.trans heq⟩

theorem Reads.after {e : Peg} {accept : Kind → Bool} (h : Reads whole e accept)
    {cs rest : List Char} (hmatch : Matches whole e (splitLayout cs).2 (some rest)) :
    rest.length < cs.length ∧ ∃ k, accept k = true ∧ kinds cs = k :: kinds rest := by
  have hskip := splitLayout_length cs
  obtain ⟨hshorter, k, hk, heq⟩ := h.spells (settled_skip cs) hmatch
  exact ⟨by omega, k, hk, (kinds_skip cs).symm.trans heq⟩

theorem grouped_sound {n : Nat} (ih : ∀ m < n, Sound whole (.rule .expression) IsExpression m) :
    Sound whole (.rule .grouped) IsOperand n := by
  intro cs rest hlength hcs h
  obtain ⟨mid, hopening, h⟩ := matches_andThen_some.1 (matches_rule.1 h)
  obtain ⟨mid', hinner, hclosing⟩ := matches_andThen_some.1 h
  obtain ⟨hshorter, k, hk, heq⟩ := reads_lparen.spells hcs hopening
  obtain ⟨hshorter', w, hw, heq'⟩ := (ih mid.length (by omega)).after le_rfl hinner
  obtain ⟨hshorter'', k', hk', heq''⟩ := reads_rparen.after hclosing
  obtain rfl := of_decide_eq_true hk
  obtain rfl := of_decide_eq_true hk'
  refine ⟨by omega, _, .group hw, ?_⟩
  rw [heq, heq', heq'']
  simp

theorem boolean_sound (n : Nat) : Sound whole (.rule .boolean) IsOperand n := by
  intro cs rest _ hcs h
  obtain ⟨hshorter, k, hk, heq⟩ := reads_boolean.spells hcs h
  cases k <;> first | exact ⟨hshorter, _, .boolean _, heq⟩ | exact nomatch hk

theorem number_sound (n : Nat) : Sound whole (.rule .number) IsOperand n := by
  intro cs rest _ hcs h
  obtain ⟨hshorter, k, hk, heq⟩ := reads_number.spells hcs h
  cases k <;> first | exact ⟨hshorter, _, .number _, heq⟩ | exact nomatch hk

theorem ident_spells {cs rest : List Char} (hcs : Settled cs)
    (h : Matches whole (.rule .ident) cs (some rest)) :
    rest.length < cs.length ∧ ∃ name, kinds cs = .name name :: kinds rest := by
  obtain ⟨hshorter, k, hk, heq⟩ := reads_ident.spells hcs h
  cases k <;> first | exact ⟨hshorter, _, heq⟩ | exact nomatch hk

theorem keyword_spells {r : Rule} {w : Keyword} (hr : Reads whole (.rule r) (isKeyword w))
    {cs rest : List Char} (hcs : Settled cs) (h : Matches whole (.rule r) cs (some rest)) :
    rest.length < cs.length ∧ kinds cs = .keyword w :: kinds rest := by
  obtain ⟨hshorter, k, hk, heq⟩ := hr.spells hcs h
  unfold isKeyword at hk
  split at hk
  · rw [← of_decide_eq_true hk]
    exact ⟨hshorter, heq⟩
  · exact nomatch hk

theorem variableRef_sound (n : Nat) : Sound whole (.rule .variableRef) IsOperand n := by
  intro cs rest _ hcs h
  obtain ⟨hshorter, name, heq⟩ := ident_spells hcs (matches_rule.1 h)
  exact ⟨hshorter, _, .variable name, heq⟩

theorem sourceRef_sound (n : Nat) : Sound whole (.rule .sourceRef) IsOperand n := by
  intro cs rest _ hcs h
  obtain ⟨mid, hthis, h⟩ := matches_andThen_some.1 (matches_rule.1 h)
  obtain ⟨mid', hdot, hname⟩ := matches_andThen_some.1 h
  obtain ⟨hshorter, heq⟩ := keyword_spells reads_kwThis hcs hthis
  obtain ⟨hshorter', k, hk, heq'⟩ := reads_dot.after hdot
  obtain rfl := of_decide_eq_true hk
  obtain ⟨hshorter'', name, heq''⟩ := ident_spells (settled_skip mid') hname
  have hskip := splitLayout_length mid'
  rw [kinds_skip] at heq''
  refine ⟨by omega, _, .source name, ?_⟩
  rw [heq, heq', heq'']
  rfl

/-- One of two is sound if both are. -/
theorem Sound.choice {a b : Peg} {form : List Kind → Prop} {n : Nat} (ha : Sound whole a form n)
    (hb : Sound whole b form n) : Sound whole (.choice a b) form n := by
  intro cs rest hlength hcs h
  obtain h | ⟨-, h⟩ := matches_choice_some.1 h
  · exact ha cs rest hlength hcs h
  · exact hb cs rest hlength hcs h

theorem Sound.rule {r : Rule} {form : List Kind → Prop} {n : Nat}
    (h : Sound whole (body r) form n) : Sound whole (.rule r) form n :=
  fun cs rest hlength hcs hmatch => h cs rest hlength hcs (matches_rule.1 hmatch)

theorem operand_sound {n : Nat} (ih : ∀ m < n, Sound whole (.rule .expression) IsExpression m) :
    Sound whole (.rule .operand) IsOperand n :=
  .rule (.choice (grouped_sound ih) (.choice (boolean_sound n) (.choice (sourceRef_sound n)
    (.choice (number_sound n) (variableRef_sound n)))))

theorem arithmetic_sound {n : Nat} (ih : ∀ m < n, Sound whole (.rule .expression) IsExpression m) :
    Sound whole (.rule .arithmetic) IsArith n := by
  intro cs rest hlength hcs h
  obtain ⟨mid, hhead, htail⟩ := matches_andThen_some.1 (matches_rule.1 h)
  obtain ⟨hshorter, v, hv, heq⟩ := operand_sound ih cs mid hlength hcs hhead
  have hlink : Sound whole (andThen (.rule .arithmeticOp) (.rule .operand))
      (fun w => ∃ op v, IsOperand v ∧ w = .operator (.arithmetic op) :: v) n := by
    intro cs rest hlength hcs h
    obtain ⟨mid, hop, hoperand⟩ := matches_andThen_some.1 h
    obtain ⟨hshorter, k, hk, heq⟩ := reads_arithmeticOp.spells hcs hop
    obtain ⟨hshorter', v, hv, heq'⟩ := (operand_sound ih).after (by omega) hoperand
    unfold isArithmetic at hk
    split at hk
    · next op =>
      refine ⟨by omega, _, ⟨op, v, hv, rfl⟩, ?_⟩
      rw [heq, heq']
      rfl
    · exact nomatch hk
  have hskip := splitLayout_length mid
  have hcons : ∀ u w, (∃ op v, IsOperand v ∧ u = .operator (.arithmetic op) :: v) → IsLinks w →
      IsLinks (u ++ w) := by
    rintro _ w ⟨op, v, hv, rfl⟩ hw
    exact .cons op hv hw
  obtain ⟨hle, w, hw, heq'⟩ := series_spells hlink .nil hcons _ rest (by omega)
    ((matches_series_some (settled_skip mid)).1 htail)
  refine ⟨by omega, _, .mk hv hw, ?_⟩
  rw [heq, ← kinds_skip mid, heq', List.append_assoc]

theorem comparison_spells {cs rest : List Char} (hcs : Settled cs)
    (h : Matches whole (.rule .comparisonOp) cs (some rest)) :
    rest.length < cs.length ∧ ∃ op, kinds cs = .operator (.comparison op) :: kinds rest := by
  obtain ⟨hshorter, k, hk, heq⟩ := reads_comparisonOp.spells hcs h
  unfold isComparison at hk
  split at hk
  · exact ⟨hshorter, _, heq⟩
  · exact nomatch hk

theorem binary_sound {n : Nat} (ih : ∀ m < n, Sound whole (.rule .expression) IsExpression m) :
    Sound whole (.rule .binary) IsExpression n := by
  intro cs rest hlength hcs h
  obtain ⟨mid, hleft, h⟩ := matches_andThen_some.1 (matches_rule.1 h)
  obtain ⟨hshorter, v, hv, heq⟩ := arithmetic_sound ih cs mid hlength hcs hleft
  obtain h | ⟨-, rfl⟩ := matches_optional_some.1 h
  · obtain ⟨mid', hop, hright⟩ := matches_andThen_some.1 h
    have hskip := splitLayout_length mid
    obtain ⟨hshorter', op, heq'⟩ := comparison_spells (settled_skip mid) hop
    obtain ⟨hshorter'', w, hw, heq''⟩ := (arithmetic_sound ih).after (by omega) hright
    rw [kinds_skip] at heq'
    refine ⟨by omega, _, .compare op hv hw, ?_⟩
    rw [heq, heq', heq'', List.append_assoc]
    rfl
  · have hskip := splitLayout_length mid
    refine ⟨by omega, _, .arith hv, ?_⟩
    rw [heq, kinds_skip]

/-- A clause is the reserved word with two expressions. -/
def IsClause (w : List Kind) : Prop :=
  ∃ u v, IsExpression u ∧ IsExpression v ∧ w = .keyword .when :: (u ++ v)

theorem whenClause_sound {n : Nat}
    (ih : ∀ m < n, Sound whole (.rule .expression) IsExpression m) :
    Sound whole (.rule .whenClause) IsClause n := by
  intro cs rest hlength hcs h
  obtain ⟨mid, hword, h⟩ := matches_andThen_some.1 (matches_rule.1 h)
  obtain ⟨mid', hpredicate, hconsequent⟩ := matches_andThen_some.1 h
  obtain ⟨hshorter, heq⟩ := keyword_spells reads_kwWhen hcs hword
  obtain ⟨hshorter', u, hu, heq'⟩ := (ih mid.length (by omega)).after le_rfl hpredicate
  obtain ⟨hshorter'', v, hv, heq''⟩ := (ih mid'.length (by omega)).after le_rfl hconsequent
  refine ⟨by omega, _, ⟨u, v, hu, hv, rfl⟩, ?_⟩
  rw [heq, heq', heq'', List.cons_append, List.append_assoc]

theorem otherwiseClause_sound {n : Nat}
    (ih : ∀ m < n, Sound whole (.rule .expression) IsExpression m) :
    Sound whole (.rule .otherwiseClause)
      (fun w => ∃ v, IsExpression v ∧ w = .keyword .otherwise :: v) n := by
  intro cs rest hlength hcs h
  obtain ⟨mid, hword, hexpression⟩ := matches_andThen_some.1 (matches_rule.1 h)
  obtain ⟨hshorter, heq⟩ := keyword_spells reads_kwOtherwise hcs hword
  obtain ⟨hshorter', v, hv, heq'⟩ := (ih mid.length (by omega)).after le_rfl hexpression
  refine ⟨by omega, _, ⟨v, hv, rfl⟩, ?_⟩
  rw [heq, heq', List.cons_append]

/-- Clauses go on with one more before them. -/
theorem IsClause.append {v w : List Kind} (hv : IsClause v) (hw : w = [] ∨ IsClauses w) :
    IsClauses (v ++ w) := by
  obtain ⟨p, c, hp, hc, rfl⟩ := hv
  obtain rfl | hw := hw
  · rw [List.append_nil]
    exact .single hp hc
  · exact .cons hp hc hw

theorem whenExpr_sound {n : Nat}
    (ih : ∀ m < n, Sound whole (.rule .expression) IsExpression m) :
    Sound whole (.rule .whenExpr) IsExpression n := by
  intro cs rest hlength hcs h
  obtain ⟨mid', hclauses, hotherwise⟩ := matches_andThen_some.1 (matches_rule.1 h)
  obtain ⟨mid, hfirst, hothers⟩ := matches_andThen_some.1 hclauses
  obtain ⟨hshorter, u, hu, heq⟩ := whenClause_sound ih cs mid hlength hcs hfirst
  have hskip := splitLayout_length mid
  have hcons : ∀ v w, IsClause v → (w = [] ∨ IsClauses w) → (v ++ w = [] ∨ IsClauses (v ++ w)) :=
    fun _ _ hv hw => .inr (hv.append hw)
  obtain ⟨hle, v, hv, heq'⟩ := series_spells (whenClause_sound ih) (.inl rfl) hcons _ mid'
    (by omega) ((matches_series_some (settled_skip mid)).1 hothers)
  obtain ⟨hshorter', _, ⟨w, hw, rfl⟩, heq''⟩ :=
    (otherwiseClause_sound ih).after (by omega) hotherwise
  refine ⟨by omega, _, .choose (hu.append hv) hw, ?_⟩
  rw [heq, ← kinds_skip mid, heq', heq'']
  simp only [List.append_assoc]

/-- What the rule for expressions matches spells an expression. -/
theorem expression_sound (n : Nat) : Sound whole (.rule .expression) IsExpression n := by
  -- Each rule below reads a lexeme before it comes back here, so that the text has become shorter.
  induction n using Nat.strong_induction_on with
  | _ n ih => exact .rule (.choice (whenExpr_sound ih) (binary_sound ih))

/-! ### Statements and programs -/

theorem variableAssignment_sound (n : Nat) :
    Sound whole (.rule .variableAssignment) IsStatement n := by
  intro cs rest hlength hcs h
  obtain ⟨mid, hname, h⟩ := matches_andThen_some.1 (matches_rule.1 h)
  obtain ⟨mid', hassign, h⟩ := matches_andThen_some.1 h
  obtain ⟨mid'', hnot, hexpression⟩ := matches_andThen_some.1 h
  obtain ⟨hfails, rfl⟩ := matches_not_some.1 hnot
  obtain ⟨hshorter, name, heq⟩ := ident_spells hcs hname
  have hskip := splitLayout_length mid
  have hequals : (splitLayout mid).2 = '=' :: mid' :=
    strip_eq_some.1 ((Matches.text "=" _).unique hassign)
  -- A second equals sign right after the first would have been excluded.
  have hhead : mid'.head? ≠ some '=' := by
    intro hhead
    obtain ⟨tail, rfl⟩ := List.head?_eq_some_iff.1 hhead
    exact nomatch (Matches.text "=" ('=' :: tail)).unique hfails
  have heq' : kinds mid = .assign :: kinds mid' := by
    rw [kinds_eq, hequals, next?_assign hhead]
  have hlength' := congrArg List.length hequals
  rw [List.length_cons] at hlength'
  rw [splitLayout_idem] at hexpression
  obtain ⟨hshorter', w, hw, heq''⟩ := (expression_sound mid'.length).after le_rfl hexpression
  refine ⟨by omega, _, .variable name hw, ?_⟩
  rw [heq, heq', heq'', List.cons_append, List.cons_append]

theorem sinkAssignment_sound (n : Nat) : Sound whole (.rule .sinkAssignment) IsStatement n := by
  intro cs rest hlength hcs h
  obtain ⟨mid, hname, h⟩ := matches_andThen_some.1 (matches_rule.1 h)
  obtain ⟨mid', hcolon, hexpression⟩ := matches_andThen_some.1 h
  obtain ⟨hshorter, name, heq⟩ := ident_spells hcs hname
  obtain ⟨hshorter', k, hk, heq'⟩ := reads_colon.after hcolon
  obtain rfl := of_decide_eq_true hk
  obtain ⟨hshorter'', w, hw, heq''⟩ := (expression_sound mid'.length).after le_rfl hexpression
  refine ⟨by omega, _, .sink name hw, ?_⟩
  rw [heq, heq', heq'', List.cons_append, List.cons_append]

theorem statement_sound (n : Nat) : Sound whole (.rule .statement) IsStatement n :=
  .rule (.choice (variableAssignment_sound n) (sinkAssignment_sound n))

/-- A text that the grammar matches spells a program. -/
theorem isProgram_of_matches {source : List Char}
    (h : Matches source (.rule .program) source (some [])) : IsProgram (kinds source) := by
  obtain ⟨mid, hstart, h⟩ := matches_andThen_some.1 (matches_rule.1 h)
  obtain ⟨mid', hstatements, hfinish⟩ := matches_andThen_some.1 h
  cases hstart
  obtain ⟨-, w, hw, heq⟩ := series_spells (statement_sound _) IsProgram.nil
    (fun _ _ => IsProgram.cons) _ mid' le_rfl
    ((matches_series_some (settled_skip source)).1 hstatements)
  have hempty : (splitLayout mid').2 = [] := by
    generalize (splitLayout mid').2 = end? at hfinish
    cases matches_rule.1 hfinish
    rfl
  have hnil : kinds mid' = [] := by
    rw [kinds_eq, hempty]
    rfl
  rw [← kinds_skip, heq, hnil, List.append_nil]
  exact hw

end RangeRules.Peg
