import RangeRules.Proofs.Grammar.Failures
import RangeRules.Proofs.Phrase.Completeness
import RangeRules.Proofs.Token.Cut

/-!
# Trials on tokens follow the grammar

The reader tries rules on tokens, the grammar on characters. `Left` says that some characters of a
text are left with the given tokens, and a trial follows an expression there if it yields what the
expression leaves, fails where it does, and keeps as its furthest attempt the furthest of those
before it and of all failures of rules on the way. This module has the trials of single tokens and
of the operators.
-/
namespace RangeRules.Phrase.Read

open Text (Span byteCount)
open Token (Kind Settled splitLayout settled_skip startOf)
open Peg (Matches FailsAt Tries Reads place step skip body andThen series oneOf)

/-- The characters are left of a text, with the given tokens. -/
def Left (whole cs : List Char) (ts : List Token) : Prop :=
  ∃ front, whole = front ++ cs ∧ Token.tokensFrom (byteCount front) cs = ts

variable {whole cs mid : List Char} {ts : List Token} {a b : Attempts}

theorem Left.skip (h : Left whole cs ts) : Left whole (splitLayout cs).2 ts := by
  obtain ⟨front, rfl, rfl⟩ := h
  refine ⟨front ++ (splitLayout cs).1, ?_, ?_⟩
  · rw [List.append_assoc, Token.splitLayout_append]
  · by_cases hempty : (splitLayout cs).2 = []
    · rw [Token.tokensFrom_layout hempty, hempty]
      exact Token.tokensFrom_layout rfl _
    · rw [Text.byteCount_append, ← (Token.isGap_splitLayout cs hempty).tokensFrom,
        Token.splitLayout_append]

theorem Left.nil (h : Left whole cs []) (hcs : Settled cs) : cs = [] := by
  obtain ⟨front, -, hts⟩ := h
  cases cs with
  | nil => rfl
  | cons c cs =>
    rw [Token.tokensFrom_lexeme (congrArg Prod.snd hcs)] at hts
    exact nomatch hts

/-- The next lexeme is the first token. -/
theorem Left.cons {t : Token} (h : Left whole cs (t :: ts)) (hcs : Settled cs) :
    ∃ mid, Token.next? cs = some (t.kind, mid) ∧ Left whole mid ts := by
  obtain ⟨front, rfl, hts⟩ := h
  cases cs with
  | nil =>
    rw [Token.tokensFrom_layout rfl] at hts
    exact nomatch hts
  | cons c cs =>
    rw [Token.tokensFrom_lexeme (congrArg Prod.snd hcs)] at hts
    obtain ⟨rfl, hrest⟩ := List.cons.inj hts
    refine ⟨_, rfl, front ++ Token.lexemeAt c cs, ?_, ?_⟩
    · rw [List.append_assoc, Token.lexemeAt_append_drop]
    · rw [← hrest, hcs, Text.byteCount_append]
      rfl

/-- Where no layout comes first, the place is that of the first token. -/
theorem Left.place (h : Left whole cs ts) (hcs : Settled cs) :
    Peg.place whole cs = startOf (byteCount whole) ts := by
  cases ts with
  | nil =>
    rw [h.nil hcs]
    rfl
  | cons t ts =>
    obtain ⟨front, rfl, hts⟩ := h
    obtain ⟨c, rest, -, rfl, -⟩ := Token.exists_lexeme hts
    unfold Peg.place
    rw [hcs, Text.byteCount_append, Nat.add_sub_cancel]
    rfl

/-- An expression that reads one lexeme reads the first token, or fails where it does not accept
that. -/
theorem Left.reads {p : Peg} {accept : Kind → Bool} (h : Left whole cs ts) (hcs : Settled cs)
    (hreads : Reads whole p accept) :
    (∃ t rest mid, ts = t :: rest ∧ accept t.kind = true ∧ Matches whole p cs (some mid) ∧
      Left whole mid rest) ∨
    (∀ t rest, ts = t :: rest → accept t.kind = false) ∧ Matches whole p cs none := by
  have hstep := hreads cs hcs
  unfold step at hstep
  cases ts with
  | nil =>
    rw [h.nil hcs] at hstep ⊢
    exact .inr ⟨nofun, hstep⟩
  | cons t ts =>
    obtain ⟨mid, hnext, hleft⟩ := h.cons hcs
    rw [hnext] at hstep
    dsimp only at hstep
    by_cases hk : accept t.kind = true
    · rw [if_pos hk] at hstep
      exact .inl ⟨t, ts, mid, rfl, hk, hstep, hleft⟩
    · rw [if_neg hk] at hstep
      refine .inr ⟨?_, hstep⟩
      rintro _ _ ⟨⟩
      exact Bool.eq_false_iff.2 hk

/-- An expression that reads one lexeme fails in front of all others. -/
theorem Left.reads_none_iff {p : Peg} {kind : Kind} (h : Left whole cs ts) (hcs : Settled cs)
    (hreads : Reads whole p fun k => decide (k = kind)) :
    Matches whole p cs none ↔ ∀ s rest, ts ≠ ⟨kind, s⟩ :: rest := by
  rcases h.reads hcs hreads with ⟨t, rest, mid, rfl, hk, hmatches, -⟩ | ⟨hother, hnone⟩
  · exact ⟨fun hnone => absurd (hnone.unique hmatches) nofun,
      fun hne => absurd (by rw [← of_decide_eq_true hk]) (hne t.span rest)⟩
  · exact ⟨fun _ _ _ hts => of_decide_eq_false (hother _ _ hts) rfl, fun _ => hnone⟩

/-- A trial does on the tokens what the grammar does on the characters. -/
def Follows {α : Type} {n : Nat} (whole : List Char) (p : Peg) (cs : List Char) (a : Attempts)
    (trial : Trial α n) : Prop :=
  ∃ x, Tries whole p cs a x trial.attempts ∧
    Option.Rel (fun r rest => Left whole rest r.rest) trial.found x

section Follows

variable {α : Type} {n : Nat} {p q : Peg}

theorem Follows.none (h : Tries whole p cs a .none b) :
    Follows whole p cs a (⟨b, .none⟩ : Trial α n) := ⟨_, h, .none⟩

theorem Follows.some {r : Found α n} (h : Tries whole p cs a (.some mid) b)
    (hleft : Left whole mid r.rest) : Follows whole p cs a ⟨b, .some r⟩ := ⟨_, h, .some hleft⟩

theorem Follows.of_none {trial : Trial α n} (h : Follows whole p cs a trial)
    (heq : trial = ⟨b, .none⟩) : Tries whole p cs a .none b := by
  subst heq
  obtain ⟨x, htries, hrel⟩ := h
  cases hrel
  exact htries

theorem Follows.of_some {trial : Trial α n} {r : Found α n} (h : Follows whole p cs a trial)
    (heq : trial = ⟨b, .some r⟩) :
    ∃ mid, Tries whole p cs a (.some mid) b ∧ Left whole mid r.rest := by
  subst heq
  obtain ⟨x, htries, hrel⟩ := h
  cases hrel with
  | some hleft => exact ⟨_, htries, hleft⟩

theorem Follows.map {β : Type} {trial : Trial α n} (h : Follows whole p cs a trial) (f : α → β) :
    Follows whole p cs a (⟨trial.attempts, trial.found.map (·.map f)⟩ : Trial β n) := by
  obtain ⟨b, found⟩ := trial
  cases found with
  | none => exact .none (h.of_none rfl)
  | some r =>
    obtain ⟨mid, htries, hleft⟩ := h.of_some rfl
    exact .some htries hleft

theorem Follows.silent {r : Rule} (hsilent : r.isSilent = true) (hatomic : r.isAtomic = false)
    {trial : Trial α n} (h : Follows whole (body r) cs a trial) :
    Follows whole (.rule r) cs a trial := by
  obtain ⟨x, htries, hrel⟩ := h
  exact ⟨x, htries.silent hsilent hatomic, hrel⟩

/-- A later alternative, after the first has failed. -/
theorem Follows.choiceRight {trial : Trial α n} (hp : Tries whole p cs a .none b)
    (h : Follows whole q cs b trial) : Follows whole (.choice p q) cs a trial := by
  obtain ⟨x, htries, hrel⟩ := h
  exact ⟨x, hp.choiceRight htries, hrel⟩

theorem attempt_follows {r : Rule} (hsilent : r.isSilent = false) (hatomic : r.isAtomic = false)
    {read : Attempts → Trial α n} {offset : Nat} (hoffset : place whole cs = offset)
    (h : Follows whole (body r) cs a (read a)) :
    Follows whole (.rule r) cs a (attempt r offset read a) := by
  unfold attempt
  dsimp only
  subst hoffset
  generalize read a = trial at *
  obtain ⟨b, found⟩ := trial
  cases found with
  | none => exact .none ((h.of_none rfl).failed hsilent hatomic a)
  | some r =>
    obtain ⟨mid, htries, hleft⟩ := h.of_some rfl
    exact .some (htries.matched hatomic) hleft

end Follows

/-! ### Tokens -/

section Tokens

variable (h : Left whole cs ts) (hcs : Settled cs)
include h hcs

/-- A word or number that the grammar reads as one lexeme. -/
theorem one_follows {α : Type} {r : Rule} (hsilent : r.isSilent = false)
    (hatomic : r.isAtomic = true) {ok : Kind → Bool} (hreads : Reads whole (.rule r) ok)
    {accept : Kind → Option α} (haccept : ∀ k, ok k = (accept k).isSome) (a : Attempts) :
    Follows whole (.rule r) cs a (one (byteCount whole) r accept ts a) := by
  rcases h.reads hcs hreads with ⟨t, rest, mid, rfl, hk, hmatches, hleft⟩ | ⟨hother, hnone⟩
  · rw [haccept] at hk
    obtain ⟨v, hv⟩ := Option.isSome_iff_exists.1 hk
    unfold one
    simp only [hv]
    exact .some (.atomicMatched hatomic hmatches a) hleft
  · rw [one_refused, ← h.place hcs]
    · exact .none (.atomicFailed hsilent hatomic hnone a)
    · intro k s rest hts
      exact Option.isNone_iff_eq_none.1
        (Option.isSome_eq_false_iff.1 ((haccept k).symm.trans (hother _ _ hts)))

theorem skip?_follows {s : String} {kind : Kind}
    (hreads : Reads whole (.text s) fun k => decide (k = kind)) (a : Attempts) :
    Follows whole (.text s) cs a ⟨a, skip? kind ts⟩ := by
  rcases h.reads hcs hreads with ⟨⟨k, s⟩, rest, mid, rfl, hk, hmatches, hleft⟩ | ⟨hother, hnone⟩
  · obtain rfl : k = kind := of_decide_eq_true hk
    obtain ⟨hshorter, hskip⟩ := skip?_yields k s rest
    rw [hskip]
    exact .some (.quiet hmatches nofun a) hleft
  · rw [skip?_fails fun s rest hts => of_decide_eq_false (hother _ _ hts) rfl]
    exact .none (.quiet hnone nofun a)

theorem name_follows (a : Attempts) :
    Follows whole (.rule .ident) cs a (name (byteCount whole) ts a) := by
  refine one_follows h hcs rfl rfl Peg.reads_ident (fun k => ?_) a
  cases k <;> rfl

end Tokens

theorem keyword_follows {r : Rule} {word : Keyword} (hsilent : r.isSilent = false)
    (hatomic : r.isAtomic = true) (hreads : Reads whole (.rule r) (Peg.isKeyword word))
    (h : Left whole cs ts) (hcs : Settled cs) (a : Attempts) :
    Follows whole (.rule r) cs a (keyword (byteCount whole) r word ts a) := by
  refine one_follows h hcs hsilent hatomic hreads (fun k => ?_) a
  unfold Peg.isKeyword
  split
  · next w =>
    by_cases hw : w = word
    · rw [if_pos (congrArg Kind.keyword hw), decide_eq_true hw]
      rfl
    · rw [if_neg fun hk => hw (Kind.keyword.inj hk), decide_eq_false hw]
      rfl
  · next hk =>
    rw [if_neg fun heq => hk word heq]
    rfl

/-! ### Operators -/

theorem failsAt_operator (op : Operator) {offset : Nat} :
    FailsAt whole (.rule (.ofOperator op)) cs offset ↔
      Matches whole (.rule (.ofOperator op)) cs none ∧ offset = place whole cs := by
  have hrule : (Rule.ofOperator op).isSilent = false ∧ ∃ s, body (.ofOperator op) = .text s := by
    obtain op | op := op <;> cases op <;> exact ⟨rfl, _, rfl⟩
  obtain ⟨hsilent, s, hbody⟩ := hrule
  constructor
  · intro h
    cases h with
    | rule hr fails => exact ⟨fails, rfl⟩
    | part hr h =>
      rw [hbody] at h
      exact nomatch h
  · rintro ⟨hfails, rfl⟩
    exact .rule hsilent hfails

/-- All operators are tried at one place, and one of them fails there if the first does. -/
theorem failsAt_operators (op : Operator) (ops : List Operator) {offset : Nat} :
    FailsAt whole (oneOf (.rule (.ofOperator op)) (ops.map fun op => .rule (.ofOperator op))) cs
      offset ↔ Matches whole (.rule (.ofOperator op)) cs none ∧ offset = place whole cs := by
  induction ops generalizing op with
  | nil => exact failsAt_operator op
  | cons next ops ih =>
    constructor
    · intro h
      cases h with
      | choiceFirst h => exact (failsAt_operator op).1 h
      | choiceSecond first h => exact ⟨first, ((ih next).1 h).2⟩
    · exact fun h => .choiceFirst ((failsAt_operator op).2 h)

/-- The reader notes the place of some operators unless the first of them matches. -/
theorem operator_furthest {ω : Type} (wrap : ω → Operator) (finish : Nat) (op : ω) (ops : List ω)
    (ts : List Token) (a : Attempts) (n : Nat) :
    (operator finish wrap (op :: ops) ts a).attempts.furthest ≤ n ↔ a.furthest ≤ n ∧
      ((∀ s rest, ts ≠ ⟨.operator (wrap op), s⟩ :: rest) → startOf finish ts ≤ n) := by
  by_cases hop : ∃ s rest, ts = ⟨.operator (wrap op), s⟩ :: rest
  · obtain ⟨s, rest, rfl⟩ := hop
    unfold operator one
    simp
  · have hne : ∀ s rest, ts ≠ ⟨.operator (wrap op), s⟩ :: rest := fun s rest hts =>
      hop ⟨s, rest, hts⟩
    have hfirst : ∀ k s rest, ts = ⟨k, s⟩ :: rest →
        (if k = .operator (wrap op) then some op else none) = none := by
      rintro k s rest rfl
      exact if_neg fun hk => hne s rest (by rw [hk])
    rw [operator, one_refused hfirst]
    dsimp only
    have hnoted : (a.failToken (.ofOperator (wrap op)) (startOf finish ts)).furthest ≤ n ↔
        a.furthest ≤ n ∧ startOf finish ts ≤ n := Attempts.fail_le_iff ..
    cases ops with
    | nil =>
      rw [operator, hnoted]
      exact and_congr_right fun _ => ⟨fun h _ => h, fun h => h hne⟩
    | cons next ops =>
      rw [operator_furthest wrap finish next ops, hnoted]
      exact ⟨fun ⟨⟨ha, hstart⟩, _⟩ => ⟨ha, fun _ => hstart⟩,
        fun ⟨ha, hstart⟩ => ⟨⟨ha, hstart hne⟩, fun _ => hstart hne⟩⟩

theorem operator_follows {ω : Type} {wrap : ω → Operator} (hwrap : Function.Injective wrap)
    {r : Rule} (hsilent : r.isSilent = true) (hatomic : r.isAtomic = false) {op : ω} {ops : List ω}
    (hall : ∀ other, other ∈ op :: ops)
    (hbody : body r = oneOf (.rule (.ofOperator (wrap op)))
      ((ops.map wrap).map fun op => .rule (.ofOperator op)))
    {ok : Kind → Bool} (hreads : Reads whole (.rule r) ok)
    (hok : ∀ k, ok k = true ↔ ∃ other, k = .operator (wrap other))
    (hfirst : Reads whole (.rule (.ofOperator (wrap op))) fun k => decide (k = .operator (wrap op)))
    (h : Left whole cs ts) (hcs : Settled cs) (a : Attempts) :
    Follows whole (.rule r) cs a (operator (byteCount whole) wrap (op :: ops) ts a) := by
  have hfails : ∀ offset, FailsAt whole (.rule r) cs offset ↔
      Matches whole (.rule (.ofOperator (wrap op))) cs none ∧ offset = place whole cs := by
    intro offset
    rw [← failsAt_operators (wrap op) (ops.map wrap), ← hbody]
    constructor
    · intro hfails
      cases hfails with
      | rule hr => exact nomatch hsilent.symm.trans hr
      | part hr h => exact h
    · exact .part hatomic
  have hnone : Matches whole (.rule (.ofOperator (wrap op))) cs none ↔
      ∀ s rest, ts ≠ ⟨.operator (wrap op), s⟩ :: rest := h.reads_none_iff hcs hfirst
  have hfurthest : ∀ n, (operator (byteCount whole) wrap (op :: ops) ts a).attempts.furthest ≤ n ↔
      a.furthest ≤ n ∧ ∀ offset, FailsAt whole (.rule r) cs offset → offset ≤ n := by
    intro n
    rw [operator_furthest, ← hnone, ← h.place hcs]
    refine and_congr_right fun _ => ⟨fun hn offset hoffset => ?_, fun hn hfail => ?_⟩
    · obtain ⟨hfail, rfl⟩ := (hfails offset).1 hoffset
      exact hn hfail
    · exact hn _ ((hfails _).2 ⟨hfail, rfl⟩)
  rcases h.reads hcs hreads with ⟨⟨k, s⟩, rest, mid, rfl, hk, hmatches, hleft⟩ | ⟨hother, hnone⟩
  · obtain ⟨other, rfl⟩ := (hok k).1 hk
    have hyield : (operator (byteCount whole) wrap (op :: ops)
        (⟨.operator (wrap other), s⟩ :: rest) a).Yields other rest :=
      operator_yields hwrap (hall other) a
    obtain ⟨b, hshorter, heq⟩ := hyield
    rw [heq] at hfurthest ⊢
    exact .some ⟨hmatches, hfurthest⟩ hleft
  · have hfail : (operator (byteCount whole) wrap (op :: ops) ts a).Fails :=
      operator_fails (fun other s rest hts =>
        Bool.false_ne_true ((hother _ _ hts).symm.trans ((hok _).2 ⟨other, rfl⟩))) a
    obtain ⟨b, heq⟩ := hfail
    rw [heq] at hfurthest ⊢
    exact .none ⟨hnone, hfurthest⟩

/-- A plus sign is a lexeme of its own. -/
theorem reads_add : Reads whole (.rule (.ofOperator (.arithmetic .add)))
    fun k => decide (k = .operator (.arithmetic .add)) := by
  intro cs hcs
  refine .rule (Peg.reads_mark (a := '+') rfl ⟨by decide, by decide⟩ rfl rfl (fun c next => ?_)
    (fun _ => rfl) cs hcs)
  unfold Token.mark
  split <;> (try split) <;> simp_all

/-- Only a smaller-than sign with an equals sign after it makes the lexeme. -/
theorem reads_le : Reads whole (.rule (.ofOperator (.comparison .le)))
    fun k => decide (k = .operator (.comparison .le)) := by
  intro cs _
  have hstep : step (fun k => decide (k = .operator (.comparison .le))) cs =
      Peg.strip ['<', '='] cs := by
    cases cs with
    | nil => rfl
    | cons c cs =>
      by_cases hc : c = '<'
      · subst hc
        rw [Peg.step_mark _ (by decide) (by decide)]
        cases cs with
        | nil => rfl
        | cons d cs =>
          by_cases hd : d = '='
          · subst hd
            rfl
          · simp [Token.mark, Peg.strip, hd, Ne.symm hd]
      · have hkind : decide ((Token.classify c cs).1 = .operator (.comparison .le)) = false := by
          unfold Token.classify
          split
          · exact decide_eq_false fun hk =>
              Bool.false_ne_true ((congrArg Token.isWord hk).symm.trans (Token.isWord_ofWord _))
          · split
            · rfl
            · unfold Token.mark
              split <;> (try split) <;> simp_all
        unfold step Token.next? Peg.strip
        dsimp only
        rw [if_neg (Ne.symm hc), if_neg (Bool.eq_false_iff.1 hkind)]
  rw [hstep]
  exact .rule (.text "<=" cs)

theorem arithmeticOp_follows (h : Left whole cs ts) (hcs : Settled cs) (a : Attempts) :
    Follows whole (.rule .arithmeticOp) cs a
      (operator (byteCount whole) .arithmetic arithmeticOps ts a) := by
  refine operator_follows (fun _ _ => Operator.arithmetic.inj) rfl rfl (fun other => ?_) rfl
    Peg.reads_arithmeticOp (fun k => ?_) reads_add h hcs a
  · cases other <;> decide
  · unfold Peg.isArithmetic
    split
    · next op => exact ⟨fun _ => ⟨op, rfl⟩, fun _ => rfl⟩
    · next hk => exact ⟨nofun, fun ⟨op, hop⟩ => absurd hop (hk op)⟩

theorem comparisonOp_follows (h : Left whole cs ts) (hcs : Settled cs) (a : Attempts) :
    Follows whole (.rule .comparisonOp) cs a
      (operator (byteCount whole) .comparison comparisonOps ts a) := by
  refine operator_follows (fun _ _ => Operator.comparison.inj) rfl rfl (fun other => ?_) rfl
    Peg.reads_comparisonOp (fun k => ?_) reads_le h hcs a
  · cases other <;> decide
  · unfold Peg.isComparison
    split
    · next op => exact ⟨fun _ => ⟨op, rfl⟩, fun _ => rfl⟩
    · next hk => exact ⟨nofun, fun ⟨op, hop⟩ => absurd hop (hk op)⟩

end RangeRules.Phrase.Read
