import Mathlib
import RangeRules.Grammar.Attempts
import RangeRules.Proofs.Grammar.Soundness
import RangeRules.Proofs.Token.Seam

/-!
# Where rules fail

While a rule is tried on a text, other rules are tried for its parts, and many of them fail without
it: an alternative before the one that matches, or one more part of a repetition. `FailsAt` collects
the places of these failures, also of those in attempts that are given up. Rules that only stand for
others are left out, and so are the parts of single words and numbers and what must not follow.

`Tries` relates a match to the attempts kept before and after it, as far as the furthest of them
goes. There is one lemma for each operator of the grammar.
-/
namespace RangeRules

open Text (byteCount)

/-- Rules that stand for their parts: only these are tried. -/
def Rule.isSilent : Rule → Bool
  | .whitespace | .comment | .statement | .expression | .arithmetic | .arithmeticOp | .comparisonOp
  | .operand | .identChar => true
  | _ => false

/-- Rules for single words, for numbers and for layout, which are tried as a whole. -/
def Rule.isAtomic : Rule → Bool
  | .whitespace | .comment | .boolean | .number | .ident | .keyword | .kwWhen | .kwOtherwise
  | .kwThis => true
  | _ => false

theorem Attempts.fail_le_iff (now before : Attempts) (rule : Rule) (offset n : Nat) :
    (now.fail rule offset before).furthest ≤ n ↔ now.furthest ≤ n ∧ offset ≤ n := by
  unfold fail
  split
  · next hcount =>
    have hoffset : now.furthest = offset := by
      unfold countAt at hcount
      split at hcount
      · assumption
      · omega
    omega
  · split
    · omega
    · dsimp only
      omega

namespace Peg

open Token Grammar

/-- The offset of the place before the given characters of a text. -/
def place (whole cs : List Char) : Nat := byteCount whole - byteCount cs

/-- While the expression is tried, a rule fails that begins at the offset. -/
inductive FailsAt (whole : List Char) : Peg → List Char → Nat → Prop where
  | rule {r : Rule} {cs : List Char} (hr : r.isSilent = false)
    (fails : Matches whole (.rule r) cs none) : FailsAt whole (.rule r) cs (place whole cs)
  | part {r : Rule} {cs : List Char} {offset : Nat} (hr : r.isAtomic = false)
    (h : FailsAt whole (body r) cs offset) : FailsAt whole (.rule r) cs offset
  | seqFirst {a b : Peg} {cs : List Char} {offset : Nat} (h : FailsAt whole a cs offset) :
    FailsAt whole (.seq a b) cs offset
  | seqSecond {a b : Peg} {cs mid : List Char} {offset : Nat}
    (first : Matches whole a cs (some mid)) (h : FailsAt whole b mid offset) :
    FailsAt whole (.seq a b) cs offset
  | choiceFirst {a b : Peg} {cs : List Char} {offset : Nat} (h : FailsAt whole a cs offset) :
    FailsAt whole (.choice a b) cs offset
  | choiceSecond {a b : Peg} {cs : List Char} {offset : Nat} (first : Matches whole a cs none)
    (h : FailsAt whole b cs offset) : FailsAt whole (.choice a b) cs offset
  | optional {a : Peg} {cs : List Char} {offset : Nat} (h : FailsAt whole a cs offset) :
    FailsAt whole (.optional a) cs offset
  | manyFirst {a : Peg} {cs : List Char} {offset : Nat} (h : FailsAt whole a cs offset) :
    FailsAt whole (.many a) cs offset
  | manyLater {a : Peg} {cs mid : List Char} {offset : Nat}
    (first : Matches whole a cs (some mid)) (h : FailsAt whole (.many a) mid offset) :
    FailsAt whole (.many a) cs offset

/-- The expression matches, or fails, and the attempts kept after it got as far as those before it
and all failures on the way. -/
structure Tries (whole : List Char) (e : Peg) (cs : List Char) (a : Attempts)
    (x : Option (List Char)) (b : Attempts) : Prop where
  fares : Matches whole e cs x
  furthest : ∀ n, b.furthest ≤ n ↔
    a.furthest ≤ n ∧ ∀ offset, FailsAt whole e cs offset → offset ≤ n

variable {whole : List Char} {p q : Peg} {cs mid : List Char} {x : Option (List Char)}
  {a b c : Attempts}

namespace Tries

/-- Where no failures come from, the attempts stay. -/
theorem quiet (h : Matches whole p cs x) (hquiet : ∀ offset, ¬ FailsAt whole p cs offset)
    (a : Attempts) : Tries whole p cs a x a :=
  ⟨h, fun _ => ⟨fun ha => ⟨ha, fun offset hfails => absurd hfails (hquiet offset)⟩, And.left⟩⟩

/-- An expression whose failures are those of a part of it. -/
theorem of_iff {y : Option (List Char)} (h : Tries whole p mid a x b) (hy : Matches whole q cs y)
    (hiff : ∀ offset, FailsAt whole q cs offset ↔ FailsAt whole p mid offset) :
    Tries whole q cs a y b := by
  refine ⟨hy, fun n => (h.furthest n).trans (and_congr_right fun _ => ?_)⟩
  exact forall_congr' fun offset => by rw [hiff offset]

/-- An expression whose failures are those of two parts, tried one after the other. -/
theorem of_iff_or {e : Peg} {cs' : List Char} {y z : Option (List Char)} (h : Tries whole p cs a x b)
    (h' : Tries whole q mid b y c) (hz : Matches whole e cs' z)
    (hiff : ∀ offset, FailsAt whole e cs' offset ↔
      FailsAt whole p cs offset ∨ FailsAt whole q mid offset) :
    Tries whole e cs' a z c := by
  refine ⟨hz, fun n => ?_⟩
  rw [h'.furthest, h.furthest, and_assoc, ← forall_and]
  refine and_congr_right fun _ => forall_congr' fun offset => ?_
  rw [hiff, or_imp]

theorem text (s : String) (cs : List Char) (a : Attempts) :
    Tries whole (.text s) cs a (strip s.toList cs) a :=
  quiet (.text s cs) nofun a

theorem start (a : Attempts) : Tries whole .start whole a (some whole) a := quiet .start nofun a

theorem not (h : Matches whole (.not p) cs x) (a : Attempts) : Tries whole (.not p) cs a x a :=
  quiet h nofun a

theorem seq (hp : Tries whole p cs a (some mid) b) (hq : Tries whole q mid b x c) :
    Tries whole (.seq p q) cs a x c := by
  refine hp.of_iff_or hq (.seq hp.fares hq.fares) fun offset => ⟨fun h => ?_, ?_⟩
  · cases h with
    | seqFirst h => exact .inl h
    | seqSecond first h =>
      obtain rfl := Option.some.inj (first.unique hp.fares)
      exact .inr h
  · rintro (h | h)
    · exact .seqFirst h
    · exact .seqSecond hp.fares h

theorem seqFails (hp : Tries whole p cs a none b) : Tries whole (.seq p q) cs a none b := by
  refine hp.of_iff (.seqFails hp.fares) fun offset => ⟨fun h => ?_, .seqFirst⟩
  cases h with
  | seqFirst h => exact h
  | seqSecond first h => exact nomatch first.unique hp.fares

theorem choiceLeft {rest : List Char} (hp : Tries whole p cs a (some rest) b) :
    Tries whole (.choice p q) cs a (some rest) b := by
  refine hp.of_iff (.choiceLeft hp.fares) fun offset => ⟨fun h => ?_, .choiceFirst⟩
  cases h with
  | choiceFirst h => exact h
  | choiceSecond first h => exact nomatch first.unique hp.fares

theorem choiceRight (hp : Tries whole p cs a none b) (hq : Tries whole q cs b x c) :
    Tries whole (.choice p q) cs a x c := by
  refine hp.of_iff_or hq (.choiceRight hp.fares hq.fares) fun offset => ⟨fun h => ?_, ?_⟩
  · cases h with
    | choiceFirst h => exact .inl h
    | choiceSecond first h => exact .inr h
  · rintro (h | h)
    · exact .choiceFirst h
    · exact .choiceSecond hp.fares h

theorem failsAt_optional {offset : Nat} :
    FailsAt whole (.optional p) cs offset ↔ FailsAt whole p cs offset :=
  ⟨fun | .optional h => h, .optional⟩

theorem present {rest : List Char} (hp : Tries whole p cs a (some rest) b) :
    Tries whole (.optional p) cs a (some rest) b :=
  hp.of_iff (.present hp.fares) fun _ => failsAt_optional

theorem absent (hp : Tries whole p cs a none b) : Tries whole (.optional p) cs a (some cs) b :=
  hp.of_iff (.absent hp.fares) fun _ => failsAt_optional

theorem stop (hp : Tries whole p cs a none b) : Tries whole (.many p) cs a (some cs) b := by
  refine hp.of_iff (.stop hp.fares) fun offset => ⟨fun h => ?_, .manyFirst⟩
  cases h with
  | manyFirst h => exact h
  | manyLater first h => exact nomatch first.unique hp.fares

theorem more (hp : Tries whole p cs a (some mid) b) (hothers : Tries whole (.many p) mid b x c) :
    Tries whole (.many p) cs a x c := by
  refine hp.of_iff_or hothers (.more hp.fares hothers.fares) fun offset => ⟨fun h => ?_, ?_⟩
  · cases h with
    | manyFirst h => exact .inl h
    | manyLater first h =>
      obtain rfl := Option.some.inj (first.unique hp.fares)
      exact .inr h
  · rintro (h | h)
    · exact .manyFirst h
    · exact .manyLater hp.fares h

/-! ### Rules -/

section Rules

variable {r : Rule}

/-- A rule that stands for its parts. -/
theorem silent (hsilent : r.isSilent = true) (hatomic : r.isAtomic = false)
    (h : Tries whole (body r) cs a x b) : Tries whole (.rule r) cs a x b := by
  refine h.of_iff (.rule h.fares) fun offset => ⟨fun hfails => ?_, .part hatomic⟩
  cases hfails with
  | rule hr => exact nomatch hsilent.symm.trans hr
  | part hr h => exact h

/-- A rule that matches leaves the failures of its parts. -/
theorem matched {rest : List Char} (hatomic : r.isAtomic = false)
    (h : Tries whole (body r) cs a (some rest) b) : Tries whole (.rule r) cs a (some rest) b := by
  refine h.of_iff (.rule h.fares) fun offset => ⟨fun hfails => ?_, .part hatomic⟩
  cases hfails with
  | rule hr fails => exact nomatch fails.unique (.rule h.fares)
  | part hr h => exact h

/-- A rule that fails is one more failure, where it began. -/
theorem failed (hsilent : r.isSilent = false) (hatomic : r.isAtomic = false)
    (h : Tries whole (body r) cs a none b) (before : Attempts) :
    Tries whole (.rule r) cs a none (b.fail r (place whole cs) before) := by
  refine ⟨.rule h.fares, fun n => ?_⟩
  rw [Attempts.fail_le_iff, h.furthest, and_assoc]
  refine and_congr_right fun _ => ⟨?_, fun hall => ?_⟩
  · rintro ⟨hparts, hplace⟩ offset hfails
    cases hfails with
    | rule hr fails => exact hplace
    | part hr h => exact hparts offset h
  · exact ⟨fun offset hfails => hall offset (.part hatomic hfails),
      hall _ (.rule hsilent (.rule h.fares))⟩

/-- A word or a number is tried as a whole. -/
theorem atomicMatched (hatomic : r.isAtomic = true) {rest : List Char}
    (h : Matches whole (.rule r) cs (some rest)) (a : Attempts) :
    Tries whole (.rule r) cs a (some rest) a := by
  refine quiet h (fun offset hfails => ?_) a
  cases hfails with
  | rule hr fails => exact nomatch fails.unique h
  | part hr => exact nomatch hatomic.symm.trans hr

theorem atomicFailed (hsilent : r.isSilent = false) (hatomic : r.isAtomic = true)
    (h : Matches whole (.rule r) cs none) (a : Attempts) :
    Tries whole (.rule r) cs a none (a.failToken r (place whole cs)) := by
  refine ⟨h, fun n => ?_⟩
  unfold Attempts.failToken
  rw [Attempts.fail_le_iff]
  refine and_congr_right fun _ => ⟨fun hplace offset hfails => ?_, fun hall =>
    hall _ (.rule hsilent h)⟩
  cases hfails with
  | rule hr fails => exact hplace
  | part hr => exact nomatch hatomic.symm.trans hr

end Rules

end Tries

/-! ### Layout -/

theorem not_failsAt_hidden {r : Rule} (hsilent : r.isSilent = true) (hatomic : r.isAtomic = true)
    (cs : List Char) (offset : Nat) : ¬ FailsAt whole (.rule r) cs offset := by
  intro h
  cases h with
  | rule hr => exact nomatch hsilent.symm.trans hr
  | part hr => exact nomatch hatomic.symm.trans hr

theorem not_failsAt_many (hp : ∀ cs offset, ¬ FailsAt whole p cs offset) (cs : List Char)
    (offset : Nat) : ¬ FailsAt whole (.many p) cs offset := by
  intro h
  generalize he : Peg.many p = e at h
  induction h with
  | manyFirst h =>
    cases he
    exact hp _ _ h
  | manyLater first h ih => exact ih he
  | _ => exact nomatch he

theorem not_failsAt_seq (hp : ∀ cs offset, ¬ FailsAt whole p cs offset)
    (hq : ∀ cs offset, ¬ FailsAt whole q cs offset) (cs : List Char) (offset : Nat) :
    ¬ FailsAt whole (.seq p q) cs offset := by
  intro h
  cases h with
  | seqFirst h => exact hp _ _ h
  | seqSecond first h => exact hq _ _ h

/-- Skipping layout leaves no trace. -/
theorem not_failsAt_skip (cs : List Char) (offset : Nat) : ¬ FailsAt whole skip cs offset := by
  have hwhitespace := not_failsAt_many (@not_failsAt_hidden whole .whitespace rfl rfl)
  exact not_failsAt_seq hwhitespace (not_failsAt_many (not_failsAt_seq
    (not_failsAt_hidden rfl rfl) hwhitespace)) cs offset

theorem failsAt_skip_then {offset : Nat} :
    FailsAt whole (.seq skip p) cs offset ↔ FailsAt whole p (splitLayout cs).2 offset := by
  constructor
  · intro h
    cases h with
    | seqFirst h => exact absurd h (not_failsAt_skip cs offset)
    | seqSecond first h =>
      obtain rfl := Option.some.inj (first.unique (matches_skip cs))
      exact h
  · exact .seqSecond (matches_skip cs)

theorem Tries.skip_then (h : Tries whole p (splitLayout cs).2 a x b) :
    Tries whole (.seq skip p) cs a x b :=
  h.of_iff (matches_skip_then.2 h.fares) fun _ => failsAt_skip_then

theorem Tries.andThen (hp : Tries whole p cs a (some mid) b)
    (hq : Tries whole q (splitLayout mid).2 b x c) : Tries whole (andThen p q) cs a x c :=
  .seq hp hq.skip_then

theorem Tries.andThenFails (hp : Tries whole p cs a none b) :
    Tries whole (Peg.andThen p q) cs a none b :=
  hp.seqFails

/-! ### Repetitions with layout between their parts -/

/-- What is tried first keeps attempts of its own, before what is tried after it. -/
theorem Tries.split (h : Tries whole (.seq p q) cs a x c)
    (hp : Matches whole p cs (some mid)) :
    ∃ b, Tries whole p cs a (some mid) b ∧ Tries whole q mid b x c := by
  have hq : Matches whole q mid x := by
    cases h.fares with
    | seq first second =>
      obtain rfl := Option.some.inj (first.unique hp)
      exact second
    | seqFails first => exact nomatch first.unique hp
  have hbound : ∃ n, a.furthest ≤ n ∧ ∀ offset, FailsAt whole p cs offset → offset ≤ n := by
    obtain ⟨ha, hall⟩ := (h.furthest c.furthest).1 le_rfl
    exact ⟨c.furthest, ha, fun offset hfails => hall offset (.seqFirst hfails)⟩
  classical
  have hleast : ∀ n, Nat.find hbound ≤ n ↔
      a.furthest ≤ n ∧ ∀ offset, FailsAt whole p cs offset → offset ≤ n := by
    intro n
    refine ⟨fun hn => ?_, Nat.find_min' hbound⟩
    obtain ⟨ha, hall⟩ := Nat.find_spec hbound
    exact ⟨ha.trans hn, fun offset hfails => (hall offset hfails).trans hn⟩
  refine ⟨⟨Nat.find hbound, []⟩, ⟨hp, hleast⟩, hq, fun n => ?_⟩
  rw [h.furthest, hleast, and_assoc, ← forall_and]
  refine and_congr_right fun _ => forall_congr' fun offset => ?_
  rw [← or_imp]
  refine imp_congr_left ⟨fun hfails => ?_, ?_⟩
  · cases hfails with
    | seqFirst h => exact .inl h
    | seqSecond first h =>
      obtain rfl := Option.some.inj (first.unique hp)
      exact .inr h
  · rintro (h | h)
    · exact .seqFirst h
    · exact .seqSecond hp h

/-- One more part before a repetition of it and what comes after that. -/
theorem Tries.moreThen (hp : Tries whole p cs a (some mid) b)
    (hthen : Tries whole (.seq (.many p) q) mid b x c) :
    Tries whole (.seq (.many p) q) cs a x c := by
  have hfares : Matches whole (.seq (.many p) q) cs x := by
    cases hthen.fares with
    | seq first second => exact .seq (.more hp.fares first) second
    | seqFails first => exact .seqFails (.more hp.fares first)
  refine hp.of_iff_or hthen hfares fun offset => ⟨fun hfails => ?_, ?_⟩
  · cases hfails with
    | seqFirst h =>
      cases h with
      | manyFirst h => exact .inl h
      | manyLater first h =>
        obtain rfl := Option.some.inj (first.unique hp.fares)
        exact .inr (.seqFirst h)
    | seqSecond first h =>
      cases first with
      | stop fails => exact nomatch fails.unique hp.fares
      | more first others =>
        obtain rfl := Option.some.inj (first.unique hp.fares)
        exact .inr (.seqSecond others h)
  · rintro (h | h)
    · exact .seqFirst (.manyFirst h)
    · cases h with
      | seqFirst h => exact .seqFirst (.manyLater hp.fares h)
      | seqSecond first h => exact .seqSecond (.more hp.fares first) h

/-- Where no layout comes first, a series fails where the repetition does that has layout before
each part. -/
theorem failsAt_series {offset : Nat} (hcs : Settled cs) :
    FailsAt whole (series p) cs offset ↔ FailsAt whole (.many (.seq skip p)) cs offset := by
  have hfails : FailsAt whole (.seq skip p) cs offset ↔ FailsAt whole p cs offset := by
    rw [failsAt_skip_then, hcs]
  have hmatches : ∀ x, Matches whole (.seq skip p) cs x ↔ Matches whole p cs x := by
    intro x
    rw [matches_skip_then, hcs]
  unfold series
  rw [Tries.failsAt_optional]
  constructor
  · intro h
    cases h with
    | seqFirst h => exact .manyFirst (hfails.2 h)
    | seqSecond first h => exact .manyLater ((hmatches _).2 first) h
  · intro h
    cases h with
    | manyFirst h => exact .seqFirst (hfails.1 h)
    | manyLater first h => exact .seqSecond ((hmatches _).1 first) h

theorem Tries.series {rest : List Char} (hcs : Settled cs)
    (h : Tries whole (.many (.seq skip p)) cs a (some rest) b) :
    Tries whole (Peg.series p) cs a (some rest) b :=
  h.of_iff ((matches_series_some hcs).2 h.fares) fun _ => failsAt_series hcs

/-! ### Places -/

theorem strip_suffix {s cs rest : List Char} (h : strip s cs = some rest) : rest <:+ cs :=
  ⟨s, (strip_eq_some.1 h).symm⟩

/-- What is left is the end of what was there. -/
theorem Matches.suffix {e : Peg} {rest : List Char} (h : Matches whole e cs (some rest)) :
    rest <:+ cs := by
  generalize hx : some rest = x at h
  induction h generalizing rest with
  | rule h ih => exact ih hx
  | text s cs => exact strip_suffix hx.symm
  | char p cs =>
    cases cs with
    | nil => exact nomatch hx
    | cons c cs =>
      unfold stripChar at hx
      dsimp only at hx
      split at hx
      · obtain rfl := Option.some.inj hx
        exact List.suffix_cons c rest
      · exact nomatch hx
  | seq first second ih ih' => exact (ih' hx).trans (ih rfl)
  | choiceLeft h ih => exact ih hx
  | choiceRight fails h _ ih => exact ih hx
  | present h ih => exact ih hx
  | more first others ih ih' => exact (ih' hx).trans (ih rfl)
  | absent fails ih | stop fails ih | not fails ih =>
    obtain rfl := Option.some.inj hx
    exact List.suffix_rfl
  | start | finish =>
    obtain rfl := Option.some.inj hx
    exact List.suffix_rfl
  | seqFails first ih => exact nomatch hx
  | notFails h ih => exact nomatch hx
  | startFails h => exact nomatch hx
  | finishFails c cs => exact nomatch hx

theorem place_le {rest : List Char} (h : rest <:+ cs) : place whole cs ≤ place whole rest := by
  obtain ⟨front, rfl⟩ := h
  unfold place
  rw [Text.byteCount_append]
  omega

/-! ### Statements -/

/-- A part that was matched before others adds to the failures of a repetition. -/
theorem FailsAt.many_of_reaches {rest : List Char} {offset : Nat}
    (h : Relation.ReflTransGen (fun cs mid => Matches whole p cs (some mid)) cs rest)
    (hfails : FailsAt whole (.many p) rest offset) : FailsAt whole (.many p) cs offset := by
  induction h using Relation.ReflTransGen.head_induction_on with
  | refl => exact hfails
  | head first others ih => exact .manyLater first ih

/-- A repetition takes every part that can be reached. -/
theorem Matches.many_of_reaches {rest : List Char}
    (h : Relation.ReflTransGen (fun cs mid => Matches whole p cs (some mid)) cs rest)
    (hmany : Matches whole (.many p) cs x) : Matches whole (.many p) rest x := by
  induction h with
  | refl => exact hmany
  | tail others last ih =>
    cases ih with
    | stop fails => exact nomatch last.unique fails
    | more first others =>
      obtain rfl := Option.some.inj (first.unique last)
      exact others

/-- The statement with which a repetition ends fails where it would begin. -/
theorem exists_failsAt_statements {rest : List Char}
    (h : Matches whole (.many (.seq skip (.rule .statement))) cs (some rest)) :
    ∃ offset, FailsAt whole (.many (.seq skip (.rule .statement))) cs offset ∧
      place whole cs ≤ offset := by
  generalize he : Peg.many (.seq skip (.rule .statement)) = e at h
  generalize hx : some rest = x at h
  induction h with
  | stop fails =>
    cases he
    have hstatement := matches_skip_then.1 fails
    cases hstatement with
    | rule hchoice =>
      cases hchoice with
      | choiceRight hvariable hsink =>
        refine ⟨_, .manyFirst (failsAt_skip_then.2 (.part rfl (.choiceFirst (.rule rfl hvariable)))),
          place_le ?_⟩
        exact (@matches_skip whole _).suffix
  | more first others ih ih' =>
    cases he
    obtain ⟨offset, hfails, hplace⟩ := ih' rfl hx
    exact ⟨offset, .manyLater first hfails, (place_le first.suffix).trans hplace⟩
  | _ => exact nomatch he

/-- The failures of statements, tried from the start of a text, are some of its program. -/
theorem FailsAt.program {source : List Char} {offset : Nat}
    (h : FailsAt source (.many (.seq skip (.rule .statement))) source offset) :
    FailsAt source (.rule .program) source offset := by
  have hskip : FailsAt source (.many (.seq skip (.rule .statement))) (splitLayout source).2
      offset := by
    cases h with
    | manyFirst h =>
      refine .manyFirst (failsAt_skip_then.2 ?_)
      rw [splitLayout_idem]
      exact failsAt_skip_then.1 h
    | manyLater first h =>
      refine .manyLater (matches_skip_then.2 ?_) h
      rw [splitLayout_idem]
      exact matches_skip_then.1 first
  exact .part rfl (.seqSecond .start (failsAt_skip_then.2
    (.seqFirst ((failsAt_series (settled_skip source)).2 hskip))))

end Peg

end RangeRules
