import RangeRules.Proofs.Grammar.Acceptance
import RangeRules.Proofs.Phrase.Failures
import RangeRules.Proofs.Phrase.Viability
import RangeRules.Proofs.Program.Quotation

/-!
# What a syntax error says

An error of syntax cuts its text in two. What comes before its place can go on to a program, and the
place is the furthest one at which the grammar fails. Each concept that is said to be expected there
can come next; the exception is an error at the very start, which always says that an expression was
expected. What is said to be found there is the text after the place, up to the next blank. A blank
that is no layout may come first; then the end of the input is said to be found before it is
reached.
-/
namespace RangeRules

open Text (Source byteCount)
open Token (kinds Settled startOf)
open Grammar
open Phrase.Read (Stands)
open Peg (Matches FailsAt place skip)

theorem Rule.mem_sorted {rule : Rule} {rules : List Rule} : rule ∈ sorted rules ↔ rule ∈ rules := by
  unfold sorted
  rw [List.mem_filter, List.contains_iff_mem]
  exact and_iff_right (by cases rule <;> decide)

/-! ### Texts for kinds -/

theorem Token.kinds_newline (cs : Source) : kinds ('\n' :: cs) = kinds cs := by
  have hline := kinds_line [] cs
  rwa [settled_nil.kinds_eq] at hline

/-- The kinds of lexemes are those of a text, one lexeme on each line. -/
theorem Grammar.Spelled.exists_text {w : List Token.Kind} (h : Spelled w) :
    ∃ t : Source, kinds t = w := by
  induction w with
  | nil => exact ⟨[], Token.settled_nil.kinds_eq⟩
  | cons k w ih =>
    obtain ⟨⟨s, hs⟩, hw⟩ := List.forall_mem_cons.1 h
    obtain ⟨t, rfl⟩ := ih hw
    refine ⟨s ++ '\n' :: t, ?_⟩
    rw [hs.kinds_append rfl (by decide), Token.kinds_newline]

/-- They can be written after any text, from its next line on. -/
theorem Grammar.Spelled.exists_lines {w : List Token.Kind} (h : Spelled w) (before : Source) :
    ∃ t : Source, kinds t = w ∧ kinds (before ++ t) = kinds before ++ w := by
  obtain ⟨t, rfl⟩ := h.exists_text
  exact ⟨'\n' :: t, Token.kinds_newline t, Token.kinds_line before t⟩

/-- No layout comes before a token that starts at once. -/
theorem Token.settled_of_start {cs : Source} {offset : Nat} {t : Token} {ts : List Token}
    (h : tokensFrom offset cs = t :: ts) (hstart : t.span.start = offset) : Settled cs := by
  obtain ⟨c, rest, -, ht, -⟩ := exists_lexeme h
  have hlayout : (splitLayout cs).1 = [] := by
    cases hgap : (splitLayout cs).1 with
    | nil => rfl
    | cons d gap =>
      have hpos := Text.byteCount_cons_pos d gap
      rw [ht, hgap] at hstart
      dsimp only at hstart
      omega
  have hall := splitLayout_append cs
  rw [hlayout, List.nil_append] at hall
  exact Prod.ext hlayout hall

/-- A text is cut where some last tokens start: their kinds are missing before the cut, and no
layout comes after it. -/
theorem Phrase.Read.Stands.exists_cut {source : Source} {u : List Token.Kind} {ts : List Token}
    (h : Stands (Token.Sequence.of source).tokens u ts) : ∃ before after : Source,
      source = before ++ after ∧ byteCount before = startOf (byteCount source) ts ∧
      Token.kinds before = u ∧ Settled after := by
  obtain ⟨⟨front, hfront⟩, hkinds⟩ := h
  have hcut : Token.tokensFrom 0 source = front ++ ts := hfront.symm
  rw [← hfront, kindsOf, List.map_append] at hkinds
  have hu : kindsOf front = u := List.append_cancel_right hkinds
  cases ts with
  | nil =>
    rw [List.append_nil] at hcut
    refine ⟨source, [], (List.append_nil source).symm, rfl, ?_, Token.settled_nil⟩
    rw [← Token.map_kind_tokensFrom 0, hcut]
    exact hu
  | cons t ts =>
    obtain ⟨before, after, hsource, hstart, hcut⟩ := Token.exists_cut_before hcut
    rw [Nat.zero_add] at hstart
    refine ⟨before, after, hsource, hstart, ?_, ?_⟩
    · rw [← Token.map_kind_tokensFrom 0, hcut.front]
      exact hu
    · refine Token.settled_of_start hcut.back ?_
      rw [Nat.zero_add, hstart]

/-- A text has one start of each length. -/
theorem Text.append_inj_of_byteCount {p q p' q' : Source} (h : p ++ q = p' ++ q')
    (hbytes : byteCount p = byteCount p') : p = p' ∧ q = q' := by
  have hsplit := splitBytes?_append p q
  rw [h, hbytes, splitBytes?_append] at hsplit
  exact (Prod.mk.inj (Option.some.inj hsplit)).imp Eq.symm Eq.symm

namespace Program

/-! ### Refused texts -/

/-- Only a text that cannot be read has an unexpected token. -/
theorem parseWithin_unexpected {limit : Nat} {source : Source} {e : ParseError}
    {expected found : String} (h : parseWithin limit source = .error e)
    (hcause : e.cause = .unexpectedToken expected found) : ∃ a, read source = .error a ∧
      e.span = ⟨a.furthest, a.furthest⟩ ∧
      expected = ParseError.expectedText (Rule.sorted a.rules) ∧
      found = ParseError.quotedAt source a.furthest := by
  cases hread : read source with
  | ok written =>
    obtain ⟨before, s, after, f, -, -, hrefused, rfl⟩ := parseWithin_eq_error hread h
    dsimp only at hcause
    cases hrefused with
    | body hbody =>
      cases hbody <;> exact nomatch hcause
    | sink isSink mem => exact nomatch hcause
  | error a =>
    unfold parseWithin at h
    rw [hread] at h
    obtain rfl := Except.error.inj h
    obtain ⟨rfl, rfl⟩ := ParseError.Cause.unexpectedToken.inj hcause
    exact ⟨a, rfl, rfl, rfl, rfl⟩

/-- Some text that shows the concept first makes the text before it a program. -/
def Possible (before : Source) (concept : String) : Prop :=
  ∃ t : Source, Shows concept (kinds t) ∧ kinds (before ++ t) = kinds before ++ kinds t ∧
    Matches (before ++ t) (.rule .program) (before ++ t) (some [])

theorem possible_of_viable {before : Source} {concept : String}
    (h : Viable concept (kinds before)) : Possible before concept := by
  obtain ⟨w, hshows, hspelled, hprogram⟩ := h
  obtain ⟨t, rfl, hkinds⟩ := hspelled.exists_lines before
  exact ⟨t, hshows, hkinds, Peg.matches_of_isProgram (hkinds ▸ hprogram)⟩

/-- A program begins with a statement, which begins with a name, or it is empty. -/
theorem possible_nil {concept : String} (h : Possible [] concept) :
    concept = "statement" ∨ concept = "identifier" ∨ concept = "end of input" := by
  obtain ⟨t, hshows, -, hmatches⟩ := h
  rw [List.nil_append] at hmatches
  have hprogram := Peg.isProgram_of_matches hmatches
  generalize kinds t = w at hshows hprogram
  cases hprogram with
  | nil =>
    cases hshows
    exact .inr (.inr rfl)
  | cons head tail =>
    cases head with
    | «variable» name h | sink name h =>
      cases hshows with
      | statement => exact .inl rfl
      | identifier => exact .inr (.inl rfl)
      | expression hbegins hname => exact absurd rfl (hname name)

/-- What is kept of a refused text, beside the two parts of the text. -/
theorem exists_cut_of_read {source : Source} {a : Attempts} (h : read source = .error a) :
    ∃ before after : Source, source = before ++ after ∧ byteCount before = a.furthest ∧
      Settled after ∧ (before = [] ∧ a.rules = [.program] ∨
        before ≠ [] ∧ a.rules ≠ [] ∧ ∀ rule ∈ a.rules, Possible before rule.concept) := by
  obtain ⟨⟨u, rest, hstands, hstart⟩, hrules⟩ := Phrase.Read.program_expected h
  obtain ⟨before, after, hsource, hbytes, -, hsettled⟩ := hstands.exists_cut
  have hfurthest : byteCount before = a.furthest := hbytes.trans hstart
  refine ⟨before, after, hsource, hfurthest, hsettled, hrules.imp ?_ ?_⟩
  · rintro rfl
    refine ⟨?_, rfl⟩
    cases before with
    | nil => rfl
    | cons c before => exact absurd hfurthest (Text.byteCount_cons_pos c before).ne'
  · rintro ⟨hpos, hexpected⟩
    refine ⟨?_, hexpected.reason.resolve_left hpos.ne', fun rule hrule => ?_⟩
    · rintro rfl
      exact hpos.ne hfurthest
    · obtain ⟨v, ts, hstands, hstart, hviable⟩ := hexpected.viable rule hrule
      obtain ⟨before', after', hsource', hbytes', rfl, -⟩ := hstands.exists_cut
      obtain ⟨rfl, rfl⟩ := Text.append_inj_of_byteCount (hsource'.symm.trans hsource)
        (hbytes'.trans (hstart.trans hfurthest.symm))
      exact possible_of_viable hviable

/-! ### The place -/

/--
The text before an error can go on to a program. The error is at the furthest place at which a rule
fails while the grammar tries the whole text, and no statements that are matched from the start end
after it.
-/
theorem unexpected_after_viable_prefix {limit : Nat} {source : Source} {e : ParseError}
    {expected found : String} (h : parseWithin limit source = .error e)
    (hcause : e.cause = .unexpectedToken expected found) : ∃ before after : Source,
      source = before ++ after ∧ e.span = ⟨byteCount before, byteCount before⟩ ∧
      IsGreatest {offset | FailsAt source (.rule .program) source offset} (byteCount before) ∧
      (∀ rest, Relation.ReflTransGen
        (fun cs mid => Matches source (.seq skip (.rule .statement)) cs (some mid)) source rest →
        place source rest ≤ byteCount before) ∧
      ∃ t, Matches (before ++ t) (.rule .program) (before ++ t) (some []) := by
  obtain ⟨a, hread, hspan, -, -⟩ := parseWithin_unexpected h hcause
  obtain ⟨before, after, hsource, hfurthest, -, hrules⟩ := exists_cut_of_read hread
  rw [← hfurthest] at hspan
  refine ⟨before, after, hsource, hspan, ?_, fun rest hreaches => ?_, ?_⟩
  · rw [hfurthest]
    exact Phrase.Read.program_isGreatest source hread
  · rw [hfurthest]
    exact Phrase.Read.place_le_of_statements source hread hreaches
  · obtain ⟨rfl, -⟩ | ⟨-, hne, hpossible⟩ := hrules
    · refine ⟨[], Peg.matches_of_isProgram ?_⟩
      rw [List.append_nil, Token.settled_nil.kinds_eq]
      exact .nil
    · obtain ⟨rule, hrule⟩ := List.exists_mem_of_ne_nil _ hne
      obtain ⟨t, -, -, hmatches⟩ := hpossible rule hrule
      exact ⟨t, hmatches⟩

/-- The error of a text that is refused. -/
def refusal? : Except ParseError Program → Option ParseError
  | .error e => some e
  | .ok _ => none

theorem eq_error_of_refusal? {x : Except ParseError Program} {e : ParseError}
    (h : refusal? x = some e) : x = .error e := by
  cases x with
  | ok p => exact nomatch h
  | error e' => exact congrArg Except.error (Option.some.inj h)

namespace SyntaxErrors

/-- Two operators stand next to each other. -/
def dangling : Source := "a = 2\nz: a + / 3".toList

def cause : ParseError.Cause :=
  .unexpectedToken "expression, literal, identifier or source reference" "'/'"

theorem refused_dangling : parseWithin 8 dangling = .error ⟨cause, dangling, ⟨13, 13⟩⟩ :=
  eq_error_of_refusal? (by decide +kernel)

theorem eq_of_dangling {before after : Source} (hsource : dangling = before ++ after)
    (hspan : (⟨13, 13⟩ : Text.Span) = ⟨byteCount before, byteCount before⟩) :
    before = "a = 2\nz: a + ".toList ∧ after = "/ 3".toList := by
  obtain ⟨hbytes, -⟩ := Text.Span.mk.inj hspan
  have hcut : dangling = "a = 2\nz: a + ".toList ++ "/ 3".toList := by decide +kernel
  have hlength : byteCount "a = 2\nz: a + ".toList = 13 := by decide +kernel
  exact Text.append_inj_of_byteCount (hsource.symm.trans hcut) (hbytes.symm.trans hlength.symm)

end SyntaxErrors

theorem unexpected_after_viable_prefix_dangling :
    (∃ e, parseWithin 8 SyntaxErrors.dangling = .error e ∧ e.span = ⟨13, 13⟩) ∧
      IsGreatest {offset | FailsAt SyntaxErrors.dangling (.rule .program) SyntaxErrors.dangling
        offset} 13 ∧
      ∃ t, Matches ("a = 2\nz: a + ".toList ++ t) (.rule .program) ("a = 2\nz: a + ".toList ++ t)
        (some []) := by
  obtain ⟨before, after, hsource, hspan, hgreatest, -, hviable⟩ :=
    unexpected_after_viable_prefix SyntaxErrors.refused_dangling rfl
  obtain ⟨rfl, rfl⟩ := SyntaxErrors.eq_of_dangling hsource hspan
  exact ⟨⟨_, SyntaxErrors.refused_dangling, rfl⟩, hgreatest, hviable⟩

/-! ### What was expected -/

/--
Whatever an error says was expected may come next, unless it is at the very start. There it says that
an expression was expected, which no program begins with.
-/
theorem expected_possible {limit : Nat} {source : Source} {e : ParseError}
    {expected found : String} (h : parseWithin limit source = .error e)
    (hcause : e.cause = .unexpectedToken expected found) :
    ∃ (before after : Source) (rules : List Rule), source = before ++ after ∧
      e.span = ⟨byteCount before, byteCount before⟩ ∧
      expected = ParseError.expectedText rules ∧ rules ≠ [] ∧
      (∀ rule ∈ rules, Possible before rule.concept ↔ before ≠ []) ∧
      (before = [] → rules = [.program]) := by
  obtain ⟨a, hread, hspan, hexpected, -⟩ := parseWithin_unexpected h hcause
  obtain ⟨before, after, hsource, hfurthest, -, hrules⟩ := exists_cut_of_read hread
  rw [← hfurthest] at hspan
  refine ⟨before, after, _, hsource, hspan, hexpected, ?_⟩
  obtain ⟨rfl, hprogram⟩ | ⟨hbefore, hne, hpossible⟩ := hrules
  · rw [hprogram]
    refine ⟨by decide, fun rule hrule => ⟨fun h => ?_, fun hne => absurd rfl hne⟩, fun _ => rfl⟩
    obtain rfl : rule = .program := List.mem_singleton.1 hrule
    exact absurd (possible_nil h) (by decide)
  · obtain ⟨rule, hrule⟩ := List.exists_mem_of_ne_nil _ hne
    refine ⟨List.ne_nil_of_mem (Rule.mem_sorted.2 hrule), fun rule hrule => ?_,
      fun hnil => absurd hnil hbefore⟩
    exact iff_of_true (hpossible rule (Rule.mem_sorted.1 hrule)) hbefore

theorem expected_possible_dangling : ∃ rules : List Rule, rules ≠ [] ∧
    ParseError.expectedText rules = "expression, literal, identifier or source reference" ∧
    ∀ rule ∈ rules, Possible "a = 2\nz: a + ".toList rule.concept := by
  obtain ⟨before, after, rules, hsource, hspan, hexpected, hne, hpossible, -⟩ :=
    expected_possible SyntaxErrors.refused_dangling rfl
  obtain ⟨rfl, rfl⟩ := SyntaxErrors.eq_of_dangling hsource hspan
  exact ⟨rules, hne, hexpected.symm, fun rule hrule => (hpossible rule hrule).2 (by decide)⟩

/-- Where only a name may come first, a number is refused because an expression was expected. -/
theorem expected_expression_at_start :
    parse ['1'] = .error ⟨.unexpectedToken "expression" "'1'", ['1'], ⟨0, 0⟩⟩ ∧
      ¬ Possible [] "expression" :=
  ⟨eq_error_of_refusal? (by decide +kernel), fun h => absurd (possible_nil h) (by decide)⟩

/-! ### What was found -/

/-- What is quoted in front of some text. -/
def quote (after : Source) : Source :=
  (after.take ParseError.quotedLength).takeWhile fun c => !Text.isBlank c

theorem quote_eq_nil {after : Source} :
    quote after = [] ↔ after = [] ∨ after.head?.any Text.isBlank = true := by
  cases after with
  | nil => exact iff_of_true rfl (.inl rfl)
  | cons c after =>
    unfold quote ParseError.quotedLength
    rw [List.take_succ_cons, List.takeWhile_cons]
    cases hc : Text.isBlank c <;> simp [hc]

/-- It is the text up to the next blank, if that is not too long. -/
theorem exists_quote (after : Source) : ∃ r, after = quote after ++ r ∧
    (quote after).length ≤ ParseError.quotedLength ∧
    (r.head?.all Text.isBlank = true ∨ (quote after).length = ParseError.quotedLength) := by
  unfold quote
  generalize ParseError.quotedLength = n
  induction n generalizing after with
  | zero => exact ⟨after, rfl, le_rfl, .inr rfl⟩
  | succ n ih =>
    cases after with
    | nil => exact ⟨[], rfl, Nat.zero_le _, .inl rfl⟩
    | cons c after =>
      rw [List.take_succ_cons, List.takeWhile_cons]
      cases hc : Text.isBlank c with
      | true => exact ⟨c :: after, rfl, Nat.zero_le _, .inl hc⟩
      | false =>
        obtain ⟨r, hafter, hlength, hend⟩ := ih after
        refine ⟨r, congrArg (c :: ·) hafter, Nat.succ_le_succ hlength, hend.imp_right ?_⟩
        exact congrArg Nat.succ

theorem quotedAt_append (before after : Source) :
    ParseError.quotedAt (before ++ after) (byteCount before) =
      if quote after = [] then "end of input" else "'" ++ String.ofList (quote after) ++ "'" := by
  unfold ParseError.quotedAt quote
  rw [Text.splitBytes?_append]
  dsimp only
  split
  · next hnil => rw [if_pos hnil]
  · next hne => rw [if_neg hne]

theorem quotes_ne_end (cs : List Char) : "'" ++ String.ofList cs ++ "'" ≠ "end of input" := by
  intro h
  have hlist := congrArg String.toList h
  simp at hlist

/--
The end of the input is said to be found at the end and in front of a blank that is no layout.
Everywhere else an error quotes the text at its place, up to the next blank.
-/
theorem found_quotes {limit : Nat} {source : Source} {e : ParseError}
    {expected found : String} (h : parseWithin limit source = .error e)
    (hcause : e.cause = .unexpectedToken expected found) : ∃ before after : Source,
      source = before ++ after ∧ e.span = ⟨byteCount before, byteCount before⟩ ∧
      (found = "end of input" ↔ after = [] ∨
        after.head?.any (fun c => Text.isBlank c && !Token.isSpace c) = true) ∧
      (found ≠ "end of input" → ∃ q r : Source, after = q ++ r ∧ q ≠ [] ∧
        found = "'" ++ String.ofList q ++ "'" ∧ (∀ c ∈ q, Text.isBlank c = false) ∧
        q.length ≤ 16 ∧ (r.head?.all Text.isBlank = true ∨ q.length = 16)) := by
  obtain ⟨a, hread, hspan, -, hfound⟩ := parseWithin_unexpected h hcause
  obtain ⟨before, after, rfl, hfurthest, hsettled, -⟩ := exists_cut_of_read hread
  rw [← hfurthest] at hspan hfound
  rw [quotedAt_append] at hfound
  have hblank : (after.head?.any fun c => Text.isBlank c && !Token.isSpace c) =
      after.head?.any Text.isBlank := by
    cases after with
    | nil => rfl
    | cons c after => simp [(Token.settled_cons.1 hsettled).1]
  have hend : found = "end of input" ↔ quote after = [] := by
    rw [hfound]
    split
    · next hnil => exact iff_of_true rfl hnil
    · next hne => exact iff_of_false (quotes_ne_end _) hne
  refine ⟨before, after, rfl, hspan, ?_, fun hne => ?_⟩
  · rw [hend, hblank]
    exact quote_eq_nil
  · have hquote := mt hend.2 hne
    obtain ⟨r, hafter, hlength, hstop⟩ := exists_quote after
    rw [if_neg hquote] at hfound
    refine ⟨quote after, r, hafter, hquote, hfound, fun c hc => ?_, hlength, hstop⟩
    simpa using List.mem_takeWhile_imp hc

theorem found_quotes_dangling : parseWithin 8 SyntaxErrors.dangling =
      .error ⟨SyntaxErrors.cause, SyntaxErrors.dangling, ⟨13, 13⟩⟩ ∧
    ∃ q r : Source, "/ 3".toList = q ++ r ∧ q ≠ [] ∧ "'/'" = "'" ++ String.ofList q ++ "'" := by
  obtain ⟨before, after, hsource, hspan, -, hquotes⟩ :=
    found_quotes SyntaxErrors.refused_dangling rfl
  obtain ⟨rfl, rfl⟩ := SyntaxErrors.eq_of_dangling hsource hspan
  obtain ⟨q, r, hafter, hne, hfound, -⟩ := hquotes (by decide)
  exact ⟨SyntaxErrors.refused_dangling, q, r, hafter, hne, hfound⟩

/-- A blank that is no layout stands at the place of the error, and a number comes after it. -/
theorem found_end_before_end :
    parse "z: \u00a01".toList =
        .error ⟨.unexpectedToken "expression or `when`" "end of input", "z: \u00a01".toList, ⟨3, 3⟩⟩ ∧
      byteCount "z: \u00a01".toList ≠ 3 :=
  ⟨eq_error_of_refusal? (by decide +kernel), by decide +kernel⟩

end Program

end RangeRules
