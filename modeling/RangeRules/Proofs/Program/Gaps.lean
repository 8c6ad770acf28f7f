import RangeRules.Proofs.Evaluation.Locality
import RangeRules.Proofs.Program.Parentheses

/-!
# Layout between tokens

A program is what the kinds of its tokens spell. Layout that is put next to a token leaves these
kinds as they are: no lexeme before it goes on over the blank with which it begins, and it has come
to an end where the text goes on. So the text is accepted with the same statements, and its runs
differ in places only.
-/
namespace RangeRules

open Text (Source Span byteCount)
open Phrase

/-! ### The text -/

namespace Token

theorem not_isContinuation_of_isSpace {b : Char} (h : isSpace b = true) :
    isContinuation b = false := by
  obtain rfl | rfl | rfl | rfl := eq_of_isSpace h <;> decide

/-- Layout where a text is cut leaves the kinds of its tokens as they are. -/
theorem Cut.kinds_gap {p q gap : List Char} {b : Char} {before after : List Token}
    (h : Cut 0 p q before after) (hb : isSpace b = true) (hgap : IsGap gap) :
    kinds (p ++ (b :: gap ++ q)) = kindsOf before ++ kindsOf after := by
  have hslash : b ≠ '/' := by
    rintro rfl
    exact nomatch hb
  have htokens := h.severs b (gap ++ q) (not_isContinuation_of_isSpace hb) hslash
  rw [← List.cons_append, (IsGap.blank hb hgap).tokensFrom] at htokens
  rw [← map_kind_tokensFrom 0, htokens, List.map_append, map_kind_tokensFrom, ← h.back, kindsOf,
    kindsOf, map_kind_tokensFrom]

/-- A text may be cut at the start of each of its tokens and at its end. -/
theorem exists_cut_at {source : Source} {t : Token} (ht : t ∈ (Sequence.of source).tokens)
    {offset : Nat} (hoffset : offset = t.span.start ∨ offset = t.span.stop) :
    ∃ p q before after, source = p ++ q ∧ byteCount p = offset ∧ Cut 0 p q before after ∧
      kindsOf before ++ kindsOf after = kinds source := by
  obtain ⟨before, after, htokens⟩ := List.append_of_mem ht
  have hkinds : kindsOf (before ++ t :: after) = kinds source := by
    rw [← htokens]
    exact Sequence.map_kind source
  obtain rfl | rfl := hoffset
  · obtain ⟨p, q, hsource, hstart, hcut⟩ := exists_cut_before htokens
    rw [Nat.zero_add] at hstart
    refine ⟨p, q, before, t :: after, hsource, hstart, hcut, ?_⟩
    exact List.map_append.symm.trans hkinds
  · obtain ⟨p, q, hsource, hstop, hcut⟩ := exists_cut_after htokens
    rw [Nat.zero_add] at hstop
    refine ⟨p, q, before ++ [t], after, hsource, hstop, hcut, ?_⟩
    refine List.map_append.symm.trans ?_
    rw [List.append_assoc, List.singleton_append]
    exact hkinds

end Token

/-! ### The program -/

/-- A text with tokens of the same kinds is accepted with the same statements, places aside. -/
theorem Program.parseWithin_of_kinds {limit : Nat} {source source' : Source} {p : Program}
    (h : parseWithin limit source = .ok p) (hkinds : Token.kinds source' = Token.kinds source) :
    ∃ p', parseWithin limit source' = .ok p' ∧
      p'.statements.map (·.relocate .nowhere) = p.statements.map (·.relocate .nowhere) := by
  obtain ⟨written, hread, hall, rfl⟩ := parseWithin_eq_ok.1 h
  exact parseWithin_of_derives (Read.program_sound hread) hall
    ((Token.Sequence.map_kind source).trans hkinds.symm)

/-! ### Its runs -/

/-- What a diagnostic says of a problem, whatever the place and the text there. -/
def Diagnostic.gist (d : Diagnostic) : Severity × String × List String :=
  (d.severity, d.code, d.help)

/-- Runs of two texts that differ in places only. -/
inductive SameRun {V : Type} (source source' : Source) :
    Except ContractViolation (Evaluation V) → Except ContractViolation (Evaluation V) → Prop where
  | ok {e e' : Evaluation V} (sinks : e'.sinks = e.sinks)
    (diagnostics : (e'.diagnostics source').map (·.gist) = (e.diagnostics source).map (·.gist)) :
    SameRun source source' (.ok e) (.ok e')
  | error {c c' : ContractViolation} (same : c'.relocate .nowhere = c.relocate .nowhere) :
    SameRun source source' (.error c) (.error c')

section Runs

variable {V : Type} {eval : Evaluator V} {source source' : Source} {env : Environment V}

theorem Evaluation.map_gist_diagnostics (source : Source) (e : Evaluation V) :
    (e.diagnostics source).map (·.gist) =
      (e.findings.map (·.relocate .nowhere)).map fun f => (f.diagnostic source).gist := by
  unfold Evaluation.diagnostics
  rw [List.map_map, List.map_map]
  rfl

/-- If an evaluation comes to the same, so does the run that goes on from it. -/
theorem SameRun.bind {x x' : Except ContractViolation (Outcome V)}
    {next next' : Outcome V → Except ContractViolation (Evaluation V)}
    (h : relocated .nowhere x' = relocated .nowhere x)
    (hnext : ∀ o o', o'.value = o.value →
      o'.findings.map (·.relocate .nowhere) = o.findings.map (·.relocate .nowhere) →
        SameRun source source' (next o) (next' o')) :
    SameRun source source' (x >>= next) (x' >>= next') := by
  cases x with
  | error c =>
    cases x' with
    | error c' => exact .error (Except.error.inj h)
    | ok o' => exact nomatch h
  | ok o =>
    obtain ⟨o', rfl, hvalue, hfindings⟩ := relocated_eq_ok h rfl
    exact hnext o o' hvalue hfindings

/-- Scoped statements run alike elsewhere. -/
theorem Scoped.sameRun {declared sinks : List String} {statements statements' : List Statement}
    (h : Scoped declared sinks statements) (hlocal : eval.Local)
    (hsame : statements'.map (·.relocate .nowhere) = statements.map (·.relocate .nowhere))
    {done done' : Evaluation V} (hsinks : done'.sinks = done.sinks)
    (hfindings : done'.findings.map (·.relocate .nowhere) =
      done.findings.map (·.relocate .nowhere)) :
    SameRun source source' (runFrom eval env done statements)
      (runFrom eval env done' statements') := by
  induction h generalizing env statements' done done' with
  | nil =>
    obtain rfl := List.map_eq_nil_iff.1 hsame
    refine .ok hsinks ?_
    rw [Evaluation.map_gist_diagnostics, Evaluation.map_gist_diagnostics, hfindings]
    rfl
  | assign ready tail ih =>
    obtain ⟨body', rest', rfl, hbody, hrest⟩ := Statement.exists_variable_of_same hsame
    refine .bind (hlocal.eval_same (.refl _ _) ready hbody) fun o o' hvalue ho => ?_
    rw [hvalue]
    refine ih hrest hsinks ?_
    rw [List.map_append, List.map_append, hfindings, ho]
  | sink ready fresh tail ih =>
    obtain ⟨body', rest', rfl, hbody, hrest⟩ := Statement.exists_sink_of_same hsame
    refine .bind (hlocal.eval_same (.refl _ _) ready hbody) fun o o' hvalue ho => ?_
    refine ih hrest (by rw [hvalue, hsinks]) ?_
    rw [List.map_append, List.map_append, hfindings, ho]

end Runs

/--
Layout that begins with a blank and has come to an end, put right before a token or right after it,
leaves an accepted text accepted with the same statements, places aside. Both runs come to the same:
the same values of the sinks, and diagnostics of the same codes in the same order.
-/
theorem Program.parseWithin_gap {limit : Nat} {source : Source} {p : Program}
    (h : parseWithin limit source = .ok p) {t : Token} (ht : t ∈ (Token.Sequence.of source).tokens)
    {offset : Nat} (hoffset : offset = t.span.start ∨ offset = t.span.stop) :
    ∃ before after, source = before ++ after ∧ byteCount before = offset ∧
      ∀ b gap, Token.isSpace b = true → Token.IsGap gap →
        ∃ p', parseWithin limit (before ++ (b :: gap ++ after)) = .ok p' ∧
          p'.statements.map (·.relocate .nowhere) = p.statements.map (·.relocate .nowhere) ∧
          (∀ sources, SameRun source (before ++ (b :: gap ++ after)) (p.interpret sources)
            (p'.interpret sources)) ∧
          ∀ options described, SameRun source (before ++ (b :: gap ++ after))
            (p.analyze described options) (p'.analyze described options) := by
  obtain ⟨before, after, ts, us, hsource, hbytes, hcut, hkinds⟩ := Token.exists_cut_at ht hoffset
  refine ⟨before, after, hsource, hbytes, fun b gap hb hgap => ?_⟩
  obtain ⟨p', hp', hsame⟩ := parseWithin_of_kinds h ((hcut.kinds_gap hb hgap).trans hkinds)
  have hscoped := scoped_of_parseWithin h
  exact ⟨p', hp', hsame, fun sources => hscoped.sameRun Concrete.local_eval hsame rfl rfl,
    fun options described => hscoped.sameRun (Abstract.local_eval options) hsame rfl rfl⟩

namespace Gaps

/-- A quotient, whose operator must not become the start of a comment. -/
def quotient : Source := "z: 6/this.x == 3".toList

/-- The same, with a comment right after the operator. -/
def noted : Source := "z: 6/\t// the rate\nthis.x == 3".toList

end Gaps

theorem Program.parseWithin_gap_noted : ∃ p p' : Program,
    parseWithin 8 Gaps.quotient = .ok p ∧ parseWithin 8 Gaps.noted = .ok p' ∧
      p'.statements.map (·.relocate .nowhere) = p.statements.map (·.relocate .nowhere) ∧
      ∀ sources, SameRun Gaps.quotient Gaps.noted (p.interpret sources) (p'.interpret sources) := by
  have hparse : (parseWithin 8 Gaps.quotient).toOption.isSome = true := by
    decide +kernel
  have htoken : ⟨.operator (.arithmetic .div), ⟨4, 5⟩⟩ ∈
      (Token.Sequence.of Gaps.quotient).tokens := by
    decide +kernel
  have hcut : Text.splitBytes? 5 Gaps.quotient = some ("z: 6/".toList, "this.x == 3".toList) := by
    decide +kernel
  have hline : ∀ d ∈ " the rate".toList, Token.isLineEnd d = false := by
    simp [Token.isLineEnd]
  obtain ⟨p, hp⟩ := Option.isSome_iff_exists.1 hparse
  obtain ⟨before, after, hsource, hbytes, hall⟩ :=
    Program.parseWithin_gap (ok_of_toOption hp) htoken (.inr rfl)
  change byteCount before = 5 at hbytes
  rw [hsource, ← hbytes, Text.splitBytes?_append] at hcut
  obtain ⟨rfl, rfl⟩ := Prod.mk.inj (Option.some.inj hcut)
  obtain ⟨p', hp', hsame, hinterpret, -⟩ := hall '\t' _ rfl (.comment hline (c := '\n') rfl .nil)
  exact ⟨p, p', ok_of_toOption hp, hp', hsame, hinterpret⟩

end RangeRules
