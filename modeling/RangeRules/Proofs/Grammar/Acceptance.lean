import RangeRules.Proofs.Grammar.Completeness
import RangeRules.Proofs.Phrase.Sentence
import RangeRules.Proofs.Token.LongestMatch

/-!
# The accepted texts

A text is accepted exactly if its tokens are a sentence of the context-free grammar. This holds of
the grammar on characters, with its ordered choices and greedy repetitions, and of the reader.
-/
namespace RangeRules.Program

open Token (Lexes)
open Grammar (IsProgram)

/--
A text splits by longest match in one way. The grammar on characters matches the whole text exactly
if the split is a sentence, and these are the texts that are read.
-/
theorem accepts_iff (source : Text.Source) : ∃ ks, (∀ ks', Lexes source ks' ↔ ks' = ks) ∧
    (Peg.Matches source (.rule .program) source (some []) ↔ IsProgram ks) ∧
    ((∃ written, read source = .ok written) ↔ IsProgram ks) := by
  refine ⟨Token.kinds source, fun ks' => Token.lexes_iff.trans eq_comm, ?_, ?_⟩
  · exact ⟨Peg.isProgram_of_matches, Peg.matches_of_isProgram⟩
  · exact Phrase.read_ok_iff source

end RangeRules.Program
