import RangeRules.Grammar.Rule

/-!
# Failed attempts

While a text is read, the rules that could not be matched are kept for the furthest offset at which
one failed; they say what was expected there. A rule that fails where it began replaces the
attempts of its parts at that offset, unless these added exactly one: a single part says more than
the whole. Nothing is forgotten when the reader turns to another rule.
-/
namespace RangeRules

structure Attempts where
  furthest : Nat
  rules : List Rule

namespace Attempts

def start : Attempts := ⟨0, []⟩

/-- How many attempts are kept for an offset. -/
def countAt (a : Attempts) (offset : Nat) : Nat :=
  if a.furthest = offset then a.rules.length else 0

/-- The attempts after a rule that began at `offset` with the attempts `before` has failed. -/
def fail (now : Attempts) (rule : Rule) (offset : Nat) (before : Attempts) : Attempts :=
  if now.countAt offset = before.countAt offset + 1 then now
  else if offset < now.furthest then now
  else ⟨offset, now.rules.take (before.countAt offset) ++ [rule]⟩

/-- The attempts after a rule without parts has failed. -/
def failToken (now : Attempts) (rule : Rule) (offset : Nat) : Attempts := now.fail rule offset now

end Attempts

end RangeRules
