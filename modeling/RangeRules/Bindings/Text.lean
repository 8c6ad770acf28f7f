import RangeRules.Bindings.Basic
import RangeRules.Text.Quoted

/-!
# Bindings as text

Two forms: one line with quoted names for a developer, and a line for each name for the sinks of a
run.
-/
namespace RangeRules.Bindings

/-- The entries in one line, with quoted names. -/
def inlineText (text : V → String) (b : Bindings V) : String :=
  let entry := fun (n, v) => String.ofList (Text.quoted n.toList) ++ ": " ++ text v
  "\x7b" ++ ", ".intercalate (b.entries.map entry) ++ "\x7d"

/-- A line for each entry. -/
def lines (text : V → String) (b : Bindings V) : String :=
  String.join (b.entries.map fun (n, v) => n ++ ": " ++ text v ++ "\n")

end RangeRules.Bindings
