import RangeRules.Operator
import RangeRules.Text.Location

/-!
# Tokens

A program is a sequence of tokens: reserved words, names, numbers, operators and punctuation. A
character that belongs to none of these is a token of its own, which no rule of the grammar takes.
-/
namespace RangeRules

/-- The reserved words that are not literals. -/
inductive Keyword where
  | when | otherwise | this
deriving DecidableEq

namespace Token

inductive Kind where
  | keyword (word : Keyword)
  | boolean (value : Bool)
  | name (text : String)
  | number (digits : List Char)
  | operator (op : Operator)
  | assign
  | colon
  | dot
  | lparen
  | rparen
  | stray (c : Char)
deriving DecidableEq

/-- Whether the text of a token starts with an equals sign. -/
def Kind.startsWithEquals : Kind → Bool
  | .assign | .operator (.comparison .eq) => true
  | _ => false

end Token

/-- A token and the place where it is written. -/
structure Token where
  kind : Token.Kind
  span : Text.Span
deriving DecidableEq

namespace Token

/-- Where the first of some tokens starts, or the end of the text if there is none. -/
def startOf (finish : Nat) : List Token → Nat
  | [] => finish
  | t :: _ => t.span.start

/-- A text's tokens, and the offset of its end. -/
structure Sequence where
  tokens : List Token
  finish : Nat

end Token

end RangeRules
