import RangeRules.Token.Basic

/-!
# Scanning

A text splits into lexemes, each the longest that can be read at its place, with layout before
them and after the last one. Layout is spaces, tabs, line ends and comments; a comment runs from
`//` to the end of its line. `Scan.lexemes` splits off one lexeme after the other, and
`Scan.tokens` adds up their bytes.
-/
namespace RangeRules.Token

/-- The blanks that may stand between tokens. -/
def isSpace (c : Char) : Bool := c = ' ' ∨ c = '\t' ∨ c = '\r' ∨ c = '\n'

def isLineEnd (c : Char) : Bool := c = '\r' ∨ c = '\n'

def isWordStart (c : Char) : Bool := c.isAlpha ∨ c = '_'

def isWordChar (c : Char) : Bool := c.isAlphanum ∨ c = '_'

mutual

/-- The layout at the start of a text, and the rest. -/
def splitLayout : List Char → List Char × List Char
  | [] => ([], [])
  | c :: cs =>
    if isSpace c then
      let (gap, rest) := splitLayout cs
      (c :: gap, rest)
    else if c = '/' ∧ cs.head? = some '/' then
      let (gap, rest) := splitComment cs
      (c :: gap, rest)
    else ([], c :: cs)

/-- The layout at the start of a text that begins inside a comment, and the rest. -/
def splitComment : List Char → List Char × List Char
  | [] => ([], [])
  | c :: cs =>
    let (gap, rest) := if isLineEnd c then splitLayout cs else splitComment cs
    (c :: gap, rest)

end

/-- The kind of a word: a reserved one, or a name. -/
def Kind.ofWord (word : String) : Kind :=
  match word with
  | "when" => .keyword .when
  | "otherwise" => .keyword .otherwise
  | "this" => .keyword .this
  | "true" => .boolean true
  | "false" => .boolean false
  | _ => .name word

/-- How many characters after its whole part the fraction of a number takes. -/
def fractionLength : List Char → Nat
  | '.' :: cs => match cs.takeWhile Char.isDigit with
    | [] => 0
    | ds => ds.length + 1
  | _ => 0

/-- The mark that starts with a character, and how many of the characters after it belong to it. -/
def mark (c : Char) (next : Option Char) : Kind × Nat :=
  match c with
  | '+' => (.operator (.arithmetic .add), 0)
  | '-' => (.operator (.arithmetic .sub), 0)
  | '*' => (.operator (.arithmetic .mul), 0)
  | '/' => (.operator (.arithmetic .div), 0)
  | '<' => if next = some '=' then (.operator (.comparison .le), 1)
      else (.operator (.comparison .lt), 0)
  | '>' => if next = some '=' then (.operator (.comparison .ge), 1)
      else (.operator (.comparison .gt), 0)
  | '=' => if next = some '=' then (.operator (.comparison .eq), 1) else (.assign, 0)
  | '!' => if next = some '=' then (.operator (.comparison .ne), 1) else (.stray c, 0)
  | ':' => (.colon, 0)
  | '.' => (.dot, 0)
  | '(' => (.lparen, 0)
  | ')' => (.rparen, 0)
  | c => (.stray c, 0)

/-- The kind of the lexeme that starts with `c`, and how many characters of `cs` belong to it. -/
def classify (c : Char) (cs : List Char) : Kind × Nat :=
  if isWordStart c then
    let word := cs.takeWhile isWordChar
    (.ofWord (String.ofList (c :: word)), word.length)
  else if c.isDigit then
    let whole := (cs.takeWhile Char.isDigit).length
    let n := whole + fractionLength (cs.drop whole)
    (.number (c :: cs.take n), n)
  else mark c cs.head?

/-- A lexeme with the layout before it. -/
structure Lexeme where
  gap : List Char
  text : List Char
  kind : Kind

/-- A text in its parts, in order. -/
structure Scan where
  lexemes : List Lexeme
  /-- The layout after the last lexeme. -/
  tail : List Char

mutual

theorem splitLayout_length : ∀ cs, (splitLayout cs).2.length ≤ cs.length
  | [] => by simp [splitLayout]
  | c :: cs => by
    have hl := splitLayout_length cs
    have hc := splitComment_length cs
    simp only [splitLayout]
    split
    · simp only [List.length_cons]; omega
    · split
      · simp only [List.length_cons]; omega
      · simp

theorem splitComment_length : ∀ cs, (splitComment cs).2.length ≤ cs.length
  | [] => by simp [splitComment]
  | c :: cs => by
    have hl := splitLayout_length cs
    have hc := splitComment_length cs
    simp only [splitComment]
    split <;> (simp only [List.length_cons]; omega)

end

/-- The parts of a text. -/
def Scan.of (cs : List Char) : Scan :=
  match _h : splitLayout cs with
  | (gap, []) => ⟨[], gap⟩
  | (gap, c :: rest) =>
    let (kind, n) := classify c rest
    let scan := Scan.of (rest.drop n)
    ⟨⟨gap, c :: rest.take n, kind⟩ :: scan.lexemes, scan.tail⟩
termination_by cs.length
decreasing_by
  have h := splitLayout_length cs
  rw [_h] at h
  simp only [List.length_cons] at h
  simp only [List.length_drop]
  omega

/-- Gives each lexeme its place, the first one's layout starting at `offset`. -/
def place (offset : Nat) : List Lexeme → List Token
  | [] => []
  | l :: ls =>
    let start := offset + Text.byteCount l.gap
    let stop := start + Text.byteCount l.text
    ⟨l.kind, ⟨start, stop⟩⟩ :: place stop ls

/-- The tokens of a text. -/
def Sequence.of (source : Text.Source) : Sequence :=
  ⟨place 0 (Scan.of source).lexemes, Text.byteCount source⟩

/-- The kinds of a text's tokens, which are all that its meaning depends on. -/
def kinds (source : Text.Source) : List Kind := (Scan.of source).lexemes.map (·.kind)

end RangeRules.Token
