import RangeRules.Grammar.Rule

/-!
# The grammar on characters

The rules of the grammar as parsing expressions: choices are tried in order, repetitions are greedy
and neither is taken back. A match relates an expression and the characters at some place to what is
left of them, or to nothing where the expression fails. Layout is skipped between the parts of a
rule and between the repetitions of one, except in the rules for single words, numbers and layout.
-/
namespace RangeRules

/-- A parsing expression. -/
inductive Peg where
  | rule (r : Rule)
  | text (s : String)
  /-- A character of a class. -/
  | char (p : Char → Bool)
  | seq (a b : Peg)
  /-- The first of two that matches. -/
  | choice (a b : Peg)
  | optional (a : Peg)
  | many (a : Peg)
  /-- Matches without reading anything, where the expression does not match. -/
  | not (a : Peg)
  /-- The place before the first character. -/
  | start
  /-- The place after the last character. -/
  | finish

namespace Peg

/-- What is left after the characters of a text, if the others begin with them. -/
def strip : List Char → List Char → Option (List Char)
  | [], cs => some cs
  | _ :: _, [] => none
  | a :: s, c :: cs => if a = c then strip s cs else none

/-- What is left after one character of a class. -/
def stripChar (p : Char → Bool) : List Char → Option (List Char)
  | [] => none
  | c :: cs => if p c then some cs else none

/-- The first of some expressions that matches. -/
def oneOf : Peg → List Peg → Peg
  | a, [] => a
  | a, b :: rest => .choice a (oneOf b rest)

/-- At least one. -/
def many₁ (a : Peg) : Peg := .seq a (.many a)

/-- Layout: blanks and comments. -/
def skip : Peg :=
  .seq (.many (.rule .whitespace))
    (.many (.seq (.rule .comment) (.many (.rule .whitespace))))

/-- Both, with layout between them. -/
def andThen (a b : Peg) : Peg := .seq a (.seq skip b)

/-- Any number, with layout between them. -/
def series (a : Peg) : Peg := .optional (.seq a (.many (.seq skip a)))

/-- At least one, with layout between them. -/
def series₁ (a : Peg) : Peg := andThen a (series a)

/-- A word that does not go on. -/
def word (a : Peg) : Peg := .seq a (.not (.rule .identChar))

/-- What a rule stands for. -/
def body : Rule → Peg
  | .endOfInput => .finish
  | .whitespace => oneOf (.text " ") [.text "\t", .text "\r", .text "\n"]
  | .comment =>
    .seq (.text "//")
      (.many (.seq (.not (oneOf (.text "\n") [.text "\r\n", .text "\r"])) (.char fun _ => true)))
  | .program => andThen .start (andThen (series (.rule .statement)) (.rule .endOfInput))
  | .statement => .choice (.rule .variableAssignment) (.rule .sinkAssignment)
  | .variableAssignment =>
    andThen (.rule .ident)
      (andThen (.text "=") (andThen (.not (.text "=")) (.rule .expression)))
  | .sinkAssignment => andThen (.rule .ident) (andThen (.text ":") (.rule .expression))
  | .expression => .choice (.rule .whenExpr) (.rule .binary)
  | .whenExpr => andThen (series₁ (.rule .whenClause)) (.rule .otherwiseClause)
  | .whenClause => andThen (.rule .kwWhen) (andThen (.rule .expression) (.rule .expression))
  | .otherwiseClause => andThen (.rule .kwOtherwise) (.rule .expression)
  | .binary =>
    andThen (.rule .arithmetic) (.optional (andThen (.rule .comparisonOp) (.rule .arithmetic)))
  | .arithmetic => andThen (.rule .operand) (series (andThen (.rule .arithmeticOp) (.rule .operand)))
  | .arithmeticOp => oneOf (.rule .add) [.rule .sub, .rule .mul, .rule .div]
  | .comparisonOp => oneOf (.rule .le) [.rule .ge, .rule .eq, .rule .ne, .rule .lt, .rule .gt]
  | .add => .text "+"
  | .sub => .text "-"
  | .mul => .text "*"
  | .div => .text "/"
  | .le => .text "<="
  | .ge => .text ">="
  | .eq => .text "=="
  | .ne => .text "!="
  | .lt => .text "<"
  | .gt => .text ">"
  | .operand =>
    oneOf (.rule .grouped) [.rule .boolean, .rule .sourceRef, .rule .number, .rule .variableRef]
  | .grouped => andThen (.text "(") (andThen (.rule .expression) (.text ")"))
  | .sourceRef => andThen (.rule .kwThis) (andThen (.text ".") (.rule .ident))
  | .variableRef => .rule .ident
  | .boolean => word (oneOf (.text "true") [.text "false"])
  | .number =>
    .seq (many₁ (.char Char.isDigit))
      (.optional (.seq (.text ".") (many₁ (.char Char.isDigit))))
  | .ident =>
    .seq (.not (.rule .keyword))
      (.seq (.choice (.char Char.isAlpha) (.text "_")) (.many (.rule .identChar)))
  | .identChar => .choice (.char Char.isAlphanum) (.text "_")
  | .keyword =>
    word (oneOf (.text "when") [.text "otherwise", .text "true", .text "false", .text "this"])
  | .kwWhen => word (.text "when")
  | .kwOtherwise => word (.text "otherwise")
  | .kwThis => word (.text "this")

/--
How an expression fares at a place of a text, given by the characters from there on: what it leaves
of them, or nothing if it fails.
-/
inductive Matches (whole : List Char) : Peg → List Char → Option (List Char) → Prop where
  | rule {r : Rule} {cs : List Char} {x : Option (List Char)} (h : Matches whole (body r) cs x) :
    Matches whole (.rule r) cs x
  | text (s : String) (cs : List Char) : Matches whole (.text s) cs (strip s.toList cs)
  | char (p : Char → Bool) (cs : List Char) : Matches whole (.char p) cs (stripChar p cs)
  | seq {a b : Peg} {cs mid : List Char} {x : Option (List Char)}
    (first : Matches whole a cs (some mid)) (second : Matches whole b mid x) :
    Matches whole (.seq a b) cs x
  | seqFails {a b : Peg} {cs : List Char} (first : Matches whole a cs none) :
    Matches whole (.seq a b) cs none
  | choiceLeft {a b : Peg} {cs rest : List Char} (h : Matches whole a cs (some rest)) :
    Matches whole (.choice a b) cs (some rest)
  | choiceRight {a b : Peg} {cs : List Char} {x : Option (List Char)}
    (fails : Matches whole a cs none) (h : Matches whole b cs x) :
    Matches whole (.choice a b) cs x
  | present {a : Peg} {cs rest : List Char} (h : Matches whole a cs (some rest)) :
    Matches whole (.optional a) cs (some rest)
  | absent {a : Peg} {cs : List Char} (fails : Matches whole a cs none) :
    Matches whole (.optional a) cs (some cs)
  | stop {a : Peg} {cs : List Char} (fails : Matches whole a cs none) :
    Matches whole (.many a) cs (some cs)
  | more {a : Peg} {cs mid : List Char} {x : Option (List Char)}
    (first : Matches whole a cs (some mid)) (others : Matches whole (.many a) mid x) :
    Matches whole (.many a) cs x
  | not {a : Peg} {cs : List Char} (fails : Matches whole a cs none) :
    Matches whole (.not a) cs (some cs)
  | notFails {a : Peg} {cs rest : List Char} (h : Matches whole a cs (some rest)) :
    Matches whole (.not a) cs none
  | start : Matches whole .start whole (some whole)
  | startFails {cs : List Char} (h : cs ≠ whole) : Matches whole .start cs none
  | finish : Matches whole .finish [] (some [])
  | finishFails (c : Char) (cs : List Char) : Matches whole .finish (c :: cs) none

variable {whole : List Char}

/-- An expression fares in one way only. -/
theorem Matches.unique {e : Peg} {cs : List Char} {x y : Option (List Char)}
    (hx : Matches whole e cs x) (hy : Matches whole e cs y) : x = y := by
  induction hx generalizing y with
  | rule h ih =>
    cases hy with
    | rule h' => exact ih h'
  | text s cs =>
    cases hy
    rfl
  | char p cs =>
    cases hy
    rfl
  | seq first second ih ih' =>
    cases hy with
    | seq first' second' =>
      obtain rfl := Option.some.inj (ih first')
      exact ih' second'
    | seqFails first' => exact nomatch ih first'
  | seqFails first ih =>
    cases hy with
    | seq first' second' => exact nomatch ih first'
    | seqFails first' => rfl
  | choiceLeft h ih =>
    cases hy with
    | choiceLeft h' => exact ih h'
    | choiceRight fails h' => exact nomatch ih fails
  | choiceRight fails h ih ih' =>
    cases hy with
    | choiceLeft h' => exact nomatch ih h'
    | choiceRight fails' h' => exact ih' h'
  | present h ih =>
    cases hy with
    | present h' => exact ih h'
    | absent fails => exact nomatch ih fails
  | absent fails ih =>
    cases hy with
    | present h' => exact nomatch ih h'
    | absent fails' => rfl
  | stop fails ih =>
    cases hy with
    | stop fails' => rfl
    | more first others => exact nomatch ih first
  | more first others ih ih' =>
    cases hy with
    | stop fails' => exact nomatch ih fails'
    | more first' others' =>
      obtain rfl := Option.some.inj (ih first')
      exact ih' others'
  | not fails ih =>
    cases hy with
    | not fails' => rfl
    | notFails h' => exact nomatch ih h'
  | notFails h ih =>
    cases hy with
    | not fails' => exact nomatch ih fails'
    | notFails h' => rfl
  | start =>
    cases hy with
    | start => rfl
    | startFails h => exact absurd rfl h
  | startFails h =>
    cases hy with
    | start => exact absurd rfl h
    | startFails h' => rfl
  | finish =>
    cases hy
    rfl
  | finishFails c cs =>
    cases hy
    rfl

section Inversion

variable {a b : Peg} {cs rest : List Char}

theorem matches_rule {r : Rule} {x : Option (List Char)} :
    Matches whole (.rule r) cs x ↔ Matches whole (body r) cs x :=
  ⟨fun | .rule h => h, .rule⟩

theorem matches_seq_some : Matches whole (.seq a b) cs (some rest) ↔
    ∃ mid, Matches whole a cs (some mid) ∧ Matches whole b mid (some rest) := by
  constructor
  · rintro (_ | _)
    exact ⟨_, ‹_›, ‹_›⟩
  · rintro ⟨mid, ha, hb⟩
    exact .seq ha hb

theorem matches_choice_some : Matches whole (.choice a b) cs (some rest) ↔
    Matches whole a cs (some rest) ∨ Matches whole a cs none ∧ Matches whole b cs (some rest) := by
  constructor
  · intro h
    cases h with
    | choiceLeft h => exact .inl h
    | choiceRight fails h => exact .inr ⟨fails, h⟩
  · rintro (h | ⟨fails, h⟩)
    · exact .choiceLeft h
    · exact .choiceRight fails h

theorem matches_optional_some : Matches whole (.optional a) cs (some rest) ↔
    Matches whole a cs (some rest) ∨ Matches whole a cs none ∧ rest = cs := by
  constructor
  · intro h
    cases h with
    | present h => exact .inl h
    | absent fails => exact .inr ⟨fails, rfl⟩
  · rintro (h | ⟨fails, rfl⟩)
    · exact .present h
    · exact .absent fails

theorem matches_not_some :
    Matches whole (.not a) cs (some rest) ↔ Matches whole a cs none ∧ rest = cs := by
  constructor
  · intro h
    cases h with
    | not fails => exact ⟨fails, rfl⟩
  · rintro ⟨fails, rfl⟩
    exact .not fails

end Inversion

end Peg

end RangeRules
