import RangeRules.Text.LineBreak.Class

/-!
# Line breaking

Where a line of text may be broken, by the classes of the characters on either side. A text is read
once, and what stands before the next character is kept as a short summary of what was read.
-/
namespace RangeRules.Text

/-- What was read before a character, as far as breaking depends on it. -/
structure Context where
  /-- The class of what stands before the last character: a space if spaces do. -/
  before? : Option BreakClass
  /-- The class of the last character, spaces and joined marks aside. -/
  last : BreakClass
  /-- Whether spaces follow it. -/
  spaced : Bool
  /-- Whether the very last character is a joiner. -/
  joined : Bool
  /-- Whether it is the first of two regional indicators. -/
  halfFlag : Bool

namespace BreakClass

def lineEnds : List BreakClass := [mandatory, carriageReturn, lineFeed, nextLine]

def endsLine (k : BreakClass) : Bool := k ∈ lineEnds

/-- Whether a mark joins a character of this class. -/
def takesMarks (k : BreakClass) : Bool := !k.endsLine && k ≠ space && k ≠ zeroSpace

def isMark (k : BreakClass) : Bool := k = mark || k = joiner

/-- Classes that no line starts with, even after spaces. -/
def neverFirst : List BreakClass :=
  lineEnds ++ [space, zeroSpace, wordJoiner, closing, closingParen, exclamation, separator, slash]

def openings : List BreakClass := [opening, wideOpening]

def quotes : List BreakClass := [quotation, openingQuote, closingQuote]

def letters : List BreakClass := [letter, hebrew, dottedCircle]

def pictures : List BreakClass := [ideograph, emojiBase, emojiModifier, reservedPicture]

def hangul : List BreakClass := [leading, vowel, trailing, openSyllable, closedSyllable]

/-- What an orthographic syllable may start with. -/
def aksaras : List BreakClass := [aksara, aksaraStart, dottedCircle]

/-- What may stand before an opening quotation mark that is joined to the text after it. -/
def beforeQuote : List BreakClass := lineEnds ++ openings ++ quotes ++ [glue, space, zeroSpace]

/-- What may stand after a closing quotation mark that is joined to the text before it. -/
def afterQuote : List BreakClass := neverFirst ++ quotes ++ [glue]

/-- Pairs of classes that stay together across spaces. -/
def together : List (List BreakClass × List BreakClass) :=
  [([closing, closingParen], [nonstarter]), ([dash], [dash])]

/-- Pairs of classes that stay together if nothing is between them. -/
def adjacent : List (List BreakClass × List BreakClass) :=
  [([slash], [hebrew]), (letters, [number]), ([number], letters),
   ([beforeNumber], pictures), (pictures, [afterNumber]),
   ([beforeNumber, afterNumber], letters), (letters, [beforeNumber, afterNumber]),
   ([closing, closingParen, number], [afterNumber, beforeNumber]),
   ([afterNumber, beforeNumber], number :: openings),
   ([hyphen, separator, number, slash], [number]),
   ([leading], [leading, vowel, openSyllable, closedSyllable]),
   ([vowel, openSyllable], [vowel, trailing]), ([trailing, closedSyllable], [trailing]),
   (hangul, [afterNumber]), ([beforeNumber], hangul), (letters, letters),
   ([beforeAksara], aksaras), (aksaras, [virama, finalVirama]), ([separator], letters),
   (number :: letters, [opening]), ([closingParen], number :: letters),
   ([emojiBase, reservedPicture], [emojiModifier])]

/-- Whether some pairs hold two classes in this order. -/
def paired (pairs : List (List BreakClass × List BreakClass)) (before after : BreakClass) : Bool :=
  pairs.any fun (firsts, seconds) => before ∈ firsts && after ∈ seconds

/-- The class of the first character that is no mark of the one before it. -/
def following? (ks : List BreakClass) : Option BreakClass := (ks.dropWhile isMark).head?

end BreakClass

namespace Context

open BreakClass

/-- Whether the last character is a quotation mark that is joined to the text after it. -/
def opensQuote (b : Context) : Bool := b.last = openingQuote && b.before?.all (· ∈ beforeQuote)

/-- Whether the next character continues the orthographic syllable of the last one. -/
def continuesSyllable (b : Context) (k : BreakClass) (ks : List BreakClass) : Bool :=
  (b.last = virama && k ∈ [aksara, dottedCircle] && b.before?.any (· ∈ aksaras)) ||
    (b.last ∈ aksaras && k ∈ aksaras && following? ks = some finalVirama)

/-- Whether the next character is kept on the line of the last one, with nothing between them. -/
def keeps (b : Context) (k : BreakClass) (ks : List BreakClass) : Bool :=
  if b.last = wordJoiner || b.last = glue then true
  else if k = glue && b.last ∉ [breakAfter, hyphen] then true
  else if b.last ∈ quotes || k ∈ quotes then true
  else if b.last = contingent || k = contingent then false
  else
    b.last = breakBefore || k ∈ [breakAfter, hyphen, nonstarter, ellipsis] ||
      (b.before? = some hebrew && b.last ∈ [breakAfter, hyphen]) ||
      (b.halfFlag && k = indicator) || b.continuesSyllable k ks || paired adjacent b.last k

/-- Whether a line may be broken before a character that joins none before it and has others after
it. -/
def breaks (b : Context) (k : BreakClass) (ks : List BreakClass) : Bool :=
  if b.last.endsLine then !(b.last = carriageReturn && k = lineFeed)
  else if k ∈ space :: zeroSpace :: lineEnds then false
  else if b.last = zeroSpace then true
  else if b.joined || k ∈ neverFirst || b.last ∈ openings || b.opensQuote then false
  else if k = closingQuote && (following? ks).all (· ∈ afterQuote) then false
  else if paired together b.last k then false
  else if b.spaced then true
  else !b.keeps k ks

/-- The summary of a text of one character. -/
def start (k : BreakClass) : Context :=
  if k = space then ⟨none, space, true, false, false⟩
  else ⟨none, if k.isMark then letter else k, false, k = joiner, k = indicator⟩

/-- The summary after one more character, which no mark joins to the last one. -/
def extend (b : Context) (k : BreakClass) : Context :=
  if k = space && !b.last.endsLine then ⟨b.before?, b.last, true, false, false⟩
  else
    let next := start k
    ⟨some (if b.spaced then space else b.last), next.last, next.spaced, next.joined,
      k = indicator && !(b.halfFlag && !b.spaced)⟩

/-- Whether a line may be broken before a character, with others after it, and the summary then. -/
def step (b : Context) (k : BreakClass) (ks : List BreakClass) : Bool × Context :=
  if k.isMark && b.last.takesMarks && !b.spaced then (false, { b with joined := k = joiner })
  else (b.breaks (if k.isMark then letter else k) ks, b.extend k)

end Context

/-- For each further class, whether a line may be broken before it; then the end, where it may. -/
def breaksFrom (b : Context) : List BreakClass → List Bool
  | [] => [true]
  | k :: ks =>
    let (breaks, next) := b.step k ks
    breaks :: breaksFrom next ks

/-- For each character of a text, whether a line may be broken after it. -/
def lineBreaks (cs : List Char) : List Bool :=
  match cs.map BreakClass.of with
  | [] => []
  | k :: ks => breaksFrom (.start k) ks

end RangeRules.Text
