import RangeRules.Bindings.Basic
import RangeRules.Number.Numeral
import RangeRules.Text.Blank
import RangeRules.Value.Abstract

/-!
# Source arguments

A source is given to the command as `NAME=SPEC`, where the name may be written as in a program,
`this.NAME`. A specification is a number, a range `LO..HI` with either side left out if it is
unbounded, `true`, `false`, or `bool` for either. A range becomes an interval only when a run on
abstract values asks for one, so that its bounds are not compared before.
-/
namespace RangeRules

open Text (trim)

inductive SourceSpec where
  | number (x : Number)
  | range (lo hi : Number)
  | boolean (b : Bool)
  | anyBoolean

structure SourceArgument where
  name : String
  spec : SourceSpec

/-- Why an argument is refused. -/
inductive SourceError where
  | missingName (text : String)
  | invalidSpec (text : String)
  | invalidRange (cause : IntervalError)
  | notConcrete (name : String)

namespace SourceError

def message : SourceError → String
  | .missingName text => s!"expected NAME=SPEC, got `{text}`"
  | .invalidSpec text =>
    s!"invalid value `{text}`; expected a number, LO..HI, `..`, true, false or bool"
  | .invalidRange cause => s!"invalid range: {cause.message}"
  | .notConcrete name => s!"source `{name}` needs a single value when running concretely"

/-- The error that led to this one. -/
def cause? : SourceError → Option String
  | .invalidRange cause => some cause.message
  | _ => none

end SourceError

namespace SourceSpec

/-- The texts before and after the first two points in a row. -/
def splitRange? : List Char → Option (List Char × List Char)
  | '.' :: '.' :: rest => some ([], rest)
  | c :: rest => (splitRange? rest).map fun (before, after) => (c :: before, after)
  | [] => none

/-- A side of a range, `unbounded` if nothing is written. -/
def bound? (unbounded : Number) (cs : List Char) : Option Number :=
  match trim cs with
  | [] => some unbounded
  | cs => Number.read? cs

/-- A specification other than a word. -/
def numeric? (cs : List Char) : Option SourceSpec :=
  match splitRange? cs with
  | some (lo, hi) => do
    let lo ← bound? (-Number.infinity) lo
    let hi ← bound? Number.infinity hi
    return .range lo hi
  | none => do
    let x ← Number.read? cs
    if x.isFinite then some (.number x) else none

def read (cs : List Char) : Except SourceError SourceSpec :=
  let cs := trim cs
  let text := String.ofList cs
  match text with
  | "true" => .ok (.boolean true)
  | "false" => .ok (.boolean false)
  | "bool" => .ok .anyBoolean
  | _ =>
    match numeric? cs with
    | some spec => .ok spec
    | none => .error (.invalidSpec text)

/-- The values that a specification admits. -/
def toAbstract : SourceSpec → Except SourceError AbstractValue
  | .number x => .ok (.interval (.singleton x))
  | .range lo hi =>
    match Interval.make? lo hi with
    | .ok i => .ok (.interval i)
    | .error cause => .error (.invalidRange cause)
  | .boolean b => .ok (.boolean (.singleton b))
  | .anyBoolean => .ok (.boolean .both)

/-- The only value that a specification admits, if it names one. -/
def toConcrete? : SourceSpec → Option Value
  | .number x => some (.number x)
  | .range lo hi => if lo == hi then some (.number lo) else none
  | .boolean b => some (.boolean b)
  | .anyBoolean => none

end SourceSpec

namespace SourceArgument

/-- The texts before and after the first equals sign. -/
def splitEquals? : List Char → Option (List Char × List Char)
  | [] => none
  | c :: rest =>
    if c = '=' then some ([], rest)
    else (splitEquals? rest).map fun (before, after) => (c :: before, after)

/-- A name as a program reads it, without the `this.` that it may be written with. -/
def bareName : List Char → List Char
  | 't' :: 'h' :: 'i' :: 's' :: '.' :: rest => rest
  | cs => cs

def read (cs : List Char) : Except SourceError SourceArgument :=
  match splitEquals? cs with
  | none => .error (.missingName (String.ofList cs))
  | some (before, after) =>
    match bareName (trim before) with
    | [] => .error (.missingName (String.ofList cs))
    | name => do return ⟨String.ofList name, ← SourceSpec.read after⟩

/-- The sources of a run without arguments. -/
def defaultAbstract : Bindings AbstractValue :=
  .ofList [("x", .interval ⟨0.0, 10.0⟩), ("y", .interval ⟨-100.0, 100.0⟩), ("b", .boolean .both)]

/-- The sources of a run on values without arguments. -/
def defaultConcrete : Bindings Value :=
  .ofList [("x", .number 10.0), ("y", .number 20.0), ("b", .boolean true)]

/-- The sources that arguments give to a run on abstract values. -/
def abstractSources (args : List SourceArgument) : Except SourceError (Bindings AbstractValue) :=
  if args.isEmpty then .ok defaultAbstract
  else do
    return .ofList (← args.mapM fun a => do return (a.name, ← a.spec.toAbstract))

/-- The sources that arguments give to a run on values. -/
def concreteSources (args : List SourceArgument) : Except SourceError (Bindings Value) :=
  if args.isEmpty then .ok defaultConcrete
  else do
    return .ofList (← args.mapM fun a =>
      match a.spec.toConcrete? with
      | some v => .ok (a.name, v)
      | none => .error (.notConcrete a.name))

end SourceArgument

end RangeRules
