import RangeRules.Diagnostic.Basic

/-!
# Inked texts

A report is drawn in pieces, each of which may have an ink. On a terminal the ink is an escape
sequence around the piece; elsewhere the pieces stand by themselves.
-/
namespace RangeRules.Report

inductive Ink where
  | severity (s : Severity)
  | frame
  | margin
  | source
  | label
  | help
deriving DecidableEq

/-- The parameter of the escape sequence that selects an ink. -/
def Ink.code : Ink → String
  | .severity .error => "31"
  | .severity .warning => "33"
  | .severity .info => "38;5;147"
  | .frame => "38;5;246"
  | .margin => "38;5;240"
  | .source => "38;5;249"
  | .label => "38;5;155"
  | .help => "38;5;115"

structure Piece where
  ink : Option Ink
  text : String

def Piece.plain (text : String) : Piece := ⟨none, text⟩

def Piece.inked (ink : Ink) (text : String) : Piece := ⟨some ink, text⟩

/-- A piece as it is written, with or without colour. -/
def Piece.written (colour : Bool) (p : Piece) : String :=
  match p.ink with
  | some ink => if colour then "\x1b[" ++ ink.code ++ "m" ++ p.text ++ "\x1b[0m" else p.text
  | none => p.text

abbrev Row := List Piece

def Row.written (colour : Bool) (row : Row) : String :=
  String.join (row.map (·.written colour)) ++ "\n"

/-- The same character over and over. -/
def repeated (n : Nat) (c : Char) : String := String.ofList (List.replicate n c)

def spaces (n : Nat) : Row := if n = 0 then [] else [.plain (repeated n ' ')]

/-- Some characters of one ink, each a piece of its own. -/
def strokes (ink : Ink) (cs : List Char) : Row := cs.map fun c => .inked ink (String.singleton c)

end RangeRules.Report
