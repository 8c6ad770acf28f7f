import Mathlib
import RangeRules.Bindings.Basic

/-!
# Bindings with an index

The map of `Bindings` as it is stored: beside the entries, in the order in which their names were
first bound, a hash table takes every name to the position of its entry. A name is looked up in the
table, a value at a position, and only a name that the table does not have adds an entry.
-/
namespace RangeRules

/-- A position that is not one of the entries would be a fault; `Bindings.Implements` rules it out
for every map that is built by `insert`, `extend` and `ofList`. -/
@[ext]
structure IndexedBindings (V : Type u) where
  entries : List (String × V)
  index : Std.ExtHashMap String Nat

namespace IndexedBindings

def empty : IndexedBindings V := ⟨[], ∅⟩

/-- Binds a name and returns the value that it had. -/
def insert (m : IndexedBindings V) (name : String) (value : V) : Option V × IndexedBindings V :=
  match m.index[name]? with
  | some i =>
    (m.entries[i]?.map Prod.snd, { m with entries := m.entries.modify i fun (n, _) => (n, value) })
  | none => (none, ⟨m.entries ++ [(name, value)], m.index.insert name m.entries.length⟩)

def get? (m : IndexedBindings V) (name : String) : Option V :=
  m.index[name]?.bind fun i => m.entries[i]?.map Prod.snd

def contains (m : IndexedBindings V) (name : String) : Bool := m.index.contains name

def names (m : IndexedBindings V) : List String := m.entries.map Prod.fst

/-- Binds some names one after the other. -/
def extend (m : IndexedBindings V) (entries : List (String × V)) : IndexedBindings V :=
  entries.foldl (fun m (n, v) => (m.insert n v).2) m

/-- A new map of what is collected. -/
def ofList (entries : List (String × V)) : IndexedBindings V := empty.extend entries

/-- Maps are compared in both of their parts. -/
instance [BEq V] : BEq (IndexedBindings V) :=
  ⟨fun a b => a.entries == b.entries && a.index == b.index⟩

end IndexedBindings

/-- What may be done to a map: bind one name, bind some one after the other, or collect a new map
in its place. -/
inductive Change (V : Type u) where
  | insert (name : String) (value : V)
  | extend (entries : List (String × V))
  | collect (entries : List (String × V))

namespace Change

/-- What was bound since the last collection, the earliest first. -/
def written (changes : List (Change V)) : List (String × V) :=
  changes.foldl (fun history change => match change with
    | insert name value => history ++ [(name, value)]
    | extend entries => history ++ entries
    | collect entries => entries) []

end Change

/-- The map after some changes to the empty one. -/
def IndexedBindings.after (changes : List (Change V)) : IndexedBindings V :=
  changes.foldl (fun m change => match change with
    | .insert name value => (m.insert name value).2
    | .extend entries => m.extend entries
    | .collect entries => .ofList entries) .empty

def Bindings.after (changes : List (Change V)) : Bindings V :=
  changes.foldl (fun b change => match change with
    | .insert name value => (b.insert name value).2
    | .extend entries => b.extend entries
    | .collect entries => .ofList entries) .empty

end RangeRules
