/-!
# Bindings

A map from names to values that keeps the order in which the names were first bound. Binding a name
again replaces its value and keeps its place.
-/
namespace RangeRules

structure Bindings (V : Type u) where
  entries : List (String × V)

namespace Bindings

/-- The entries with `name` bound to `value`. -/
def putEntry (name : String) (value : V) : List (String × V) → List (String × V)
  | [] => [(name, value)]
  | (n, v) :: rest => if n = name then (n, value) :: rest else (n, v) :: putEntry name value rest

def empty : Bindings V := ⟨[]⟩

def put (b : Bindings V) (name : String) (value : V) : Bindings V :=
  ⟨putEntry name value b.entries⟩

def get? (b : Bindings V) (name : String) : Option V := b.entries.lookup name

/-- Binds a name and returns the value that it had. -/
def insert (b : Bindings V) (name : String) (value : V) : Option V × Bindings V :=
  (b.get? name, b.put name value)

def contains (b : Bindings V) (name : String) : Bool := (b.get? name).isSome

def size (b : Bindings V) : Nat := b.entries.length

def isEmpty (b : Bindings V) : Bool := b.entries.isEmpty

def names (b : Bindings V) : List String := b.entries.map Prod.fst

/-- Where a name stands among the names. -/
def index? (b : Bindings V) (name : String) : Option Nat := b.names.idxOf? name

/-- Binds some names one after the other. -/
def extend (b : Bindings V) (entries : List (String × V)) : Bindings V :=
  entries.foldl (fun b (n, v) => b.put n v) b

def ofList (entries : List (String × V)) : Bindings V := empty.extend entries

/-- The same names with every value changed by a function. -/
def map (f : V → W) (b : Bindings V) : Bindings W := ⟨b.entries.map fun (n, v) => (n, f v)⟩

instance [BEq V] : BEq (Bindings V) := ⟨fun a b => a.entries == b.entries⟩

end Bindings

/-- What an expression may read: the given sources, and the variables assigned so far. -/
structure Environment (V : Type u) where
  sources : Bindings V
  locals : Bindings V

namespace Environment

def start (sources : Bindings V) : Environment V := ⟨sources, .empty⟩

def source? (env : Environment V) (name : String) : Option V := env.sources.get? name

def local? (env : Environment V) (name : String) : Option V := env.locals.get? name

/-- Assigns a variable, in place of any earlier assignment. -/
def bind (env : Environment V) (name : String) (value : V) : Environment V :=
  { env with locals := env.locals.put name value }

end Environment

end RangeRules
