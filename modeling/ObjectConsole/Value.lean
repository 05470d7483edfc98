import ObjectConsole.Width

/-!
Values. A value is a scalar, a tuple of values, or a reference to a cell of the store; lists,
tables and class instances live in cells, so that two holders of one reference see each other's
changes.
-/

namespace ObjectConsole

/-- The name of a class and the module that it belongs to. Classes of the language itself have
an empty home. -/
structure ClassName where
  home : String
  name : String
  deriving DecidableEq, Repr, Inhabited

namespace ClassName

def core (name : String) : ClassName := ⟨"", name⟩

def qualified (c : ClassName) : String :=
  if c.home.isEmpty then c.name else c.home ++ "." ++ c.name

def ofWidth (w : Width) : ClassName := ⟨"autoconsole.types", w.name⟩

end ClassName

abbrev Ref := Nat

/-- A value. An integer of a fixed width is an object that can carry attributes of its own: `own`
is the cell that keeps them, or `none` while nothing holds the integer. -/
inductive Value where
  | null
  | bool (b : Bool)
  | int (n : Int)
  | sized (w : Width) (n : Int) (own : Option Ref)
  | float (x : Float)
  | text (s : String)
  | bytes (data : List UInt8)
  | choice (cls : ClassName) (member : String)
  | tuple (items : List Value)
  | object (r : Ref)
  deriving Inhabited

namespace Value

def isNull : Value → Bool
  | null => true
  | _ => false

/-- The integer that a value is. Truth values are not integers here. -/
def asInt? : Value → Option Int
  | int n => some n
  | sized _ n _ => some n
  | _ => none

mutual

/-- How deep tuples nest in a value. -/
def depth : Value → Nat
  | tuple items => depthAll items + 1
  | _ => 0

def depthAll : List Value → Nat
  | [] => 0
  | v :: vs => max v.depth (depthAll vs)

end

end Value

end ObjectConsole
