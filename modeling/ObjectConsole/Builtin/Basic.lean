import ObjectConsole.Class
import ObjectConsole.Compare
import ObjectConsole.Display
import ObjectConsole.Text.Blank
import ObjectConsole.Text.Upper

/-!
Pieces for the member tables of the built-in classes: parameters, and the conversions that their
methods make of the arguments.
-/

namespace ObjectConsole.Builtin

/-- A parameter that takes anything and must be given. -/
def needs (name : String) : Param := { name }

/-- A parameter that takes anything and may be left out. -/
def allows (name : String) (default : Value) : Param := { name, default := some default }

def method (name : String) (params : List Param) (run : Value → List Value → Act Value) :
    String × Member :=
  (name, .method { params, run })

def readOnly (name : String) (get : Value → Act Value) : String × Member :=
  (name, .accessor { get := some get })

def arg (args : List Value) (i : Nat) : Value := args[i]?.getD .null

/-- An integer that a value can be used as: truth values count as zero and one. -/
def indexValue? : Value → Option Int
  | .bool b => some (if b then 1 else 0)
  | .int n | .sized _ n _ => some n
  | _ => none

def indexArg (v : Value) : Act Int := do
  match indexValue? v with
  | some n =>
    if -(Nat.pow 2 63) ≤ n ∧ n < Nat.pow 2 63 then return n
    else Act.raise "OverflowError" "Python int too large to convert to C ssize_t"
  | none =>
    Act.raise "TypeError"
      ("'" ++ (← get).className v ++ "' object cannot be interpreted as an integer")

/-- An argument that bounds a range of positions. -/
def boundArg (v : Value) : Act Int := do
  match indexValue? v with
  | some n => return max (-(Nat.pow 2 63)) (min n (Nat.pow 2 63 - 1))
  | none =>
    Act.raise "TypeError" "slice indices must be integers or have an __index__ method"

/-- The items that a value yields one by one. -/
def iterate (v : Value) : Act (List Value) := do
  let w ← get
  match v with
  | .text s => return s.toList.map fun c => .text c.toString
  | .bytes data => return data.map fun b => .int b.toNat
  | _ =>
    match w.items? v, w.table? v with
    | some items, _ => return items
    | none, some (_, entries) => return entries.map (·.1)
    | none, none => Act.raise "TypeError" ("'" ++ w.className v ++ "' object is not iterable")

/-- Counts from the end what is negative: a position in a sequence of the given length, at least
zero. -/
def fromEnd (n : Int) (length : Nat) : Nat := (if n < 0 then n + length else n).toNat

/-- The position of a value among the items from `start` up to `stop`. -/
def positionOf (eq : Value → Bool) (items : List Value) (start stop : Int) : Option Nat :=
  let first := fromEnd start items.length
  let last := fromEnd stop items.length
  (((items.take last).drop first).findIdx? eq).map (· + first)

end ObjectConsole.Builtin
