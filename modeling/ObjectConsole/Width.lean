/-!
Integers of a fixed width. A literal takes the narrowest width that holds it.
-/

namespace ObjectConsole

inductive Width where
  | w8
  | w16
  | w32
  | w64
  deriving DecidableEq, Repr

namespace Width

def bits : Width → Nat
  | w8 => 8
  | w16 => 16
  | w32 => 32
  | w64 => 64

def least (w : Width) : Int := -(Nat.pow 2 (w.bits - 1))

def greatest (w : Width) : Int := Nat.pow 2 (w.bits - 1) - 1

def fits (w : Width) (n : Int) : Bool := w.least ≤ n && n ≤ w.greatest

def all : List Width := [w8, w16, w32, w64]

def name : Width → String
  | w8 => "Int8"
  | w16 => "Int16"
  | w32 => "Int32"
  | w64 => "Int64"

/-- The narrowest width that holds an integer. -/
def narrowest? (n : Int) : Option Width := all.find? (·.fits n)

end Width

end ObjectConsole
