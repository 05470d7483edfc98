import ObjectConsole.Decimal.Binary

/-!
Decimal numerals: an optional sign, digits with at most one point before, between or after
them, and an optional power of ten. Literals, structured data and highlighting share them.
-/

namespace ObjectConsole.Literal

def isDigit (c : Char) : Bool := '0' ≤ c && c ≤ '9'

def digitsValue (s : List Char) : Nat :=
  s.foldl (fun n c => 10 * n + (c.toNat - '0'.toNat)) 0

def takeDigits (s : List Char) : List Char × List Char := s.span isDigit

def takeSign : List Char → Option Char × List Char
  | '+' :: rest => (some '+', rest)
  | '-' :: rest => (some '-', rest)
  | s => (none, s)

structure Power where
  letter : Char
  sign : Option Char
  digits : List Char
  deriving DecidableEq, Repr

structure Numeral where
  sign : Option Char
  whole : List Char
  /-- The digits after the point, if there is a point. -/
  fraction : Option (List Char)
  power : Option Power
  deriving DecidableEq, Repr

/-- Reads a power of ten; a letter without digits behind it is none. -/
def takePower (s : List Char) : Option Power × List Char :=
  match s with
  | [] => (none, [])
  | letter :: rest =>
    if letter == 'e' || letter == 'E' then
      let (sign, afterSign) := takeSign rest
      let (digits, after) := takeDigits afterSign
      if digits.isEmpty then (none, s) else (some ⟨letter, sign, digits⟩, after)
    else (none, s)

/-- Reads the longest numeral at the head of a text: the numeral and what follows it. -/
def Numeral.take? (s : List Char) : Option (Numeral × List Char) :=
  let (sign, afterSign) := takeSign s
  let (whole, afterWhole) := takeDigits afterSign
  match afterWhole with
  | '.' :: rest =>
    let (fraction, afterFraction) := takeDigits rest
    if whole.isEmpty && fraction.isEmpty then none
    else
      let (power, after) := takePower afterFraction
      some (⟨sign, whole, some fraction, power⟩, after)
  | _ =>
    if whole.isEmpty then none
    else
      let (power, after) := takePower afterWhole
      some (⟨sign, whole, none, power⟩, after)

def Numeral.read? (s : List Char) : Option Numeral :=
  match Numeral.take? s with
  | some (n, []) => some n
  | _ => none

def Numeral.isInteger (n : Numeral) : Bool := n.fraction.isNone && n.power.isNone

def Numeral.negative (n : Numeral) : Bool := n.sign == some '-'

def Numeral.toInt (n : Numeral) : Int :=
  if n.negative then -(digitsValue n.whole : Int) else digitsValue n.whole

/-- The power of ten of the last digit written. -/
def Numeral.lastPower (n : Numeral) : Int :=
  let power : Int :=
    match n.power with
    | some p => if p.sign == some '-' then -(digitsValue p.digits : Int) else digitsValue p.digits
    | none => 0
  power - ((n.fraction.getD []).length : Int)

def Numeral.toFloat (n : Numeral) : Float :=
  Decimal.nearestDecimal n.negative (digitsValue (n.whole ++ n.fraction.getD [])) n.lastPower

/-- Longer runs of digits are not converted to integers. -/
def digitLimit : Nat := 4300

end ObjectConsole.Literal
