import ObjectConsole.Decimal.Shortest

/-!
How a double is written out: when its digits stand around a point and when a power of ten
follows them. The choices are one record, and `Layout.write` applies it.
-/

namespace ObjectConsole.Decimal

/-- The choices of a number format. Numbers whose leading digit has a power of ten from `least`
to `greatest` are positional; other numbers show the power after the letter `e`, with its sign
and at least `exponentDigits` digits. -/
structure Layout where
  least : Int
  greatest : Int
  exponentDigits : Nat

def padZeros (width : Nat) (s : List Char) : List Char :=
  List.replicate (width - s.length) '0' ++ s

/-- Digits around a point; at least one digit stands on either side. -/
def positional (d : Digits) : List Char :=
  if d.power < 0 then
    '0' :: '.' :: (List.replicate ((-d.power).toNat - 1) '0' ++ d.digits)
  else
    let whole := d.power.toNat + 1
    let left := d.digits.take whole
    let right := d.digits.drop whole
    left ++ List.replicate (whole - left.length) '0' ++ ['.']
      ++ (if right.isEmpty then ['0'] else right)

/-- Digits with a point after the first, followed by the power of ten. A single digit has no
point. -/
def scientific (exponentDigits : Nat) (d : Digits) : List Char :=
  let mantissa :=
    match d.digits with
    | [] => ['0']
    | [digit] => [digit]
    | digit :: more => digit :: '.' :: more
  mantissa ++ ['e', if d.power < 0 then '-' else '+']
    ++ padZeros exponentDigits (natDigits d.power.natAbs)

def Layout.digits (l : Layout) (d : Digits) : List Char :=
  if l.least ≤ d.power ∧ d.power ≤ l.greatest then positional d
  else scientific l.exponentDigits d

def Layout.write (l : Layout) (x : Float) : List Char :=
  match decode x with
  | .nan => "nan".toList
  | .infinite negative => if negative then "-inf".toList else "inf".toList
  | .finite negative mantissa exponent =>
    let body := if mantissa = 0 then "0.0".toList else l.digits (shortest mantissa exponent)
    if negative then '-' :: body else body

/-- The console writes numbers from `0.0001` up to below `10 ^ 16` around a point, and all others
with a power of at least two digits. -/
def consoleLayout : Layout := ⟨-4, 15, 2⟩

def floatText (x : Float) : List Char := consoleLayout.write x

end ObjectConsole.Decimal
