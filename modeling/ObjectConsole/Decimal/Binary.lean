/-!
Double-precision numbers as exact values. A finite double is a signed whole number of at most
53 bits times a power of two between `-1074` and `971`; `decode` reads it off, and `nearest`
goes back from a quotient of natural numbers, rounding to the nearest double and to the even
neighbour in a tie.
-/

namespace ObjectConsole.Decimal

/-- What a double stands for: no number, an infinity, or `± mantissa * 2 ^ exponent`. -/
inductive Binary where
  | nan
  | infinite (negative : Bool)
  | finite (negative : Bool) (mantissa : Nat) (exponent : Int)
  deriving DecidableEq, Repr

def leastExponent : Int := -1074

def greatestExponent : Int := 971

/-- The value that a double's bits stand for. -/
def decode (x : Float) : Binary :=
  let bits : Nat := x.toBits.toNat
  let negative := decide (Nat.pow 2 63 ≤ bits)
  let field : Nat := bits / Nat.pow 2 52 % Nat.pow 2 11
  let fraction : Nat := bits % Nat.pow 2 52
  if field = 2047 then
    if fraction = 0 then .infinite negative else .nan
  else if field = 0 then .finite negative fraction leastExponent
  else .finite negative (Nat.pow 2 52 + fraction) ((field : Int) - 1075)

/-- The double with the given value, for a mantissa below `2 ^ 53` that is at least `2 ^ 52`
unless the exponent is the least one. -/
def encode (negative : Bool) (mantissa : Nat) (exponent : Int) : Float :=
  let sign := if negative then Nat.pow 2 63 else 0
  let magnitude :=
    if mantissa < Nat.pow 2 52 then mantissa
    else (exponent + 1075).toNat * Nat.pow 2 52 + (mantissa - Nat.pow 2 52)
  Float.ofBits (UInt64.ofNat (sign + magnitude))

def infinity (negative : Bool) : Float :=
  Float.ofBits (UInt64.ofNat ((if negative then Nat.pow 2 63 else 0) + 2047 * Nat.pow 2 52))

/-- The quotient of two natural numbers, rounded to a natural number: to the nearest, and to
the even one of two equally near. -/
def roundDiv (num den : Nat) : Nat :=
  let low := num / den
  let rest := 2 * (num % den)
  if rest < den then low
  else if rest = den then low + low % 2
  else low + 1

/-- `num * 2 ^ (-e) / den` as a quotient of natural numbers. -/
def scaleBy (num den : Nat) (e : Int) : Nat × Nat :=
  if e < 0 then (num * Nat.pow 2 (-e).toNat, den) else (num, den * Nat.pow 2 e.toNat)

/-- The power of two in whose steps the doubles near `num / den` lie. -/
def stepExponent (num den : Nat) : Int :=
  let guess : Int := (num.log2 : Int) - (den.log2 : Int) - 53
  let (n, d) := scaleBy num den guess
  max leastExponent (if Nat.pow 2 53 ≤ n / d then guess + 1 else guess)

/-- The double nearest to `num / den`, the even one of two equally near. A quotient that rounds
to `2 ^ 1024` or more gives infinity. -/
def nearest (negative : Bool) (num den : Nat) : Float :=
  if num = 0 then encode negative 0 leastExponent
  else
    let e := stepExponent num den
    let (n, d) := scaleBy num den e
    let m := roundDiv n d
    let (m, e) := if m = Nat.pow 2 53 then (Nat.pow 2 52, e + 1) else (m, e)
    if greatestExponent < e then infinity negative else encode negative m e

/-- The double nearest to `digits * 10 ^ exponent`. Exponents far outside the range of doubles
are decided without computing the power. -/
def nearestDecimal (negative : Bool) (digits : Nat) (exponent : Int) : Float :=
  if digits = 0 then encode negative 0 leastExponent
  else
    let size : Int := (digits.log2 : Int) * 30103 / 100000
    if 400 < size + exponent then infinity negative
    else if size + exponent < -400 then encode negative 0 leastExponent
    else if exponent < 0 then nearest negative digits (Nat.pow 10 (-exponent).toNat)
    else nearest negative (digits * Nat.pow 10 exponent.toNat) 1

def ofInt? (n : Int) : Option Float :=
  let x := nearest (decide (n < 0)) n.natAbs 1
  match decode x with
  | .finite .. => some x
  | _ => none

def toInt? (x : Float) : Option Int :=
  match decode x with
  | .finite negative mantissa exponent =>
    let (n, d) := scaleBy mantissa 1 (-exponent)
    if n % d = 0 then
      some (if negative then -((n / d : Nat) : Int) else ((n / d : Nat) : Int))
    else none
  | _ => none

end ObjectConsole.Decimal
