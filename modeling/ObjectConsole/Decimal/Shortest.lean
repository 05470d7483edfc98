import ObjectConsole.Decimal.Binary

/-!
The fewest decimal digits that read back as a given double. Around a double `mantissa * 2 ^ e`
lies the interval of numbers that round to it. For each count of digits from one up, only the
two decimal neighbours of the double with that many digits can lie in the interval before any
other does; the first count with a neighbour inside wins, and of two neighbours the nearer.
-/

namespace ObjectConsole.Decimal

structure Digits where
  digits : List Char
  power : Int
  deriving DecidableEq, Repr

/-- A double, its rounding interval and a decimal grid, all in one unit: the double is `value`,
numbers from `low` to `high` round to it (the ends too if `closed`), and the grid's points are
the multiples of `step`. -/
structure Window where
  value : Nat
  low : Nat
  high : Nat
  closed : Bool
  step : Nat

def Window.holds (w : Window) (multiple : Nat) : Bool :=
  let point := multiple * w.step
  if w.closed then w.low ≤ point && point ≤ w.high else w.low < point && point < w.high

/-- The multiple of the step that rounds to the double and is nearest to it, the even one of
two equally near. -/
def Window.pick (w : Window) : Option Nat :=
  let below := w.value / w.step
  let above := below + 1
  let toBelow := w.value - below * w.step
  let toAbove := above * w.step - w.value
  match w.holds below, w.holds above with
  | true, true =>
    if toBelow < toAbove then some below
    else if toAbove < toBelow then some above
    else some (if below % 2 = 0 then below else above)
  | true, false => some below
  | false, true => some above
  | false, false => none

/-- The window of `mantissa * 2 ^ exponent` on the grid of the multiples of `10 ^ power`. -/
def Window.of (mantissa : Nat) (exponent power : Int) : Window :=
  -- a quarter of the distance between neighbouring doubles, over the grid's step
  let quarter := Nat.pow 2 (exponent - 2).toNat * Nat.pow 10 (-power).toNat
  let step := Nat.pow 10 power.toNat * Nat.pow 2 (2 - exponent).toNat
  -- below a power of two the doubles lie twice as close
  let down := if mantissa = Nat.pow 2 52 && leastExponent < exponent then 1 else 2
  { value := 4 * mantissa * quarter
    low := (4 * mantissa - down) * quarter
    high := (4 * mantissa + 2) * quarter
    closed := mantissa % 2 == 0
    step := step }

def leadingPower (mantissa : Nat) (exponent : Int) : Int :=
  let guess := ((mantissa.log2 : Int) + exponent) * 30103 / 100000
  let w := Window.of mantissa exponent (guess + 1)
  if w.step ≤ w.value then guess + 1 else guess

/-- Tries `count`, `count + 1`, … digits, at most `tries` times. -/
def shortestFrom (mantissa : Nat) (exponent lead : Int) : Nat → Nat → Nat × Int
  | 0, _ => (mantissa, 0)
  | tries + 1, count =>
    let power := lead - (count : Int) + 1
    match (Window.of mantissa exponent power).pick with
    | some multiple => (multiple, power)
    | none => shortestFrom mantissa exponent lead tries (count + 1)

def natDigits (n : Nat) : List Char := Nat.toDigits 10 n

def dropTrailingZeros (s : List Char) : List Char :=
  (s.reverse.dropWhile (· == '0')).reverse

/-- The fewest digits that read back as the positive double `mantissa * 2 ^ exponent`. Seventeen
always suffice. -/
def shortest (mantissa : Nat) (exponent : Int) : Digits :=
  let (multiple, power) := shortestFrom mantissa exponent (leadingPower mantissa exponent) 17 1
  let all := natDigits multiple
  { digits := dropTrailingZeros all
    power := power + ((all.length : Int) - 1) }

end ObjectConsole.Decimal
