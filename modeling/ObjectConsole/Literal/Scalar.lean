import ObjectConsole.Literal.Numeral
import ObjectConsole.Line.Quote
import ObjectConsole.Text.Blank
import ObjectConsole.Width

/-!
Scalar literals: `null`, truth values in any case, integers in the narrowest width that holds
them, floating-point numbers and quoted strings. Outer blanks do not count.
-/

namespace ObjectConsole.Literal

inductive Scalar where
  | null
  | bool (b : Bool)
  | int (w : Width) (n : Int)
  | float (x : Float)
  | text (s : List Char)
  deriving DecidableEq

structure Overlong where
  digits : Nat
  deriving DecidableEq, Repr

/-- Reads the text between two quotes: a backslash before the quote or before a backslash stands
for that character, any other backslash for itself, and a bare quote is refused. -/
def unescape (quote : Char) : List Char → Option (List Char)
  | [] => some []
  | [c] => if c == quote then none else some [c]
  | c :: d :: rest =>
    if c == '\\' && (d == quote || d == '\\') then (unescape quote rest).map (d :: ·)
    else if c == quote then none
    else (unescape quote (d :: rest)).map (c :: ·)

/-- Reads a text that is one string in the given quote. -/
def unquote (quote : Char) : List Char → Option (List Char)
  | [] => none
  | c :: rest =>
    if c == quote && rest.getLast? == some quote then unescape quote rest.dropLast else none

/-- The integer that a text is in full, in the narrowest width that holds it. -/
def readInteger (s : List Char) : Except Overlong (Option (Width × Int)) :=
  match Numeral.read? s with
  | none => .ok none
  | some n =>
    if !n.isInteger then .ok none
    else if digitLimit < n.whole.length then .error ⟨n.whole.length⟩
    else .ok ((Width.narrowest? n.toInt).map fun w => (w, n.toInt))

def readTrimmed (s : List Char) : Except Overlong (Option Scalar) := do
  if s = "null".toList then return some .null
  if Text.lower s = "true".toList then return some (.bool true)
  if Text.lower s = "false".toList then return some (.bool false)
  match ← readInteger s with
  | some (w, n) => return some (.int w n)
  | none =>
    match Numeral.read? s with
    | some n => return some (.float n.toFloat)
    | none =>
      return ((unquote '"' s).or (unquote '\'' s)).map .text

def readScalar (s : List Char) : Except Overlong (Option Scalar) := readTrimmed (Text.trim s)

end ObjectConsole.Literal
