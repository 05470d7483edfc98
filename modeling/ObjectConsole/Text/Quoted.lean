import ObjectConsole.Text.Printable

/-!
The quoted display form of a text, as it appears inside messages and inside the display of
collections. It stands between apostrophes, unless it holds an apostrophe and no double quote.
-/

namespace ObjectConsole.Text

def hex (width n : Nat) : List Char :=
  (List.range width).reverse.map fun i => Nat.digitChar (n / Nat.pow 16 i % 16)

def displayQuote (s : List Char) : Char :=
  if s.contains '\'' && !s.contains '"' then '"' else '\''

/-- One character inside a display form: the quote and the backslash are escaped, tab and line
ends have short forms, and what is not printable is given by its code point. -/
def displayChar (quote c : Char) : List Char :=
  if c == quote || c == '\\' then ['\\', c]
  else if c == '\t' then ['\\', 't']
  else if c == '\n' then ['\\', 'n']
  else if c == '\r' then ['\\', 'r']
  else if isPrintable c then [c]
  else
    let n := c.toNat
    if n < 0x100 then '\\' :: 'x' :: hex 2 n
    else if n < 0x10000 then '\\' :: 'u' :: hex 4 n
    else '\\' :: 'U' :: hex 8 n

def display (s : List Char) : List Char :=
  let quote := displayQuote s
  quote :: s.flatMap (displayChar quote) ++ [quote]

def displayString (s : String) : String := String.ofList (display s.toList)

def displayByte (quote : Char) (b : UInt8) : List Char :=
  let c := Char.ofNat b.toNat
  if b.toNat < 0x7f then displayChar quote c else '\\' :: 'x' :: hex 2 b.toNat

def displayBytes (data : List UInt8) : String :=
  let quote := displayQuote (data.map fun b => Char.ofNat b.toNat)
  String.ofList ('b' :: quote :: data.flatMap (displayByte quote) ++ [quote])

end ObjectConsole.Text
