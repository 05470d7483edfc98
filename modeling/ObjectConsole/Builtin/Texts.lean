import ObjectConsole.Builtin.Str
import ObjectConsole.Literal.Structured

/-!
Functions on texts behind the methods of strings and bytes. They know the letters and digits of
ASCII only: to other characters they do what they do to signs.
-/

namespace ObjectConsole.Builtin.Ascii

/-! ### Case -/

def swapCase (c : Char) : Char := if c.isUpper then c.toLower else c.toUpper

/-- The first letter of every run of letters as a capital, the others small. -/
def titleCase : Bool → List Char → List Char
  | _, [] => []
  | inside, c :: rest =>
    (if inside then c.toLower else c.toUpper) :: titleCase c.isAlpha rest

def capitalize : List Char → List Char
  | [] => []
  | c :: rest => c.toUpper :: rest.map Char.toLower

/-- Whether a text has letters, and none whose case is changed by a function. -/
def hasCase (change : Char → Char) (s : List Char) : Bool :=
  s.any Char.isAlpha && s.all fun c => change c == c

def isTitle (s : List Char) : Bool := s.any Char.isAlpha && titleCase false s == s

def isIdentifier (s : List Char) : Bool :=
  (s.head?.map fun c => c.isAlpha || c == '_').getD false && s.all fun c => c.isAlphanum || c == '_'

/-! ### Padding -/

def pad (side : Nat → Nat) (width : Int) (fill : Char) (s : List Char) : List Char :=
  let missing := width.toNat - s.length
  List.replicate (side missing) fill ++ s ++ List.replicate (missing - side missing) fill

/-- The blanks in front of a centred text: an odd one stands in front if the width is odd. -/
def centred (width : Int) (missing : Nat) : Nat := missing / 2 + (missing % 2) * (width.toNat % 2)

def zeroFill (width : Int) (s : List Char) : List Char :=
  match s with
  | c :: rest =>
    if c == '+' || c == '-' then c :: pad id (width - 1) '0' rest else pad id width '0' s
  | [] => pad id width '0' []

/-- A text with blanks for its tabs; `column` counts from the start of the line. -/
def expandTabs (size : Nat) : Nat → List Char → List Char
  | _, [] => []
  | column, c :: rest =>
    if c == '\t' then
      let width := if size = 0 then 0 else size - column % size
      List.replicate width ' ' ++ expandTabs size (column + width) rest
    else c :: expandTabs size (if c == '\n' || c == '\r' then 0 else column + 1) rest

/-! ### Cutting -/

def dropEnd (p : Char → Bool) (s : List Char) : List Char := (s.reverse.dropWhile p).reverse

def removeFront (t s : List Char) : List Char := if t.isPrefixOf s then s.drop t.length else s

def removeEnd (t s : List Char) : List Char :=
  if t.isSuffixOf s then s.take (s.length - t.length) else s

/-- What stands in front of the first occurrence of a text and behind it. -/
def cutAt (separator : List Char) (front : List Char) :
    List Char → Option (List Char × List Char)
  | [] => none
  | c :: rest =>
    if separator.isPrefixOf (c :: rest) then
      some (front.reverse, (c :: rest).drop separator.length)
    else cutAt separator (c :: front) rest

/-- A text in three parts: up to the first occurrence of a separator, the separator and the rest. -/
def partition (separator s : List Char) : List (List Char) :=
  match cutAt separator [] s with
  | some (front, back) => [front, separator, back]
  | none => [s, [], []]

/-- What a function makes of a text when it is read from its end. -/
def fromBehind (cut : List Char → List (List Char)) (s : List Char) : List (List Char) :=
  ((cut s.reverse).map List.reverse).reverse

def partitionLast (separator s : List Char) : List (List Char) :=
  fromBehind (partition separator.reverse) s

/-- The lines of a text, with their ends or without. -/
def lines (isEnd : Char → Bool) (keep : Bool) (line : List Char) : List Char → List (List Char)
  | [] => if line.isEmpty then [] else [line.reverse]
  | '\r' :: '\n' :: rest =>
    (line.reverse ++ if keep then ['\r', '\n'] else []) :: lines isEnd keep [] rest
  | c :: rest =>
    if isEnd c then (line.reverse ++ if keep then [c] else []) :: lines isEnd keep [] rest
    else lines isEnd keep (c :: line) rest

/-! ### Hexadecimal digits -/

def hexDigits (width n : Nat) : List Char :=
  let digits := Nat.toDigits 16 n
  List.replicate (width - digits.length) '0' ++ digits

def hexNumber (s : List Char) : Nat :=
  s.foldl (fun n c => 16 * n + (Literal.hexValue? c).getD 0) 0

/-- The longest run of hexadecimal digits that a text starts with, and the rest. -/
def takeHex (s : List Char) : List Char × List Char := s.span fun c => (Literal.hexValue? c).isSome

def takeSign : List Char → Bool × List Char
  | '+' :: rest => (false, rest)
  | '-' :: rest => (true, rest)
  | s => (false, s)

/-- The pairs of hexadecimal digits of a text as numbers, or the position of what is none. -/
def hexPairs (isBlank : Char → Bool) (position : Nat) : List Char → Except Nat (List Nat)
  | [] => .ok []
  | a :: rest =>
    if isBlank a then hexPairs isBlank (position + 1) rest
    else
      match Literal.hexValue? a, rest with
      | none, _ => .error position
      | some _, [] => .error (position + 1)
      | some high, b :: rest =>
        match Literal.hexValue? b with
        | none => .error (position + 1)
        | some low => do return (16 * high + low) :: (← hexPairs isBlank (position + 2) rest)

end ObjectConsole.Builtin.Ascii
