import ObjectConsole.Literal.Scalar

/-!
Structured data: nested lists and keyed tables of strings, numbers, truth values and null, with
blanks between the tokens. Numbers may have a plus sign, leading zeros, and a point without
digits on one side of it.
-/

namespace ObjectConsole.Literal

/-- A string as the numbers of its code points. Among them may be halves of surrogate pairs, which
are no characters. -/
abbrev Codes := List Nat

/-- Structured data. The keys of a table are distinct and stand in the order of their first
appearance. -/
inductive Tree where
  | null
  | bool (b : Bool)
  | int (n : Int)
  | float (x : Float)
  | text (s : Codes)
  | list (items : List Tree)
  | table (entries : List (Codes × Tree))

def isSpace (c : Char) : Bool :=
  c == ' ' || c == '\t' || c == '\x0c' || c == '\r' || c == '\n'

def skipSpace (s : List Char) : List Char := s.dropWhile isSpace

def hexValue? (c : Char) : Option Nat :=
  if '0' ≤ c && c ≤ '9' then some (c.toNat - '0'.toNat)
  else if 'a' ≤ c && c ≤ 'f' then some (c.toNat - 'a'.toNat + 10)
  else if 'A' ≤ c && c ≤ 'F' then some (c.toNat - 'A'.toNat + 10)
  else none

def takeUnit : List Char → Option (Nat × List Char)
  | a :: b :: c :: d :: rest => do
    let a ← hexValue? a
    let b ← hexValue? b
    let c ← hexValue? c
    let d ← hexValue? d
    return (((a * 16 + b) * 16 + c) * 16 + d, rest)
  | _ => none

def isHighHalf (u : Nat) : Bool := 0xD800 ≤ u && u < 0xDC00

def isLowHalf (u : Nat) : Bool := 0xDC00 ≤ u && u < 0xE000

def isHalf (u : Nat) : Bool := isHighHalf u || isLowHalf u

/-- The text of code points. The replacement character stands for half of a surrogate pair. -/
def Codes.text (s : Codes) : List Char :=
  s.map fun u => if isHalf u then '\ufffd' else Char.ofNat u

/-- Reads a code point given by 16-bit units: one, or the two halves of a surrogate pair. -/
def takeUnits (s : List Char) : Option (Nat × List Char) := do
  let (u, rest) ← takeUnit s
  match isHighHalf u, rest with
  | true, '\\' :: 'u' :: more =>
    let (v, after) ← takeUnit more
    if isLowHalf v then return (0x10000 + (u - 0xD800) * 0x400 + (v - 0xDC00), after)
    else return (u, rest)
  | _, _ => return (u, rest)

def shortEscape? (c : Char) : Option Char :=
  if c == '"' || c == '\\' || c == '/' then some c
  else if c == 'b' then some '\x08'
  else if c == 'f' then some '\x0c'
  else if c == 'n' then some '\n'
  else if c == 'r' then some '\r'
  else if c == 't' then some '\t'
  else none

/-- Reads one character of a string, or `none` at the closing quote. Control characters are not
allowed, nor backslashes before other characters than the escapes. -/
def takeStringChar : List Char → Option (Option Nat × List Char)
  | [] => none
  | '"' :: rest => some (none, rest)
  | '\\' :: 'u' :: rest => (takeUnits rest).map fun (c, after) => (some c, after)
  | '\\' :: c :: rest => (shortEscape? c).map fun d => (some d.toNat, rest)
  | c :: rest => if c.toNat < 0x20 || c == '\\' then none else some (some c.toNat, rest)

/-- Reads the characters of a string behind its opening quote, through the closing one. The fuel
is the number of characters that may be read. -/
def takeString : Nat → List Char → Option (Codes × List Char)
  | 0, _ => none
  | fuel + 1, s =>
    match takeStringChar s with
    | none => none
    | some (none, rest) => some ([], rest)
    | some (some c, rest) => (takeString fuel rest).map fun (cs, after) => (c :: cs, after)

def takeNumber (s : List Char) : Option (Tree × List Char) := do
  let (n, rest) ← Numeral.take? s
  if n.isInteger then
    if digitLimit < n.whole.length then none else return (.int n.toInt, rest)
  else return (.float n.toFloat, rest)

/-- Sets a key: the value of a key that is there already is replaced at its place. -/
def setKey (key : Codes) (value : Tree) : List (Codes × Tree) → List (Codes × Tree)
  | [] => [(key, value)]
  | (k, v) :: rest =>
    if k = key then (k, value) :: rest else (k, v) :: setKey key value rest

/-- The table that pairs write: the last value of a key counts, at the key's first place. -/
def tableOf (pairs : List (Codes × Tree)) : List (Codes × Tree) :=
  pairs.foldl (fun entries (key, value) => setKey key value entries) []

def takeWord : List Char → List Char → Option (List Char)
  | [], s => some s
  | w :: word, c :: s => if w = c then takeWord word s else none
  | _ :: _, [] => none

mutual

/-- Reads a value at the head of a text without blanks before it. The fuel bounds the nesting and
the number of items. -/
def takeValue : Nat → List Char → Option (Tree × List Char)
  | 0, _ => none
  | fuel + 1, s =>
    match s with
    | [] => none
    | '[' :: rest =>
      match skipSpace rest with
      | ']' :: after => some (.list [], after)
      | items => (takeItems fuel items).map fun (items, after) => (.list items, after)
    | '\x7b' :: rest =>
      match skipSpace rest with
      | '\x7d' :: after => some (.table [], after)
      | pairs => (takePairs fuel pairs).map fun (pairs, after) => (.table (tableOf pairs), after)
    | '"' :: rest => (takeString s.length rest).map fun (cs, after) => (.text cs, after)
    | 't' :: _ => (takeWord "true".toList s).map fun after => (.bool true, after)
    | 'f' :: _ => (takeWord "false".toList s).map fun after => (.bool false, after)
    | 'n' :: _ => (takeWord "null".toList s).map fun after => (.null, after)
    | _ => takeNumber s

def takeItems : Nat → List Char → Option (List Tree × List Char)
  | 0, _ => none
  | fuel + 1, s => do
    let (item, rest) ← takeValue fuel s
    match skipSpace rest with
    | ',' :: more =>
      let (items, after) ← takeItems fuel (skipSpace more)
      return (item :: items, after)
    | ']' :: after => return ([item], after)
    | _ => none

def takePairs : Nat → List Char → Option (List (Codes × Tree) × List Char)
  | 0, _ => none
  | fuel + 1, s =>
    match s with
    | '"' :: rest => do
      let (key, rest) ← takeString s.length rest
      match skipSpace rest with
      | ':' :: rest =>
        let (value, rest) ← takeValue fuel (skipSpace rest)
        match skipSpace rest with
        | ',' :: more =>
          let (pairs, after) ← takePairs fuel (skipSpace more)
          return ((key, value) :: pairs, after)
        | '\x7d' :: after => return ([(key, value)], after)
        | _ => none
      | _ => none
    | _ => none

end

def readStructured (s : List Char) : Option Tree := do
  let (tree, rest) ← takeValue (s.length + 1) (skipSpace s)
  if (skipSpace rest).isEmpty then return tree else none

end ObjectConsole.Literal
