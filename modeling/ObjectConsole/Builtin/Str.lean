import ObjectConsole.Builtin.Library

/-!
The members of strings and of bytes. Neither have properties.
-/

namespace ObjectConsole.Builtin

/-- Splits a text in front of every occurrence of a separator, at most `limit` times if there is
a limit. Looks at one character after the other; `piece` holds what was read since the last
cut, last character first, and `skip` how much of a separator is still to be passed over. -/
def splitText (separator : List Char) (piece : List Char) (skip : Nat) (limit : Option Nat) :
    List Char → List (List Char)
  | [] => [piece.reverse]
  | c :: rest =>
    if 0 < skip then splitText separator piece (skip - 1) limit rest
    else if limit == some 0 || !separator.isPrefixOf (c :: rest) then
      splitText separator (c :: piece) 0 limit rest
    else
      piece.reverse :: splitText separator [] (separator.length - 1) (limit.map (· - 1)) rest

/-- Splits a text into words at blanks, at most `limit` times if there is a limit; the rest of
the text follows the last cut without its leading blanks. -/
def splitBlank (isBlank : Char → Bool) (limit : Option Nat) : Nat → List Char → List (List Char)
  | 0, _ => []
  | fuel + 1, s =>
    let s := s.dropWhile isBlank
    if s.isEmpty then []
    else if limit == some 0 then [s]
    else
      let (word, rest) := s.span fun c => !isBlank c
      word :: splitBlank isBlank (limit.map (· - 1)) fuel rest

def interleave (new : List Char) : Option Nat → List Char → List Char
  | some 0, s => s
  | _, [] => new
  | limit, c :: rest => new ++ c :: interleave new (limit.map (· - 1)) rest

def replaceText (old new : List Char) (limit : Option Nat) (s : List Char) : List Char :=
  if old.isEmpty then interleave new limit s
  else new.intercalate (splitText old [] 0 limit s)

/-- The greatest number of cuts or replacements; a negative number sets no limit. -/
def limitOf (n : Int) : Option Nat := if n < 0 then none else some n.toNat

def textOf : Value → List Char
  | .text s => s.toList
  | _ => []

def ofChars (s : List Char) : Value := .text (String.ofList s)

def textArg (method : String) (position : Nat) (v : Value) : Act (List Char) := do
  match v with
  | .text s => return s.toList
  | _ =>
    let w ← get
    let name := if v.isNull then "None" else w.className v
    Act.raise "TypeError"
      (method ++ "() argument " ++ toString position ++ " must be str, not " ++ name)

def runReplace (v : Value) (args : List Value) : Act Value := do
  let old ← textArg "replace" 1 (arg args 0)
  let new ← textArg "replace" 2 (arg args 1)
  let count ← indexArg (arg args 2)
  return ofChars (replaceText old new (limitOf count) (textOf v))

def runSplit (v : Value) (args : List Value) : Act Value := do
  let limit := limitOf (← indexArg (arg args 1))
  match arg args 0 with
  | .null =>
    let s := textOf v
    Act.alloc (.list ((splitBlank Text.isBlank limit (s.length + 1) s).map ofChars))
  | .text separator =>
    if separator.isEmpty then Act.raise "ValueError" "empty separator"
    else Act.alloc (.list ((splitText separator.toList [] 0 limit (textOf v)).map ofChars))
  | other =>
    Act.raise "TypeError" ("must be str or None, not " ++ (← get).className other)

def strBody (lib : Library) : ClassBody where
  name := .core "str"
  members := [
    lib.method "str" "encode" [allows "encoding" (.text "utf-8"), allows "errors" (.text "strict")],
    method "replace" [needs "old", needs "new", allows "count" (.int (-1))] runReplace,
    method "split" [allows "sep" .null, allows "maxsplit" (.int (-1))] runSplit,
    lib.method "str" "rsplit" [allows "sep" .null, allows "maxsplit" (.int (-1))],
    lib.method "str" "join" [needs "iterable"],
    lib.method "str" "capitalize",
    lib.method "str" "casefold",
    lib.method "str" "title",
    lib.method "str" "center" [needs "width", allows "fillchar" (.text " ")],
    lib.method "str" "expandtabs" [allows "tabsize" (.int 8)],
    lib.method "str" "partition" [needs "sep"],
    lib.method "str" "ljust" [needs "width", allows "fillchar" (.text " ")],
    lib.method "str" "lower",
    lib.method "str" "lstrip" [allows "chars" .null],
    lib.method "str" "rjust" [needs "width", allows "fillchar" (.text " ")],
    lib.method "str" "rstrip" [allows "chars" .null],
    lib.method "str" "rpartition" [needs "sep"],
    lib.method "str" "splitlines" [allows "keepends" (.bool false)],
    lib.method "str" "strip" [allows "chars" .null],
    lib.method "str" "swapcase",
    lib.method "str" "translate" [needs "table"],
    method "upper" [] fun v _ => return ofChars (Text.upper (textOf v)),
    lib.method "str" "removeprefix" [needs "prefix"],
    lib.method "str" "removesuffix" [needs "suffix"],
    lib.method "str" "isascii",
    lib.method "str" "islower",
    lib.method "str" "isupper",
    lib.method "str" "istitle",
    lib.method "str" "isspace",
    lib.method "str" "isdecimal",
    lib.method "str" "isdigit",
    lib.method "str" "isnumeric",
    lib.method "str" "isalpha",
    lib.method "str" "isalnum",
    lib.method "str" "isidentifier",
    lib.method "str" "isprintable",
    lib.method "str" "zfill" [needs "width"]]

def bytesBody (lib : Library) : ClassBody where
  name := .core "bytes"
  members := [
    lib.method "bytes" "center" [needs "width", allows "fillchar" (.bytes [0x20])],
    lib.method "bytes" "decode"
      [allows "encoding" (.text "utf-8"), allows "errors" (.text "strict")],
    lib.method "bytes" "expandtabs" [allows "tabsize" (.int 8)],
    lib.method "bytes" "fromhex" [needs "string"],
    lib.method "bytes" "join" [needs "iterable_of_bytes"],
    lib.method "bytes" "ljust" [needs "width", allows "fillchar" (.bytes [0x20])],
    lib.method "bytes" "lstrip" [allows "bytes" .null],
    lib.method "bytes" "partition" [needs "sep"],
    lib.method "bytes" "replace" [needs "old", needs "new", allows "count" (.int (-1))],
    lib.method "bytes" "removeprefix" [needs "prefix"],
    lib.method "bytes" "removesuffix" [needs "suffix"],
    lib.method "bytes" "rjust" [needs "width", allows "fillchar" (.bytes [0x20])],
    lib.method "bytes" "rpartition" [needs "sep"],
    lib.method "bytes" "rsplit" [allows "sep" .null, allows "maxsplit" (.int (-1))],
    lib.method "bytes" "rstrip" [allows "bytes" .null],
    lib.method "bytes" "split" [allows "sep" .null, allows "maxsplit" (.int (-1))],
    lib.method "bytes" "splitlines" [allows "keepends" (.bool false)],
    lib.method "bytes" "strip" [allows "bytes" .null],
    lib.method "bytes" "translate" [needs "table", allows "delete" (.bytes [])],
    lib.method "bytes" "zfill" [needs "width"]]

end ObjectConsole.Builtin
