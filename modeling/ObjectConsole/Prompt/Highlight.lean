import ObjectConsole.Line.Quote
import ObjectConsole.Line.Scan
import ObjectConsole.Literal.Numeral
import ObjectConsole.Text.Blank

/-!
Highlighting: a line cut into tokens, each with the group that decides its style. At every
position the first kind of token that matches there is taken, with the longest match of its
kind. Where no kind matches, the rest of the line is one error.
-/

namespace ObjectConsole.Prompt

inductive Group where
  | command
  | navigation
  | constant
  | number
  | string
  | method
  | member
  | trigger
  | punctuation
  | error
  deriving DecidableEq, Repr

def Group.all : List Group :=
  [command, navigation, constant, number, string, method, member, trigger, punctuation, error]

def Group.name : Group → String
  | .command => "command"
  | .navigation => "navigation"
  | .constant => "constant"
  | .number => "number"
  | .string => "string"
  | .method => "method"
  | .member => "member"
  | .trigger => "trigger"
  | .punctuation => "punctuation"
  | .error => "error"

def Group.style : Group → String
  | .command => "bold ansicyan"
  | .navigation => "bold ansiblue"
  | .constant => "ansicyan"
  | .number => "ansimagenta"
  | .string => "ansigreen"
  | .method => "bold ansiyellow"
  | .member => ""
  | .trigger => "ansiblue"
  | .punctuation => ""
  | .error => "bold ansired"

structure Token where
  group : Group
  text : List Char
  deriving DecidableEq, Repr

/-- The rest of a quoted token behind its opening quote: through the closing quote, or as far as
it goes. A backslash takes the next character with it, but not a line end; a backslash that has
no such character behind it ends the token in front of itself. -/
def quotedRest (quote : Char) : List Char → List Char × List Char
  | [] => ([], [])
  | '\\' :: c :: rest =>
    if c == '\n' then ([], '\\' :: c :: rest)
    else
      let (text, after) := quotedRest quote rest
      ('\\' :: c :: text, after)
  | ['\\'] => ([], ['\\'])
  | c :: rest =>
    if c == quote then ([c], rest)
    else
      let (text, after) := quotedRest quote rest
      (c :: text, after)

def isPunctuation (c : Char) : Bool := c == ')' || c == ']' || c == ','

def isNameChar (c : Char) : Bool :=
  !(Text.isBlank c || Line.isTrigger c || isPunctuation c || Line.isQuote c)

def takeArrow? : List Char → Option (List Char × List Char)
  | '-' :: '>' :: rest => some (['-', '>'], rest)
  | _ => none

def takeQuoted? : List Char → Option (List Char × List Char)
  | [] => none
  | c :: rest =>
    if Line.isQuote c then some (c :: (quotedRest c rest).1, (quotedRest c rest).2) else none

def takeNumber? (s : List Char) : Option (List Char × List Char) :=
  (Literal.Numeral.take? s).map fun (_, after) => (s.take (s.length - after.length), after)

def takeChar? (belongs : Char → Bool) : List Char → Option (List Char × List Char)
  | [] => none
  | c :: rest => if belongs c then some ([c], rest) else none

def takeRun? (belongs : Char → Bool) (s : List Char) : Option (List Char × List Char) :=
  if (s.takeWhile belongs).isEmpty then none
  else some (s.takeWhile belongs, s.dropWhile belongs)

inductive TokenKind where
  | navigation
  | quoted
  | number
  | name
  | trigger
  | punctuation
  | blanks
  deriving DecidableEq, Repr

/-- The kinds in the order in which they are tried. -/
def TokenKind.all : List TokenKind :=
  [navigation, quoted, number, name, trigger, punctuation, blanks]

def TokenKind.take? : TokenKind → List Char → Option (List Char × List Char)
  | .navigation => takeArrow?
  | .quoted => takeQuoted?
  | .number => takeNumber?
  | .name => takeRun? isNameChar
  | .trigger => takeChar? Line.isTrigger
  | .punctuation => takeChar? isPunctuation
  | .blanks => takeRun? Text.isBlank

def constantWords : List (List Char) := ["true", "false", "null"].map String.toList

/-- The group of a name, which depends on what follows it. -/
def nameGroup (name after : List Char) : Group :=
  if constantWords.contains (Text.lower name) then .constant
  else if (Text.trimLeft after).head? == some '(' then .method
  else .member

/-- Whether a text ends with the quote that it starts with, and is not that quote alone. -/
def endsWithQuote : List Char → Bool
  | [] => false
  | c :: rest => rest.getLast? == some c

def TokenKind.group (text after : List Char) : TokenKind → Group
  | .navigation => .navigation
  | .quoted => if endsWithQuote text then .string else .error
  | .number => .number
  | .name => nameGroup text after
  | .trigger => .trigger
  | .punctuation | .blanks => .punctuation

/-- The first kind that matches at the head of a text, the text that it takes there, and what
follows it. -/
def firstMatch? (s : List Char) : Option (TokenKind × List Char × List Char) :=
  TokenKind.all.findSome? fun kind => (kind.take? s).map fun cut => (kind, cut)

def firstToken (s : List Char) : Token × List Char :=
  match firstMatch? s with
  | some (kind, text, after) => (⟨kind.group text after, text⟩, after)
  | none => (⟨.error, s⟩, [])

/-- The tokens of a text. Every token takes at least one character, so as many steps as there are
characters are enough. -/
def tokens : Nat → List Char → List Token
  | _, [] => []
  | 0, s => [⟨.error, s⟩]
  | fuel + 1, c :: rest =>
    let (token, after) := firstToken (c :: rest)
    token :: tokens fuel after

def classify (line : List Char) : List Token :=
  if (Text.trimLeft line).head? == some '/' then [⟨.command, line⟩]
  else tokens line.length line

/-- The styled tokens of the line with the given number: none behind the last line. Numbers below
zero count from the end, and there are only as many of them as lines. -/
def styledLine? (text : List Char) (number : Int) : Option (List (String × List Char)) :=
  let lines := text.splitOn '\n'
  let index := if number < 0 then number + lines.length else number
  if index < 0 then none
  else
    match lines[index.toNat]? with
    | some line => some ((classify line).map fun t => (t.group.style, t.text))
    | none => some []

end ObjectConsole.Prompt
