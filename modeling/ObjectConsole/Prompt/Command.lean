import ObjectConsole.Text.Blank

/-!
The commands of the prompt. They start with a slash and act on the prompt itself, not on the
objects.
-/

namespace ObjectConsole.Prompt

inductive Command where
  | clear
  | help
  | members
  | stack
  | reset
  | showAll
  | traceback
  deriving DecidableEq, Repr

namespace Command

def all : List Command := [clear, help, members, stack, reset, showAll, traceback]

def word : Command → String
  | clear => "/clear"
  | help => "/help"
  | members => "/members"
  | stack => "/stack"
  | reset => "/reset"
  | showAll => "/show-all"
  | traceback => "/py-traceback"

def description : Command → String
  | clear => "Clear the terminal screen"
  | help => "Show this help"
  | members => "List members of the current context"
  | stack => "Show the navigation path"
  | reset => "Return to the base context"
  | showAll => "Toggle listing of unmarked members"
  | traceback => "Toggle Python traceback on errors"

def hint : Command → String
  | showAll | traceback => "[on|off]"
  | _ => ""

def ofWord? (w : List Char) : Option Command := all.find? fun c => c.word.toList = w

def helpLine (c : Command) : String :=
  let head := "  " ++ c.word ++ " " ++ c.hint
  head ++ String.ofList (List.replicate (24 - head.length) ' ') ++ c.description

def usage (c : Command) : String := "Usage: " ++ c.word ++ " " ++ c.hint

end Command

def exitWords : List (List Char) := ["exit".toList, "quit".toList]

def helpLines : List String :=
  ["Type an expression against the current context:",
    "  Name                 read a property",
    "  Name=\"Carl\"          assign a property",
    "  Say(\"hi\")            call a method",
    "  Friends[0].Name      index a sequence and keep going",
    "  ->Pet                 navigate into the result",
    "  return               go back to the previous context",
    "  exit / quit          leave",
    ""]
  ++ Command.all.map Command.helpLine

def slashLine? (line : List Char) : Option (List Char × List Char) :=
  let text := Text.trim line
  if text.head? == some '/' then some (Text.firstWord text) else none

/-- Whether a character is invisible, and dropped from what is typed: the zero-width characters,
the no-break space and the carriage return. -/
def isInvisible (c : Char) : Bool :=
  c == '\u200b' || c == '\u200c' || c == '\u200d' || c == '\ufeff' || c == '\u00a0' || c == '\r'

def visible (line : List Char) : List Char := line.filter fun c => !isInvisible c

end ObjectConsole.Prompt
