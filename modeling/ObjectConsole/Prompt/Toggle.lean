import ObjectConsole.Text.Blank

/-!
Switch words: the argument of a command that turns something on or off.
-/

namespace ObjectConsole.Prompt

def onWords : List (List Char) := ["on", "1", "true", "yes"].map String.toList

def offWords : List (List Char) := ["off", "0", "false", "no"].map String.toList

def plainWord (s : List Char) : List Char := Text.lower (Text.trim s)

/-- The new state of a switch: an empty argument flips it, a switch word sets it, and any other
argument is refused. -/
def toggle (argument : List Char) (current : Bool) : Option Bool :=
  let word := plainWord argument
  if word.isEmpty then some !current
  else if onWords.contains word then some true
  else if offWords.contains word then some false
  else none

def isOn (setting : List Char) : Bool := onWords.contains (plainWord setting)

end ObjectConsole.Prompt
