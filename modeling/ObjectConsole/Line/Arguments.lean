import ObjectConsole.Line.Bracket
import ObjectConsole.Text.Blank

/-!
The arguments of a call: the text between its brackets, cut at the commas that stand outside
all quoted regions and all brackets of either kind. From a quote that nothing closes, the rest
belongs to the last argument.
-/

namespace ObjectConsole.Line

/-- The bracket depth after a character. Both kinds count together, and a closing bracket with
nothing open leaves the depth at zero. -/
def depthAfter (depth : Nat) (c : Char) : Nat :=
  if c == '(' || c == '[' then depth + 1
  else if c == ')' || c == ']' then depth - 1
  else depth

def prependPart (text : List Char) : List (List Char) → List (List Char)
  | [] => [text]
  | part :: parts => (text ++ part) :: parts

def cut : Nat → List Piece → List (List Char)
  | _, [] => [[]]
  | _, .unclosed rest :: _ => [rest]
  | depth, .quoted region :: ps => prependPart region (cut depth ps)
  | depth, .live c :: ps =>
    if c == ',' && depth == 0 then [] :: cut depth ps
    else prependPart [c] (cut (depthAfter depth c) ps)

/-- The arguments written in a text; none in a blank one. -/
def arguments (s : List Char) : List (List Char) :=
  if Text.isBlankText s then [] else cut 0 (pieces s)

end ObjectConsole.Line
