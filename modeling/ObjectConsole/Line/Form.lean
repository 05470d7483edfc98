import ObjectConsole.Line.Arguments
import ObjectConsole.Line.Scan
import ObjectConsole.Literal.Scalar

/-!
The form of an expression: what its first trigger makes of it. The form is found from the text
alone; every text in it that still has to be evaluated is shorter than the expression and has
fewer triggers.
-/

namespace ObjectConsole.Line

open ObjectConsole.Literal (Scalar readScalar)

inductive Form where
  /-- A scalar literal, which may hold trigger characters. -/
  | scalar (value : Scalar)
  /-- A run of digits that is too long for an integer. -/
  | overlong (digits : Nat)
  /-- A text without triggers, to be looked up as a property. -/
  | word (text : List Char)
  /-- A property, and an expression for its value to continue with. -/
  | member (name rest : List Char)
  /-- A call: the arguments and what continues with the result, unless the brackets do not
  match. -/
  | call (name : List Char) (parts : Except BracketError (List (List Char) × List Char))
  /-- An index: its expression and what continues with the item, unless the brackets do not
  match. -/
  | index (name : List Char) (parts : Except BracketError (List Char × List Char))
  /-- An assignment of the value of an expression. -/
  | assign (name right : List Char)

def dropPoint : List Char → List Char
  | '.' :: rest => rest
  | s => s

/-- The form that a trigger makes of the name before it and the text behind it. -/
def Form.ofTrigger (name : List Char) (t : Trigger) (rest : List Char) : Form :=
  match t with
  | .member => .member name rest
  | .call =>
    .call name ((enclosed .round (t.char :: rest)).map fun e => (arguments e.inside, e.after))
  | .index => .index name ((enclosed .square (t.char :: rest)).map fun e => (e.inside, e.after))
  | .assign => .assign name rest

def Form.ofText (s : List Char) : Form :=
  match readScalar s with
  | .error e => .overlong e.digits
  | .ok (some value) => .scalar value
  | .ok none =>
    let cut := scan s
    match cut.found with
    | none => .word s
    | some (t, rest) => Form.ofTrigger (Text.trim cut.name) t rest

/-- The texts in a form that are evaluated in turn, the one that continues the chain last. -/
def Form.subtexts : Form → List (List Char)
  | .scalar _ | .overlong _ | .word _ => []
  | .member _ rest => [rest]
  | .call _ (.ok (args, after)) => args ++ [after]
  | .index _ (.ok (inside, after)) => [inside, after]
  | .call _ (.error _) | .index _ (.error _) => []
  | .assign _ right => [right]

end ObjectConsole.Line
