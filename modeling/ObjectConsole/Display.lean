import ObjectConsole.Outline
import ObjectConsole.Text.Quoted
import ObjectConsole.Decimal.Layout
import ObjectConsole.Literal.Numeral

/-!
The text of values as messages show them. `display` is unambiguous: strings are quoted, collections
list their items and records their fields. `summary` is for readers: a string is its own text, and
a class may define its own. Neither need succeed: integers of too many digits have no text, and
values may nest deeper than the interpreter allows. A value that holds itself is no such case: it
is shown by an ellipsis where it stands in its own display.
-/

namespace ObjectConsole

def boolDisplay (b : Bool) : String := if b then "True" else "False"

def floatDisplay (x : Float) : String := String.ofList (Decimal.floatText x)

def longIntegerError : Raised :=
  .ofCore "ValueError" ("Exceeds the limit (4300 digits) for integer string conversion; "
    ++ "use sys.set_int_max_str_digits() to increase the limit")

def integerText (n : Int) : Except Raised String :=
  if Literal.digitLimit < (Nat.toDigits 10 n.natAbs).length then .error longIntegerError
  else .ok (toString n)

def commaList (items : List String) : String := ", ".intercalate items

/-- The display of a tuple: one item alone is followed by a comma. -/
def tupleDisplay : List String → String
  | [item] => "(" ++ item ++ ",)"
  | items => "(" ++ commaList items ++ ")"

def tableDisplay (frozen : Bool) (inside : String) : String :=
  let body := "\x7b" ++ inside ++ "\x7d"
  if frozen then "mappingproxy(" ++ body ++ ")" else body

def pairList (pairs : List (String × String)) : String :=
  commaList (pairs.map fun (k, v) => k ++ ": " ++ v)

/-- The display of an instance of a record class, or of any other object. -/
def instanceDisplay (c : Outline) (fields : List (String × String)) : String :=
  match c.record with
  | some _ => c.name.name ++ "(" ++ commaList (fields.map fun (n, v) => n ++ "=" ++ v) ++ ")"
  | none => "<" ++ c.name.qualified ++ " object>"

/-- What stands for a cell inside its own display. -/
def Cell.ellipsis : Cell → String
  | .list _ => "[...]"
  | .table frozen _ => tableDisplay frozen "..."
  | .record _ _ => "..."

namespace Outlines

/-- The display of a value, inside the displays of the given cells and with the given number of
levels left. -/
def displayWithin (o : Outlines) (w : World) : Nat → List Ref → Value → Except Raised String
  | 0, _, _ => .error (.tooDeep " while getting the repr of an object")
  | levels + 1, outer, v =>
    match v with
    | .null => .ok "None"
    | .bool b => .ok (boolDisplay b)
    | .int n | .sized _ n _ => integerText n
    | .float x => .ok (floatDisplay x)
    | .text s => .ok (Text.displayString s)
    | .bytes data => .ok (Text.displayBytes data)
    | .choice cls name => do
      let value := ((o.find cls).choices.lookup name).getD .null
      let shown ← o.displayWithin w levels outer value
      return "<" ++ cls.name ++ "." ++ name ++ ": " ++ shown ++ ">"
    | .tuple items => do return tupleDisplay (← items.mapM (o.displayWithin w levels outer))
    | .object r =>
      match w.get? r with
      | none => .ok "<object object>"
      | some c =>
        if outer.contains r then .ok c.ellipsis
        else
          match c with
          | .list items => do
            return "[" ++ commaList (← items.mapM (o.displayWithin w levels (r :: outer))) ++ "]"
          | .table frozen entries => do
            return tableDisplay frozen (pairList (← entries.mapM fun (k, x) => do
              return (← o.displayWithin w levels (r :: outer) k,
                ← o.displayWithin w levels (r :: outer) x)))
          | .record cls attributes => do
            let fields ← (o.find cls).fields.mapM fun f => do
              return (f.name,
                ← o.displayWithin w levels (r :: outer) ((attributes.lookup f.name).getD .null))
            return instanceDisplay (o.find cls) fields

def display (o : Outlines) (w : World) (v : Value) : Except Raised String :=
  o.displayWithin w (o.limits.displays + 1) [] v

/-- The text of a value for readers. -/
def summary (o : Outlines) (w : World) (v : Value) : Except Raised String :=
  match v with
  | .text s => .ok s
  | .choice cls name => .ok (cls.name ++ "." ++ name)
  | .object r =>
    match w.get? r with
    | some (.record cls attributes) =>
      match (o.find cls).summary with
      | some text => .ok (text attributes)
      | none => o.display w v
    | some (.table true entries) =>
      -- a frozen table reads like the table behind it
      let (r, w) := w.alloc (.table false entries)
      o.display w (.object r)
    | _ => o.display w v
  | _ => o.display w v

end Outlines

end ObjectConsole
