import ObjectConsole.Member.Overload

/-!
What the console shows: the text of a value, the signature of a method and the listing of a
value's members.
-/

namespace ObjectConsole

/-- A string inside a collection, between double quotes and without escapes. -/
def quotedItem (s : String) : String := "\"" ++ s ++ "\""

def listText (items : List String) : String := "[" ++ commaList items ++ "]"

def tableText (pairs : List (String × String)) : String :=
  if pairs.isEmpty then "\x7b\x7d"
  else "\x7b " ++ commaList (pairs.map fun (k, v) => k ++ ": " ++ v) ++ " \x7d"

namespace Catalog

/-- The text of an item of a collection, or of a value on its own, with the given number of levels
left. Strings are quoted as items only. -/
def itemWithin (cat : Catalog) (w : World) : Nat → Value → Except Raised String
  | 0, _ => .error (.tooDeep "")
  | levels + 1, v =>
    match v with
    | .null => .ok "null"
    | .bool b => .ok (if b then "true" else "false")
    | .text s => .ok (quotedItem s)
    | .choice _ name => .ok name
    | .tuple items => do return listText (← items.mapM (cat.itemWithin w levels))
    | .object r =>
      match w.get? r with
      | some (.list items) => do return listText (← items.mapM (cat.itemWithin w levels))
      | some (.table _ entries) => do
        return tableText (← entries.mapM fun (k, x) => do
          return (← cat.itemWithin w levels k, ← cat.itemWithin w levels x))
      | _ => cat.summary w v
    | _ => cat.summary w v

def format (cat : Catalog) (w : World) (v : Value) : Except Raised String :=
  match v with
  | .text s => .ok s
  | _ => cat.itemWithin w (cat.limits.prints + 1) v

/-- The members of a listing: those that are marked to be shown, or all if none is marked or all
are asked for. -/
def visibleMembers (cat : Catalog) (w : World) (v : Value) (showAll : Bool) :
    List PropertyInfo × List MethodInfo :=
  let properties := cat.properties w v
  let methods := cat.methods w v
  if showAll || !(properties.any (·.shown) || methods.any (·.shown)) then (properties, methods)
  else (properties.filter (·.shown), methods.filter (·.shown))

/-- The text of what came of reading a property. An error that is reported stands in the place of
the value. -/
def shownReading (cat : Catalog) :
    EStateM.Result Stop World Value → EStateM.Result Raised World String
  | .ok value w =>
    match cat.format w value with
    | .ok text => .ok text w
    | .error e => .error e w
  | .error (.reported e) w =>
    match e.message with
    | .ok text => .ok ("<" ++ text ++ ">") w
    | .error e => .error e w
  | .error (.escaped e) w => .error e w

def propertyLine (cat : Catalog) (v : Value) (p : PropertyInfo) : Act String := do
  if !p.readable then return p.label ++ " (write-only)"
  let shown ← fun w => cat.shownReading (cat.readProperty v p.label w)
  return p.label ++ " = " ++ shown ++ (if p.writable then "" else " (read-only)")

end Catalog

/-- A parameter in a signature; one that may be left out stands in brackets. -/
def ParamInfo.signature (p : ParamInfo) : String :=
  let text := p.name ++ ": " ++ p.type.label
  if p.isOptional then "[" ++ text ++ "]" else text

def MethodInfo.signature (m : MethodInfo) : String :=
  m.label ++ "(" ++ commaList (m.params.map ParamInfo.signature) ++ ")"

def Catalog.memberLines (cat : Catalog) (v : Value) (showAll : Bool) : Act (List String) := do
  let (properties, methods) := cat.visibleMembers (← get) v showAll
  let lines ← properties.mapM (cat.propertyLine v)
  return lines ++ methods.map MethodInfo.signature

end ObjectConsole
