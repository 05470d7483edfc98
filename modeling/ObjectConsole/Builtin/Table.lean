import ObjectConsole.Builtin.Basic

/-!
The members of tables that can be written to. Frozen tables have no methods.
-/

namespace ObjectConsole.Builtin

def keyArg (o : Outlines) (v : Value) : Act Value := do
  match o.unhashable (← get) v with
  | none => return v
  | some name => Act.raise "TypeError" ("unhashable type: '" ++ name ++ "'")

def entriesOf (v : Value) : Act (List (Value × Value)) := do
  return (((← get).table? v).map (·.2)).getD []

def runGet (o : Outlines) (v : Value) (args : List Value) : Act Value := do
  let key ← keyArg o (arg args 0)
  return (o.lookup (← get) key (← entriesOf v)).getD (arg args 1)

/-- The value of a key, which is added with a substitute if it is not there. -/
def runSetDefault (o : Outlines) (v : Value) (args : List Value) : Act Value := do
  let key ← keyArg o (arg args 0)
  let entries ← entriesOf v
  match o.lookup (← get) key entries with
  | some value => return value
  | none =>
    Act.store v (.table false (entries ++ [(key, arg args 1)]))
    return arg args 1

def runPopItem (v : Value) (_ : List Value) : Act Value := do
  let entries ← entriesOf v
  match entries.getLast? with
  | some (key, value) =>
    Act.store v (.table false entries.dropLast)
    return .tuple [key, value]
  | none => Act.raise "KeyError" "'popitem(): dictionary is empty'"

/-- A new table with the keys that a value yields, all with one value. -/
def runFromKeys (o : Outlines) (_ : Value) (args : List Value) : Act Value := do
  let keys ← (← iterate (arg args 0)).mapM (keyArg o)
  let w ← get
  Act.alloc (.table false (keys.foldl (fun es key => o.insert w key (arg args 1) es) []))

def tableBody (o : Outlines) : ClassBody where
  name := .core "dict"
  members := [
    method "get" [needs "key", allows "default" .null] (runGet o),
    method "setdefault" [needs "key", allows "default" .null] (runSetDefault o),
    method "popitem" [] runPopItem,
    method "fromkeys" [needs "iterable", allows "value" .null] (runFromKeys o)]

end ObjectConsole.Builtin
