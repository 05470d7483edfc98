import ObjectConsole.Builtin.Basic

/-!
The members of lists and tuples. Sorting inserts one item after the other into the sorted part in
front, which at first is the longest run that is in order already.
-/

namespace ObjectConsole.Builtin

/-- The order used in sorting: whether one value stands before another, or the classes that have
no common order. -/
abbrev Order := Value → Value → Except (String × String) Bool

/-- The length of the run of items that goes on behind `previous` while each item does
(`descending`) or does not stand before its predecessor. -/
def runLength (less : Order) (descending : Bool) (previous : Value) :
    List Value → Except (String × String) Nat
  | [] => .ok 0
  | v :: rest => do
    if (← less v previous) == descending then
      return (← runLength less descending v rest) + 1
    else return 0

/-- Turns the run at the head of a list round if it descends; gives the run in ascending order
and the rest. -/
def firstRun (less : Order) : List Value → Except (String × String) (List Value × List Value)
  | a :: b :: rest => do
    let descending ← less b a
    let more ← runLength less descending b rest
    let (run, rest) := (a :: b :: rest).splitAt (more + 2)
    return (if descending then run.reverse else run, rest)
  | items => .ok (items, [])

/-- The position between `low` and `high` where a value is inserted into sorted items, behind all
that it does not stand before. -/
def insertionPoint (less : Order) (v : Value) (items : Array Value) :
    Nat → Nat → Nat → Except (String × String) Nat
  | 0, low, _ => .ok low
  | steps + 1, low, high => do
    if low < high then
      let middle := (low + high) / 2
      if ← less v (items[middle]?.getD .null) then insertionPoint less v items steps low middle
      else insertionPoint less v items steps (middle + 1) high
    else return low

/-- Inserts the rest into sorted items. If two values have no order, the items stay as they are
then. -/
def insertAll (less : Order) (sorted : List Value) :
    List Value → List Value × Option (String × String)
  | [] => (sorted, none)
  | v :: rest =>
    match insertionPoint less v sorted.toArray (sorted.length + 1) 0 sorted.length with
    | .ok i => insertAll less (sorted.insertIdx i v) rest
    | .error e => (sorted ++ v :: rest, some e)

/-- Sorts items; equal ones keep their order. The second component tells of two classes without a
common order, if such were met. -/
def sortItems (less : Order) (items : List Value) : List Value × Option (String × String) :=
  match firstRun less items with
  | .ok (run, rest) => insertAll less run rest
  | .error e => (items, some e)

def itemsOf (v : Value) : Act (List Value) := do
  return ((← get).items? v).getD []

def equalTo (o : Outlines) (w : World) (v : Value) (u : Value) : Bool := o.equal w u v

def runIndex (o : Outlines) (missing : World → Value → Except Raised String) (v : Value)
    (args : List Value) : Act Value := do
  let start ← boundArg (arg args 1)
  let stop ← boundArg (arg args 2)
  let w ← get
  match positionOf (equalTo o w (arg args 0)) (← itemsOf v) start stop with
  | some i => return .int i
  | none =>
    match missing w (arg args 0) with
    | .ok complaint => Act.raise "ValueError" complaint
    | .error e => throw e

def runCount (o : Outlines) (v : Value) (args : List Value) : Act Value := do
  return .int ((← itemsOf v).countP (equalTo o (← get) (arg args 0)))

def runInsert (v : Value) (args : List Value) : Act Value := do
  let i ← indexArg (arg args 0)
  let items ← itemsOf v
  let place := min (fromEnd i items.length) items.length
  Act.store v (.list (items.take place ++ arg args 1 :: items.drop place))
  return .null

def runPop (v : Value) (args : List Value) : Act Value := do
  let i ← indexArg (arg args 0)
  let items ← itemsOf v
  if items.isEmpty then Act.raise "IndexError" "pop from empty list"
  else
    let place := if i < 0 then i + items.length else i
    match (if place < 0 then none else items[place.toNat]?) with
    | some item =>
      Act.store v (.list (items.eraseIdx place.toNat))
      return item
    | none => Act.raise "IndexError" "pop index out of range"

def runRemove (o : Outlines) (v : Value) (args : List Value) : Act Value := do
  let items ← itemsOf v
  match items.findIdx? (equalTo o (← get) (arg args 0)) with
  | some i =>
    Act.store v (.list (items.eraseIdx i))
    return .null
  | none => Act.raise "ValueError" "list.remove(x): x not in list"

def runExtend (v : Value) (args : List Value) : Act Value := do
  let more ← iterate (arg args 0)
  Act.store v (.list ((← itemsOf v) ++ more))
  return .null

def runSort (o : Outlines) (v : Value) (_ : List Value) : Act Value := do
  let (items, problem) := sortItems (o.less (← get)) (← itemsOf v)
  Act.store v (.list items)
  match problem with
  | none => return .null
  | some (a, b) =>
    Act.raise "TypeError"
      ("'<' not supported between instances of '" ++ a ++ "' and '" ++ b ++ "'")

def searchParams : List Param :=
  [needs "value", allows "start" (.int 0), allows "stop" (.int (Nat.pow 2 63 - 1))]

def listBody (o : Outlines) : ClassBody where
  name := .core "list"
  members := [
    method "clear" [] fun v _ => do
      Act.store v (.list [])
      return .null,
    method "copy" [] fun v _ => do Act.alloc (.list (← itemsOf v)),
    method "append" [needs "object"] fun v args => do
      Act.store v (.list ((← itemsOf v) ++ [arg args 0]))
      return .null,
    method "insert" [needs "index", needs "object"] runInsert,
    method "extend" [needs "iterable"] runExtend,
    method "pop" [allows "index" (.int (-1))] runPop,
    method "remove" [needs "value"] (runRemove o),
    method "index" searchParams
      (runIndex o fun w v => do return (← o.display w v) ++ " is not in list"),
    method "count" [needs "value"] (runCount o),
    method "reverse" [] fun v _ => do
      Act.store v (.list (← itemsOf v).reverse)
      return .null,
    method "sort" [] (runSort o)]

def tupleBody (o : Outlines) : ClassBody where
  name := .core "tuple"
  members := [
    method "index" searchParams (runIndex o fun _ _ => .ok "tuple.index(x): x not in tuple"),
    method "count" [needs "value"] (runCount o)]

end ObjectConsole.Builtin
