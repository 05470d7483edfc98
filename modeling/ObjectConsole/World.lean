import ObjectConsole.Value

/-!
The world that expressions act on: a store of cells, addressed by references, and the text that
methods have printed. Cells are never removed, and new ones are added at the end.
-/

namespace ObjectConsole

/-- What a reference stands for: a list; a table, of which a frozen one cannot be written to; or
the attributes of an instance, in the order in which they were first set. -/
inductive Cell where
  | list (items : List Value)
  | table (frozen : Bool) (entries : List (Value × Value))
  | record (cls : ClassName) (attributes : List (String × Value))
  deriving Inhabited

structure World where
  cells : Array Cell
  printed : String
  deriving Inhabited

structure Raised where
  cls : ClassName
  text : String
  deriving DecidableEq, Repr

abbrev Act := EStateM Raised World

namespace Cell

def values : Cell → List Value
  | list items => items
  | table _ entries => entries.flatMap fun (k, v) => [k, v]
  | record _ attributes => attributes.map (·.2)

end Cell

/-- Replaces the value of a name at its place, or adds the name at the end. -/
def setAttribute (name : String) (value : Value) : List (String × Value) → List (String × Value)
  | [] => [(name, value)]
  | (n, v) :: rest =>
    if n = name then (n, value) :: rest else (n, v) :: setAttribute name value rest

theorem lookup_setAttribute_self (name : String) (value : Value) (as : List (String × Value)) :
    (setAttribute name value as).lookup name = some value := by
  induction as with
  | nil => simp [setAttribute]
  | cons a rest ih =>
    obtain ⟨n, v⟩ := a
    by_cases h : n = name
    · simp [setAttribute, h]
    · have h' : (name == n) = false := by simpa using fun e => h e.symm
      simp [setAttribute, h, List.lookup_cons, h', ih]

theorem lookup_setAttribute_of_ne {name other : String} (hne : other ≠ name) (value : Value)
    (as : List (String × Value)) :
    (setAttribute name value as).lookup other = as.lookup other := by
  induction as with
  | nil =>
    have h : (other == name) = false := by simpa using hne
    simp [setAttribute, List.lookup_cons, h]
  | cons a rest ih =>
    obtain ⟨n, v⟩ := a
    by_cases h : n = name
    · have h' : (other == n) = false := by simpa [h] using hne
      simp [setAttribute, h, List.lookup_cons, h ▸ h']
    · simp [setAttribute, h, List.lookup_cons, ih]

namespace World

def empty : World := ⟨#[], ""⟩

def get? (w : World) (r : Ref) : Option Cell := w.cells[r]?

def set (w : World) (r : Ref) (c : Cell) : World := { w with cells := w.cells.setIfInBounds r c }

def alloc (w : World) (c : Cell) : Ref × World :=
  (w.cells.size, { w with cells := w.cells.push c })

@[simp] theorem get?_alloc_self (w : World) (c : Cell) :
    (w.alloc c).2.get? (w.alloc c).1 = some c := by
  simp [alloc, get?]

theorem get?_alloc_of_lt {w : World} {r : Ref} (h : r < w.cells.size) (c : Cell) :
    (w.alloc c).2.get? r = w.get? r := by
  simp [alloc, get?, Array.getElem?_push, Nat.ne_of_lt h]

theorem get?_set_self {w : World} {r : Ref} (h : r < w.cells.size) (c : Cell) :
    (w.set r c).get? r = some c := by
  simp [set, get?, h]

theorem get?_set_of_ne {w : World} {r s : Ref} (h : r ≠ s) (c : Cell) :
    (w.set r c).get? s = w.get? s := by
  simp [set, get?, h]

def print (w : World) (line : String) : World := { w with printed := w.printed ++ line ++ "\n" }

def classOf (w : World) : Value → ClassName
  | .null => .core "NoneType"
  | .bool _ => .core "bool"
  | .int _ => .core "int"
  | .sized width _ _ => .ofWidth width
  | .float _ => .core "float"
  | .text _ => .core "str"
  | .bytes _ => .core "bytes"
  | .choice cls _ => cls
  | .tuple _ => .core "tuple"
  | .object r =>
    match w.get? r with
    | some (.list _) => .core "list"
    | some (.table frozen _) => .core (if frozen then "mappingproxy" else "dict")
    | some (.record cls _) => cls
    | none => .core "object"

def className (w : World) (v : Value) : String := (w.classOf v).name

def attributes (w : World) : Value → List (String × Value)
  | .object r | .sized _ _ (some r) =>
    match w.get? r with
    | some (.record _ attributes) => attributes
    | _ => []
  | _ => []

/-- Sets an attribute of a value. An integer that nothing holds keeps no attributes. -/
def setOwn (w : World) (v : Value) (name : String) (value : Value) : World :=
  match v with
  | .object r | .sized _ _ (some r) =>
    match w.get? r with
    | some (.record cls attributes) =>
      w.set r (.record cls (setAttribute name value attributes))
    | _ => w
  | _ => w

def items? (w : World) : Value → Option (List Value)
  | .tuple items => some items
  | .object r =>
    match w.get? r with
    | some (.list items) => some items
    | _ => none
  | _ => none

/-- The entries of a table, and whether it is frozen. -/
def table? (w : World) : Value → Option (Bool × List (Value × Value))
  | .object r =>
    match w.get? r with
    | some (.table frozen entries) => some (frozen, entries)
    | _ => none
  | _ => none

/-- Gives an integer of a fixed width a cell of its own, if it has none; needed before a holder
takes the value. -/
def adopt (w : World) : Value → Value × World
  | .sized width n none =>
    let (r, w) := w.alloc (.record (.ofWidth width) [])
    (.sized width n (some r), w)
  | v => (v, w)

def adoptAll (w : World) : List Value → List Value × World
  | [] => ([], w)
  | v :: vs =>
    let (v, w) := w.adopt v
    let (vs, w) := w.adoptAll vs
    (v :: vs, w)

/-- A bound for the depth of everything that a value holds, if nothing holds itself. -/
def extent (w : World) (v : Value) : Nat :=
  w.cells.foldl (fun n c => n + 1 + Value.depthAll c.values) (v.depth + 1)

end World

namespace Raised

def ofCore (cls text : String) : Raised := ⟨.core cls, text⟩

/-- The error of something that nests deeper than the interpreter allows. -/
def tooDeep (doing : String) : Raised :=
  ofCore "RecursionError" ("maximum recursion depth exceeded" ++ doing)

/-- Errors of this class end a line as one that is nested too deeply. -/
def isTooDeep (e : Raised) : Bool := e.cls == .core "RecursionError"

end Raised

namespace Act

def raise {α : Type} (cls text : String) : Act α := throw (.ofCore cls text)

def alloc (c : Cell) : Act Value := do
  let (r, w) := (← get).alloc c
  set w
  return .object r

def store (v : Value) (c : Cell) : Act Unit :=
  match v with
  | .object r => modify fun w => w.set r c
  | _ => pure ()

def own (v : Value) (name : String) : Act Value := do
  return (((← get).attributes v).lookup name).getD .null

def assign (v : Value) (name : String) (value : Value) : Act Unit :=
  modify fun w => w.setOwn v name value

def print (line : String) : Act Unit := modify fun w => w.print line

end Act

end ObjectConsole
