import ObjectConsole.Evaluation
import ObjectConsole.Literal.Structured

/-!
What a token stands for. Every token may be a scalar literal. Read against a target it may be the
name of a readable property instead, and read on its own it may be structured data.
-/

namespace ObjectConsole

inductive LiteralKind where
  | null
  | bool
  | int (w : Width)
  | float
  | text
  | property
  | structured
  deriving DecidableEq, Repr

structure Reading where
  kind : LiteralKind
  value : Value

def Literal.Scalar.kind : Scalar → LiteralKind
  | .null => .null
  | .bool _ => .bool
  | .int w _ => .int w
  | .float _ => .float
  | .text _ => .text

mutual

def Literal.Tree.store : Literal.Tree → Act Value
  | .null => return .null
  | .bool b => return .bool b
  | .int n => return .int n
  | .float x => return .float x
  | .text s => return .text (String.ofList s.text)
  | .list items => do Act.alloc (.list (← storeItems items))
  | .table entries => do Act.alloc (.table false (← storeEntries entries))

def Literal.Tree.storeItems : List Literal.Tree → Act (List Value)
  | [] => return []
  | item :: items => do return (← item.store) :: (← storeItems items)

def Literal.Tree.storeEntries : List (Literal.Codes × Literal.Tree) → Act (List (Value × Value))
  | [] => return []
  | (key, tree) :: entries => do
    return (.text (String.ofList key.text), ← tree.store) :: (← storeEntries entries)

end

namespace Reading

def ofScalar (s : Literal.Scalar) : Reading := ⟨s.kind, s.value⟩

/-- Reads a token as a scalar literal. A run of digits that is too long is an error. -/
def scalar? (token : List Char) : Except Raised (Option Reading) :=
  match Literal.readScalar token with
  | .ok s => .ok (s.map ofScalar)
  | .error e => .error (overlongError e.digits)

def structured? (token : List Char) : Act (Option Reading) := do
  match Literal.readStructured token with
  | none => return none
  | some tree => return some ⟨.structured, ← tree.store⟩

/-- Reads a token on its own: a scalar literal, else structured data. -/
def ofToken? (token : List Char) : Act (Option Reading) := do
  let token := Text.trim token
  match scalar? token with
  | .error e => throw e
  | .ok (some r) => return some r
  | .ok none => structured? token

/-- Reads a token against a target: a scalar literal, else the name of a readable property. -/
def ofTokenFor? (cat : Catalog) (target : Value) (token : List Char) : Eval (Option Reading) := do
  let token := Text.trim token
  match scalar? token with
  | .error e => Eval.escape e
  | .ok (some r) => return some r
  | .ok none =>
    let label := String.ofList token
    match cat.findProperty? (← get) target label with
    | some p =>
      if p.readable then return some ⟨.property, ← cat.readProperty target label⟩
      else return none
    | none => return none

end Reading

end ObjectConsole
