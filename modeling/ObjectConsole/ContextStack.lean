import ObjectConsole.Error

/-!
The values that the user has navigated into. The base stays for good; the last value is the
current context.
-/

namespace ObjectConsole

/-- A base and the values pushed on it, the last one first. -/
structure ContextStack where
  base : Value
  pushed : List Value := []

namespace ContextStack

def current (s : ContextStack) : Value := s.pushed.head?.getD s.base

def items (s : ContextStack) : List Value := s.base :: s.pushed.reverse

def push (s : ContextStack) (v : Value) : ContextStack := { s with pushed := v :: s.pushed }

/-- Leaves the current context: the value left and the stack without it. The base is never
left. -/
def pop? (s : ContextStack) : Option (Value × ContextStack) :=
  match s.pushed with
  | [] => none
  | v :: rest => some (v, { s with pushed := rest })

def reset (s : ContextStack) : ContextStack := { s with pushed := [] }

def size (s : ContextStack) : Nat := s.pushed.length + 1

def path (s : ContextStack) (w : World) : String := "/".intercalate (s.items.map w.className)

def display (s : ContextStack) (w : World) : String := "<ContextStack " ++ s.path w ++ ">"

@[simp] theorem items_push (s : ContextStack) (v : Value) :
    (s.push v).items = s.items ++ [v] := by
  simp [items, push]

@[simp] theorem items_reset (s : ContextStack) : s.reset.items = [s.base] := rfl

end ContextStack

end ObjectConsole
