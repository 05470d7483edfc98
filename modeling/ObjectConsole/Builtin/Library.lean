import ObjectConsole.Builtin.Basic

/-!
Methods of strings, bytes and numbers whose answers depend on the target and the arguments alone,
and go by tables of characters, of encodings and of number formats. What they answer is left to a
library, so that whatever is proved about the console holds for all of them; that they answer new
values and change nothing is in the type.
-/

namespace ObjectConsole.Builtin

inductive Datum where
  | null
  | bool (b : Bool)
  | int (n : Int)
  | sized (w : Width) (n : Int)
  | float (x : Float)
  | text (s : String)
  | bytes (data : List UInt8)

def Datum.value : Datum → Value
  | null => .null
  | bool b => .bool b
  | int n => .int n
  | sized w n => .sized w n none
  | float x => .float x
  | text s => .text s
  | bytes data => .bytes data

inductive Answer where
  | scalar (d : Datum)
  | tuple (items : List Datum)
  | list (items : List Datum)

def Answer.store : Answer → Act Value
  | scalar d => return d.value
  | tuple items => return .tuple (items.map Datum.value)
  | list items => Act.alloc (.list (items.map Datum.value))

structure Library where
  answer : (cls name : String) → World → Value → List Value → Except Raised Answer

def Library.run (lib : Library) (cls name : String) (v : Value) (args : List Value) :
    Act Value := do
  match lib.answer cls name (← get) v args with
  | .ok a => a.store
  | .error e => throw e

def Library.method (lib : Library) (cls name : String) (params : List Param := []) :
    String × Member :=
  Builtin.method name params (lib.run cls name)

end ObjectConsole.Builtin
