import ObjectConsole.SlotType

/-!
What the parts of a declaration mean: words, generic types with their arguments, and unions
spelled out or with bars. A union holds no union and no type twice; a union of one type is that
type.
-/

namespace ObjectConsole.SlotType

def ofWord? : String → Option SlotType
  | "Any" => some any
  | "object" => some anyObject
  | "None" => some nothing
  | "NoneType" => some nullType
  | "bool" => some bool
  | "int" => some int
  | "float" => some float
  | "str" => some text
  | "list" => some (ofCore "list")
  | "tuple" => some (ofCore "tuple")
  | "dict" => some (ofCore "dict")
  | "set" => some (ofCore "set")
  | "List" => some (generic .capital (.core "list") [])
  | "Tuple" => some (generic .capital (.core "tuple") [])
  | "Dict" => some (generic .capital (.core "dict") [])
  | "Set" => some (generic .capital (.core "set") [])
  | word => (Width.all.find? fun w => w.name == word).map sized

def ofName? (classes : List ClassName) (word : String) : Option SlotType :=
  match classes.find? fun c => c.name == word with
  | some c => some (cls c)
  | none => ofWord? word

/-- Whether bars between this type and another one make a union that is spelled out. -/
def isSpelled : SlotType → Bool
  | generic .capital _ _ | union .spelled _ | literal _ | placeholder _ => true
  | _ => false

/-- A type as the arms of a union that it contributes. -/
def arms : SlotType → List SlotType
  | union _ ts => ts
  | nothing => [nullType]
  | t => [t]

/-- Drops the types that are written like an earlier one. -/
def dropRepeated (seen : List String) : List SlotType → List SlotType
  | [] => []
  | t :: ts =>
    if seen.contains t.inner then dropRepeated seen ts
    else t :: dropRepeated (t.inner :: seen) ts

def unionOf (style : UnionStyle) (types : List SlotType) : SlotType :=
  match dropRepeated [] (types.flatMap arms) with
  | [t] => t
  | ts => union style ts

def barred (t u : SlotType) : SlotType :=
  unionOf (if t.isSpelled || u.isSpelled then .spelled else .barred) [t, u]

/-- A generic type with its arguments. A generic type with a capital takes `None` for the class
of `null`. -/
def withArguments? (head : String) (arguments : List SlotType) : Option SlotType :=
  match head, ofWord? head with
  | "Optional", _ =>
    match arguments with
    | [t] => some (unionOf .spelled [t, nullType])
    | _ => none
  | "Union", _ => some (unionOf .spelled arguments)
  | _, some (generic .capital origin []) =>
    some (generic .capital origin (arguments.map fun t =>
      match t with
      | nothing => nullType
      | t => t))
  | _, some (cls origin) => some (generic .plain origin arguments)
  | _, _ => none

def isWordChar (c : Char) : Bool := c.isAlphanum || c == '_'

end ObjectConsole.SlotType
