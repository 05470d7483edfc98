import ObjectConsole.Outline
import ObjectConsole.SlotType

/-!
Classes as data. Besides its outline a class has a lineage, itself first and its ancestors behind
it, and each class of the lineage lists its members in the order of their definition. The
catalog finds the class of every value.
-/

namespace ObjectConsole

structure Mark where
  label : Option String := none
  shown : Bool := false
  deriving DecidableEq, Repr, Inhabited

/-- The name that a marked member is shown under; an empty label counts as none. -/
def Mark.displayName (m : Mark) (name : String) : String :=
  match m.label with
  | some label => if label.isEmpty then name else label
  | none => name

/-- A property with code behind it. A cached one stores what its getter first returns among the
attributes of the instance, and reads it from there. -/
structure Accessor where
  mark : Mark := {}
  type : SlotType := .undeclared
  get : Option (Value → Act Value) := none
  set : Option (Value → Value → Act Unit) := none
  cached : Bool := false

inductive ParamKind where
  | positional
  | named
  | rest
  deriving DecidableEq, Repr

structure Param where
  name : String
  type : SlotType := .undeclared
  default : Option Value := none
  kind : ParamKind := .positional

def Param.isOptional (p : Param) : Bool := p.default.isSome

def Param.isNullable (p : Param) : Bool :=
  p.type.isNullable || (p.default.map Value.isNull).getD false

/-- A method: its parameters and its code, which acts on the target and is given one argument for
each positional parameter. -/
structure Method where
  mark : Mark := {}
  params : List Param := []
  run : Value → List Value → Act Value

/-- The parameters that a call fills, in order. A method with a required parameter that is given
by name only cannot be called from the console. -/
def Method.callParams? (m : Method) : Option (List Param) :=
  if m.params.any fun p => p.kind == .named && !p.isOptional then none
  else some (m.params.filter fun p => p.kind == .positional)

inductive Member where
  | accessor (a : Accessor)
  /-- A reserved place for an attribute, empty until it is set. -/
  | slot
  /-- A plain value, which an attribute of the instance hides. -/
  | constant (v : Value)
  | method (m : Method)
  /-- A member of an enumeration. -/
  | choice
  /-- Anything else, such as a nested class. -/
  | other

structure ClassBody where
  name : ClassName
  members : List (String × Member)
  hints : List (String × SlotType) := []

structure ClassDef where
  outline : Outline
  lineage : List ClassBody

namespace ClassDef

/-- The type that the class or the nearest of its ancestors declares for a name. -/
def hint (c : ClassDef) (name : String) : SlotType :=
  (c.lineage.findSome? fun body => body.hints.lookup name).getD .undeclared

/-- The member that a name means: the definition of the most derived class. -/
def member? (c : ClassDef) (name : String) : Option Member :=
  c.lineage.findSome? fun body => body.members.lookup name

/-- Whether a name is a reserved place for an attribute. -/
def isSlot (c : ClassDef) (name : String) : Bool :=
  match c.member? name with
  | some .slot => true
  | _ => false

end ClassDef

structure Catalog extends Outlines where
  lineage : ClassName → List ClassBody

/-- The catalog with the given outlines and lineages. A class without a lineage has no members. -/
def Catalog.ofList (outlines : Outlines) (lineages : List (ClassName × List ClassBody)) :
    Catalog :=
  { outlines with lineage := fun c => (lineages.lookup c).getD [] }

def Catalog.classOf (cat : Catalog) (w : World) (v : Value) : ClassDef :=
  ⟨cat.find (w.classOf v), cat.lineage (w.classOf v)⟩

end ObjectConsole
