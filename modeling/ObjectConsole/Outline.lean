import ObjectConsole.World

/-!
Outlines of classes: what has to be known of a class to compare, display and convert its
instances, without any of its code.
-/

namespace ObjectConsole

structure Field where
  name : String
  label : Option String := none
  shown : Bool := false
  deriving DecidableEq, Repr

/-- A record class: its fields, which its instances are compared and displayed by. The fields of a
frozen one cannot be assigned. -/
structure RecordShape where
  fields : List Field
  frozen : Bool := false

structure Outline where
  name : ClassName
  /-- The class itself and the classes that it descends from. -/
  ancestors : List ClassName
  record : Option RecordShape := none
  /-- The text of an instance, given its attributes, if the class defines one. -/
  summary : Option (List (String × Value) → String) := none
  /-- The members of an enumeration with their values, in order. -/
  choices : List (String × Value) := []

namespace Outline

def fields (c : Outline) : List Field := (c.record.map (·.fields)).getD []

def descendsFrom (c : Outline) (name : ClassName) : Bool := c.ancestors.contains name

def isEnumeration (c : Outline) : Bool := !c.choices.isEmpty

def isFrozen (c : Outline) : Bool := (c.record.map (·.frozen)).getD false

end Outline

/-- How many levels the interpreter lets expressions, messages about values and printed values
nest within one another. -/
structure Limits where
  expressions : Nat
  displays : Nat
  prints : Nat
  /-- A call has room for its arguments. -/
  expressions_pos : 0 < expressions := by decide

structure Outlines where
  find : ClassName → Outline
  limits : Limits

/-- The outlines given by a list. A class that is not in the list has no more than its name. -/
def Outlines.ofList (limits : Limits) (outlines : List Outline) : Outlines where
  find c := (outlines.find? fun o => o.name == c).getD { name := c, ancestors := [c] }
  limits

def Outlines.outlineOf (o : Outlines) (w : World) (v : Value) : Outline := o.find (w.classOf v)

end ObjectConsole
