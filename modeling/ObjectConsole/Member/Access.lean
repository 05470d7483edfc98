import ObjectConsole.Coercion
import ObjectConsole.Compare
import ObjectConsole.Error
import ObjectConsole.Member.Describe

/-!
Reading and writing properties. A written value is first fitted to the declared type; what the
property's own code raises is reported under the name that was used.
-/

namespace ObjectConsole

namespace Catalog

def noAttribute (w : World) (v : Value) (name : String) : Raised :=
  .ofCore "AttributeError" ("'" ++ w.className v ++ "' object has no attribute '" ++ name ++ "'")

def frozenField (name : String) : Raised :=
  ⟨⟨"dataclasses", "FrozenInstanceError"⟩, "cannot assign to field '" ++ name ++ "'"⟩

/-- The value of an attribute under its declared name: through the getter of an accessor, else
from the value's own attributes, else from a cached accessor or a plain value of the class. -/
def fetch (cat : Catalog) (v : Value) (name : String) : Act Value := do
  let w ← get
  let own := (w.attributes v).lookup name
  match (cat.classOf w v).member? name with
  | some (.accessor a) =>
    match a.cached, own, a.get with
    | true, some value, _ => return value
    | true, none, some getter =>
      let value ← getter v
      Act.assign v name value
      return value
    | false, _, some getter => getter v
    | _, _, none => throw (noAttribute w v name)
  | some (.constant value) => return own.getD value
  | _ =>
    match own with
    | some value => return value
    | none => throw (noAttribute w v name)

/-- Sets an attribute under its declared name: through the setter of an accessor, else among the
value's own attributes. -/
def assign (cat : Catalog) (v : Value) (name : String) (value : Value) : Act Unit := do
  let c := cat.classOf (← get) v
  if c.outline.isFrozen then throw (frozenField name)
  match c.member? name with
  | some (.accessor a) =>
    if a.cached then Act.assign v name value
    else
      match a.set with
      | some setter => setter v value
      | none => throw (noAttribute (← get) v name)
  | _ => Act.assign v name value

def readProperty (cat : Catalog) (v : Value) (label : String) : Eval Value := do
  let w ← get
  match cat.findProperty? w v label with
  | some p =>
    if !p.readable then Eval.fail (.memberNotFound (w.className v) .property label)
    else
      match w.table? v with
      | some (_, entries) => return (cat.lookup w (.text p.name) entries).getD .null
      | none => Eval.invoke label (cat.fetch v p.name)
  | none => Eval.fail (.memberNotFound (w.className v) .property label)

def fit (cat : Catalog) (w : World) (v : Value) (type : SlotType) : Eval Value :=
  match cat.coerce w v type with
  | .ok u => return u
  | .error (.unfit shown label) => Eval.fail (.coercion shown label)
  | .error (.raised e) => Eval.escape e

/-- Gives a fresh integer of a fixed width its own cell. -/
def adopt (v : Value) : Eval Value := do
  let (v, w) := (← get).adopt v
  set w
  return v

/-- Assigns to the property shown under a name, and gives the value as stored. -/
def writeProperty (cat : Catalog) (v : Value) (label : String) (value : Value) : Eval Value := do
  let w ← get
  match cat.findProperty? w v label with
  | some p =>
    if !p.writable then Eval.fail (.memberNotFound (w.className v) .writableProperty label)
    else
      let stored ← adopt (← cat.fit w value p.type)
      match w.table? v with
      | some (frozen, entries) =>
        modify fun w => match v with
          | .object r => w.set r (.table frozen (cat.insert w (.text p.name) stored entries))
          | _ => w
        return stored
      | none =>
        Eval.invoke label (cat.assign v p.name stored)
        return stored
  | none => Eval.fail (.memberNotFound (w.className v) .writableProperty label)

end Catalog

end ObjectConsole
