import ObjectConsole.Class

/-!
The members of a value that the console shows and uses. The properties of a table are its string
keys. Every other value has the fields of its record class, then its own attributes, then the
members of its classes, most derived first; a name counts where it is met first, and names that
start with an underscore do not count.
-/

namespace ObjectConsole

/-- A property as described. `name` is the declared name, `label` the one it is shown under. -/
structure PropertyInfo where
  name : String
  label : String
  type : SlotType
  readable : Bool
  writable : Bool
  shown : Bool := false

structure ParamInfo where
  name : String
  type : SlotType
  nullable : Bool
  default : Option Value

def ParamInfo.isOptional (p : ParamInfo) : Bool := p.default.isSome

structure MethodInfo where
  name : String
  label : String
  params : List ParamInfo
  shown : Bool := false
  run : Value → List Value → Act Value

namespace MethodInfo

def arity (m : MethodInfo) : Nat := m.params.length

def required (m : MethodInfo) : Nat := m.params.countP fun p => !p.isOptional

def accepts (m : MethodInfo) (count : Nat) : Bool := m.required ≤ count && count ≤ m.arity

end MethodInfo

def isPublic (name : String) : Bool := name.toList.head? != some '_'

/-- Keeps the first entry of every name that was not seen before. -/
def firstUnseen {α : Type} (seen : List String) : List (String × α) → List (String × α)
  | [] => []
  | (name, a) :: rest =>
    if seen.contains name then firstUnseen seen rest
    else (name, a) :: firstUnseen (name :: seen) rest

def firstOfEach {α : Type} (entries : List (String × α)) : List (String × α) :=
  firstUnseen [] entries

structure Subject where
  cls : ClassDef
  /-- The names of the value's own attributes that are not reserved places. -/
  own : List String

namespace Subject

def ofField (s : Subject) (f : Field) : PropertyInfo :=
  { name := f.name, label := f.label.getD f.name, type := s.cls.hint f.name
    readable := true, writable := !s.cls.outline.isFrozen, shown := f.shown }

/-- The property that an attribute, a plain value of the class or a reserved place is. -/
def plain (name : String) (type : SlotType) : PropertyInfo :=
  { name, label := name, type, readable := true, writable := true }

def ofAccessor (name : String) (a : Accessor) : PropertyInfo :=
  { name
    label := if a.get.isSome then a.mark.displayName name else name
    type := if a.get.isSome then a.type else .undeclared
    readable := a.get.isSome
    writable := a.cached || a.set.isSome
    shown := a.get.isSome && a.mark.shown }

def ofMember (s : Subject) (name : String) : Member → Option PropertyInfo
  | .accessor a => some (ofAccessor name a)
  | .slot => some (plain name .undeclared)
  | .constant _ => some (plain name (s.cls.hint name))
  | .method _ | .choice | .other => none

/-- Whether a member is part of an enumeration; such a member hides nothing. -/
def isChoice : Member → Bool
  | .choice => true
  | _ => false

def members (s : Subject) : List (String × Member) := s.cls.lineage.flatMap (·.members)

/-- All that could be a property, in order, hidden entries included. -/
def propertyCandidates (s : Subject) : List (String × Option PropertyInfo) :=
  s.cls.outline.fields.map (fun f => (f.name, some (s.ofField f)))
    ++ s.own.map (fun name => (name, some (plain name (s.cls.hint name))))
    ++ (s.members.filter fun (_, m) => !isChoice m).map fun (name, m) => (name, s.ofMember name m)

def properties (s : Subject) : List PropertyInfo :=
  (firstOfEach (s.propertyCandidates.filter fun (name, _) => isPublic name)).filterMap (·.2)

def ofParam (p : Param) : ParamInfo :=
  { name := p.name, type := p.type, nullable := p.isNullable, default := p.default }

/-- The method that a member is, unless an attribute of the value hides it. -/
def methodOf (s : Subject) (name : String) : Member → Option MethodInfo
  | .method m =>
    if s.own.contains name then none
    else
      m.callParams?.map fun params =>
        { name, label := m.mark.displayName name, params := params.map ofParam
          shown := m.mark.shown, run := m.run }
  | _ => none

def methods (s : Subject) : List MethodInfo :=
  (firstOfEach (s.members.filter fun (name, _) => isPublic name)).filterMap fun (name, m) =>
    s.methodOf name m

end Subject

def keyProperties (frozen : Bool) (entries : List (Value × Value)) : List PropertyInfo :=
  entries.filterMap fun (key, _) =>
    match key with
    | .text name => some { name, label := name, type := .undeclared, readable := true
                           writable := !frozen }
    | _ => none

namespace Catalog

def subject (cat : Catalog) (w : World) (v : Value) : Subject :=
  let cls := cat.classOf w v
  { cls, own := ((w.attributes v).map (·.1)).filter fun name => !cls.isSlot name }

/-- The properties of a value, in listing order. -/
def properties (cat : Catalog) (w : World) (v : Value) : List PropertyInfo :=
  match w.table? v with
  | some (frozen, entries) => keyProperties frozen entries
  | none => if v.isNull then [] else (cat.subject w v).properties

def methods (cat : Catalog) (w : World) (v : Value) : List MethodInfo :=
  if v.isNull then [] else (cat.subject w v).methods

def findProperty? (cat : Catalog) (w : World) (v : Value) (label : String) :
    Option PropertyInfo :=
  (cat.properties w v).find? fun p => p.label == label

/-- The names that the members of a value are shown under, each once, properties first. -/
def memberNames (cat : Catalog) (w : World) (v : Value) : List String :=
  (firstOfEach (((cat.properties w v).map (·.label) ++ (cat.methods w v).map (·.label)).map
    fun name => (name, ()))).map (·.1)

end Catalog

end ObjectConsole
