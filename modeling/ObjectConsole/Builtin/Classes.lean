import ObjectConsole.Builtin.Number
import ObjectConsole.Builtin.Sequence
import ObjectConsole.Builtin.Str
import ObjectConsole.Builtin.Table

/-!
The built-in classes: their outlines, and their lineages given the outlines of all classes.
-/

namespace ObjectConsole.Builtin

def coreOutline (name : String) (ancestors : List ClassName) : Outline :=
  { name := .core name, ancestors := .core name :: ancestors }

/-- What the integers of all widths descend from. -/
def sizedName : ClassName := ⟨"autoconsole.types", "_SizedInt"⟩

def outlines : List Outline :=
  [coreOutline "NoneType" [], coreOutline "bool" [.core "int"], coreOutline "int" [],
    coreOutline "float" [], coreOutline "str" [], coreOutline "bytes" [], coreOutline "list" [],
    coreOutline "tuple" [], coreOutline "dict" [], coreOutline "mappingproxy" []]
  ++ Width.all.map fun width =>
    { name := .ofWidth width
      ancestors := [.ofWidth width, sizedName, .core "int"] }

def lineages (lib : Library) (o : Outlines) : List (ClassName × List ClassBody) :=
  [(.core "bool", [{ name := .core "bool", members := [] }, integerBody lib]),
    (.core "int", [integerBody lib]),
    (.core "float", [floatBody lib]),
    (.core "str", [strBody lib]),
    (.core "bytes", [bytesBody lib]),
    (.core "list", [listBody o]),
    (.core "tuple", [tupleBody o]),
    (.core "dict", [tableBody o])]
  ++ Width.all.map fun width =>
    (.ofWidth width, [widthBody width, sizedBody width, integerBody lib])

/-- The class that enumerations descend from: every member has a name and a value. -/
def enumerationBody (o : Outlines) : ClassBody where
  name := ⟨"enum", "Enum"⟩
  members := [
    readOnly "name" fun v =>
      match v with
      | .choice _ name => return .text name
      | _ => return .null,
    readOnly "value" fun v =>
      match v with
      | .choice cls name => return ((o.find cls).choices.lookup name).getD .null
      | _ => return .null]

end ObjectConsole.Builtin
