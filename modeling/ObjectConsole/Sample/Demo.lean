import ObjectConsole.Builtin.Classes

/-!
The demonstration graph: a person with a pet and friends. It is what the console explores when no
other target is given.
-/

namespace ObjectConsole.Sample

open ObjectConsole.Builtin (arg)

def demoName (name : String) : ClassName := ⟨"autoconsole.demo", name⟩

def speciesName : ClassName := demoName "Species"

def petName : ClassName := demoName "Pet"

def personName : ClassName := demoName "Person"

def species (member : String) : Value := .choice speciesName member

def speciesOutline : Outline :=
  { name := speciesName
    ancestors := [speciesName, ⟨"enum", "Enum"⟩]
    choices := [("DOG", .text "dog"), ("CAT", .text "cat"), ("FISH", .text "fish")] }

def textAttribute (name : String) (attributes : List (String × Value)) : String :=
  match attributes.lookup name with
  | some (.text s) => s
  | _ => ""

def petOutline : Outline :=
  { name := petName
    ancestors := [petName]
    record := some { fields := [
      { name := "name", label := some "Name", shown := true },
      { name := "species", label := some "Species", shown := true },
      { name := "age", label := some "Age" }] }
    summary := some (textAttribute "name") }

def personOutline : Outline :=
  { name := personName
    ancestors := [personName]
    summary := some (textAttribute "_name") }

def newPet (name : String) (kind : String) (age : Int) : Act Value :=
  Act.alloc (.record petName
    [("name", .text name), ("species", species kind), ("age", .int age)])

def sound : Value → String
  | .choice _ "DOG" => "woof"
  | .choice _ "CAT" => "meow"
  | _ => "..."

def textOwn (v : Value) (name : String) : Act String := do
  return textAttribute name ((← get).attributes v)

def petBody : ClassBody where
  name := petName
  hints := [("name", .text), ("species", .cls speciesName), ("age", .int)]
  members := [
    ("species", .constant (species "DOG")),
    ("age", .constant (.int 0)),
    ("speak", .method {
      mark := { label := some "Speak", shown := true }
      run := fun v _ => do
        return .text ((← textOwn v "name") ++ " says " ++ sound (← Act.own v "species")) })]

/-- A property that reads and writes a hidden attribute. -/
def stored (label : String) (type : SlotType) (shown : Bool) (hidden : String) : Member :=
  .accessor {
    mark := { label := some label, shown }
    type
    get := some fun v => Act.own v hidden
    set := some fun v value => Act.assign v hidden value }

def setWeight (v value : Value) : Act Unit := do
  match value.number? with
  | some n =>
    if n.less (.int 0) || n.equal (.int 0) then
      Act.raise "ValueError" "weight must be positive"
    else Act.assign v "_weight" value
  | none => Act.assign v "_weight" value

/-- Longer texts are not built by repetition. -/
def repetitionLimit : Nat := Nat.pow 2 32

/-- A text said several times, with spaces between. -/
def repeated (s : String) (times : Int) : Act Value := do
  if Nat.pow 2 63 ≤ times ∨ times < -(Nat.pow 2 63) then
    Act.raise "OverflowError" "cannot fit 'int' into an index-sized integer"
  else if repetitionLimit < times.toNat then Act.raise "MemoryError" ""
  else return .text (" ".intercalate (List.replicate times.toNat s))

def shownAs (label : String) (params : List Param) (run : Value → List Value → Act Value) :
    Member :=
  .method { mark := { label := some label, shown := true }, params, run }

def appendOwn (v : Value) (name : String) (item : Value) : Act Value := do
  let list ← Act.own v name
  let items ← Builtin.itemsOf list
  Act.store list (.list (items ++ [item]))
  return .int (items.length + 1)

def personBody : ClassBody where
  name := personName
  members := [
    ("name", stored "Name" .text true "_name"),
    ("weight", .accessor {
      mark := { label := some "Weight" }
      type := .float
      get := some fun v => Act.own v "_weight"
      set := some setWeight }),
    ("length", stored "Length" .float true "_length"),
    ("pet", stored "Pet" (.union .spelled [.cls petName, .nullType]) true "_pet"),
    ("friends", .accessor {
      mark := { label := some "Friends", shown := true }
      type := .generic .capital (.core "list") [.cls personName]
      get := some fun v => Act.own v "_friends" }),
    ("say", shownAs "Say" [{ name := "what_to_say", type := .text }] fun _ args =>
      return arg args 0),
    ("say_times", shownAs "Say" [{ name := "times", type := .int }] fun v args => do
      repeated (← textOwn v "_name") (Builtin.integerOf (arg args 0))),
    ("say_two_things", shownAs "SayTwoThings"
      [{ name := "what_to_say", type := .text }, { name := "what_to_say_next", type := .text }]
      fun _ args =>
        let said := Builtin.textOf (arg args 0) ++ " and ".toList ++ Builtin.textOf (arg args 1)
        return Builtin.ofChars said),
    ("jump", shownAs "Jump" [] fun v _ => do
      Act.print ((← textOwn v "_name") ++ " jumped")
      return .null),
    ("add_friend", shownAs "AddFriend" [{ name := "friend", type := .cls personName }]
      fun v args => appendOwn v "_friends" (arg args 0)),
    ("adopt", shownAs "Adopt"
      [{ name := "name", type := .text },
        { name := "species", type := .cls speciesName, default := some (species "DOG") }]
      fun v args => do
        let pet ← Act.alloc (.record petName
          [("name", arg args 0), ("species", arg args 1), ("age", .int 0)])
        Act.assign v "_pet" pet
        return pet)]

def newPerson (name : String) (length weight : Float) (pet : Value) : Act Value := do
  let friends ← Act.alloc (.list [])
  Act.alloc (.record personName
    [("_name", .text name), ("_length", .float length), ("_weight", .float weight),
      ("_pet", pet), ("_friends", friends)])

/-- The person that the console explores by default. -/
def demoPerson : Act Value := do
  let bart ← newPerson "Bart" 1.8 83.2 (← newPet "Rex" "DOG" 4)
  let lisa ← newPerson "Lisa" 1.4 35 (← newPet "Snowball" "CAT" 2)
  let _ ← appendOwn bart "_friends" lisa
  let milhouse ← newPerson "Milhouse" 1.45 38.5 .null
  let _ ← appendOwn bart "_friends" milhouse
  return bart

def demoOutlines : List Outline := [speciesOutline, petOutline, personOutline]

def demoLineages (o : Outlines) : List (ClassName × List ClassBody) :=
  [(speciesName, [
      { name := speciesName
        members := [("DOG", .choice), ("CAT", .choice), ("FISH", .choice)] },
      Builtin.enumerationBody o]),
    (petName, [petBody]),
    (personName, [personBody])]

end ObjectConsole.Sample
