import ObjectConsole.Coercion
import ObjectConsole.Error
import ObjectConsole.Sample.Demo

/-!
Exhibits: small classes that each show some kinds of members and types, from record classes with
marked fields to methods that share a name, properties that fail and attributes that hide a
method.
-/

namespace ObjectConsole.Sample

open ObjectConsole.Builtin (arg needs allows method)

def exhibitName (name : String) : ClassName := ⟨"fixtures", name⟩

def fixedOutline (name text : String) : Outline :=
  { name := exhibitName name, ancestors := [exhibitName name], summary := some fun _ => text }

def summaryOf (o : Outlines) (v : Value) : Act String := fun w =>
  match o.summary w v with
  | .ok text => .ok text w
  | .error e => .error e w

/-- The class and the text of a value. -/
def tag (o : Outlines) (v : Value) : Act String := do
  let w ← get
  return w.className v ++ ":" ++ (← summaryOf o v)

def typed (name : String) (type : SlotType) : Param := { name, type }

def typedOr (name : String) (type : SlotType) (default : Value) : Param :=
  { name, type, default := some default }

def labelled (name label : String) (params : List Param)
    (run : Value → List Value → Act Value) : String × Member :=
  (name, .method { mark := { label := some label }, params, run })

def replies (name text : String) : String × Member := method name [] fun _ _ => return .text text

def said (args : List Value) (i : Nat) : String := String.ofList (Builtin.textOf (arg args i))

def optional (t : SlotType) : SlotType := .union .spelled [t, .nullType]

def intList : SlotType := .generic .capital (.core "list") [.int]

/-! ### A record that counts -/

def counterOutline : Outline :=
  { name := exhibitName "Counter"
    ancestors := [exhibitName "Counter"]
    record := some { fields := [{ name := "values" }, { name := "label" }, { name := "hits" }] } }

def counterBody (o : Outlines) : ClassBody where
  name := exhibitName "Counter"
  hints := [("values", intList), ("label", optional .text), ("hits", .int)]
  members := [
    ("label", .constant .null),
    ("hits", .constant (.int 0)),
    method "bump" [typedOr "by" .int (.int 1)] fun v args => do
      let hits := Builtin.integerOf (← Act.own v "hits") + Builtin.integerOf (arg args 0)
      Act.assign v "hits" (.int hits)
      return .int hits,
    method "boom" [] fun _ _ => Act.raise "RuntimeError" "kaboom",
    labelled "describe_float" "Describe" [typed "value" .float] fun _ args => do
      return .text ("float " ++ (← summaryOf o (arg args 0))),
    labelled "describe_text" "Describe" [typed "value" .text] fun _ args =>
      return .text ("text " ++ said args 0),
    method "accept" [typed "value" (optional .text)] fun _ args =>
      return if (arg args 0).isNull then .text "none" else arg args 0,
    method "strict" [typed "value" .text] fun _ args => return arg args 0]

/-! ### Plain class attributes -/

/-- The place of the integer that the class below holds itself. -/
def heldRef : Ref := 0

def initialWorld : World := ⟨#[.record (.ofWidth .w8) []], ""⟩

def plainBody : ClassBody where
  name := exhibitName "Plain"
  hints := [("count", .int), ("ratio", optional .float), ("small", .sized .w8),
    ("mood", .cls speciesName)]
  members := [
    ("count", .constant (.int 0)),
    ("label", .constant (.text "x")),
    ("ratio", .constant .null),
    ("small", .constant (.sized .w8 7 (some heldRef))),
    ("mood", .constant (species "CAT"))]

/-! ### Properties with effects -/

def incremented (v : Value) : Act Value := do
  let w ← get
  let unsupported :=
    Act.raise "TypeError"
      ("unsupported operand type(s) for +=: '" ++ w.className v ++ "' and 'int'")
  match v with
  | .float x => return .float (x + 1)
  | .text _ => Act.raise "TypeError" "can only concatenate str (not \"int\") to str"
  | .tuple _ => Act.raise "TypeError" "can only concatenate tuple (not \"int\") to tuple"
  | .object _ =>
    if (w.items? v).isSome then Act.raise "TypeError" "'int' object is not iterable"
    else unsupported
  | _ =>
    match Builtin.indexValue? v with
    | some n => return .int (n + 1)
    | none => unsupported

/-- Counts a read in the attribute `calls`. -/
def countCall (v : Value) : Act Value := do
  let calls ← incremented (← Act.own v "calls")
  Act.assign v "calls" calls
  return calls

def lazyBody : ClassBody where
  name := exhibitName "Lazy"
  members := [
    ("total", .accessor {
      type := .int, cached := true
      get := some fun v => do
        let _ ← countCall v
        return .int 42 }),
    ("fresh", .accessor { type := .int, get := some countCall })]

def newLazy : Act Value := Act.alloc (.record (exhibitName "Lazy") [("calls", .int 0)])

/-! ### A class and a class derived from it -/

def classOutline (name : String) (ancestors : List ClassName) (text : String) : Outline :=
  { name := exhibitName name, ancestors := exhibitName name :: ancestors
    summary := some fun _ => text }

def baseBody (o : Outlines) : ClassBody where
  name := exhibitName "Base"
  hints := [("level", .int)]
  members := [
    ("kind", .constant (.text "base")),
    ("level", .constant (.int 1)),
    method "greet" [typedOr "who" .text (.text "you")] fun _ args =>
      return .text ("hi " ++ said args 0),
    replies "shared" "base shared",
    replies "mute" "never: shadowed by the instance attribute",
    labelled "pick_any" "Pick" [needs "x"] fun _ args => do
      return .text ("any " ++ (← tag o (arg args 0)))]

def derivedBody (o : Outlines) : ClassBody where
  name := exhibitName "Derived"
  members := [
    ("kind", .constant (.text "derived")),
    ("Alias", .other),
    ("broken", .accessor {
      type := .int, get := some fun _ => Act.raise "KeyError" "'lost'" }),
    ("secret", .accessor { set := some fun v value => Act.assign v "_secret" value }),
    ("peek", .accessor {
      mark := { label := some "Peek", shown := true }
      type := .text, get := some fun v => Act.own v "_secret" }),
    method "add" [typed "a" .int, typed "b" .int] fun _ args =>
      return .int (Builtin.integerOf (arg args 0) + Builtin.integerOf (arg args 1)),
    method "title" [typed "prefix" .text] fun v args => do
      return .text (said args 0 ++ (← get).className v),
    replies "shared" "derived shared",
    labelled "pick_int" "Pick" [typed "x" .int] fun _ args => do
      return .text ("int " ++ (← tag o (arg args 0))),
    labelled "pick_two" "Pick" [typed "x" .int, typedOr "y" .text (.text "z")] fun _ args => do
      return .text ("two " ++ (← tag o (arg args 0)) ++ " " ++ said args 1),
    method "kwreq" [needs "a", { name := "flag", kind := .named }] fun _ _ =>
      return .text "unreachable",
    method "kwopt"
      [needs "a", { name := "flag", kind := .named, default := some (.bool false) }]
      fun _ args => do return .text ("kwopt " ++ (← tag o (arg args 0)) ++ " False"),
    method "var"
      [needs "first", { name := "rest", kind := .rest }, { name := "kw", kind := .rest }]
      fun _ args => do return .text ("var " ++ (← tag o (arg args 0)) ++ " 0"),
    method "fwd"
      [typed "x" (.forward "Missing"), typed "y" (.forward "Optional[Missing]"),
        typed "z" (.forward "int")]
      fun _ args => do
        return .text ("fwd " ++ (← tag o (arg args 0)) ++ " " ++ (← tag o (arg args 1))
          ++ " " ++ (← tag o (arg args 2))),
    method "dflt" [typedOr "x" .int .null, typedOr "y" .text (.text "d")] fun _ args => do
      return .text ("dflt " ++ (← tag o (arg args 0)) ++ " " ++ said args 1),
    ("marked", .method { mark := { shown := true }, run := fun v _ => return v })]

def newBase (name : String) : Act Value := do
  let innermost ← Act.alloc (.list [.int 8])
  let inner ← Act.alloc (.list [.int 7, innermost])
  let items ← Act.alloc
    (.list [.int 1, .float 2.5, .text "s", .null, .bool true, inner])
  Act.alloc (.record (exhibitName name)
    [("items", items), ("pair", .tuple [.int 1, .text "two", .null]),
      ("_secret", .text "hidden"), ("mute", .text "attr")])

/-! ### Methods that share a name, one for each rule of conversion -/

/-- A method under a shared label that shows which alternative ran with what. -/
def alternative (o : Outlines) (label word name : String) (type : SlotType) : String × Member :=
  labelled name label [typed "v" type] fun _ args => do
    return .text (word ++ " " ++ (← tag o (arg args 0)))

def quotient (a b : Int) : Act Value :=
  if b = 0 then Act.raise "ZeroDivisionError" "integer division or modulo by zero"
  else return .int (a.fdiv b)

def overBody (o : Outlines) : ClassBody where
  name := exhibitName "Over"
  members := [
    alternative o "T" "bool" "t_bool" .bool,
    alternative o "T" "Int8" "t_i8" (.sized .w8),
    alternative o "T" "Int16" "t_i16" (.sized .w16),
    alternative o "T" "int" "t_int" .int,
    alternative o "T" "float" "t_float" .float,
    labelled "t_species" "T" [typed "v" (.cls speciesName)] fun _ args =>
      match arg args 0 with
      | .choice _ name => return .text ("Species " ++ name)
      | _ => return .null,
    labelled "t_str" "T" [typed "v" .text] fun _ args => return .text ("str " ++ said args 0),
    labelled "t_list" "T" [typed "v" intList] fun _ args => do
      return .text ("list " ++ toString (← Builtin.itemsOf (arg args 0)).length),
    labelled "t_opt_pet" "T" [typed "v" (optional (.cls petName))] fun _ args => do
      if (arg args 0).isNull then return .text "pet none"
      else return .text ("pet " ++ (← textOwn (arg args 0) "name")),
    alternative o "U" "union" "u_union" (.union .spelled [.float, .text, .nullType]),
    alternative o "U" "rest" "u_rest" .any,
    method "sizes"
      [typed "a" (.sized .w8), typed "b" (.sized .w16), typed "c" (.sized .w32),
        typed "d" (.sized .w64)]
      fun _ args => do return .text (" ".intercalate (← args.mapM (tag o))),
    method "strf" [typed "f" .float] fun _ args => do return .text (← tag o (arg args 0)),
    method "mixed"
      [typed "a" .text, typedOr "b" .int (.int 2), typedOr "c" (optional .float) .null]
      fun _ args => do
        return .text (said args 0 ++ " " ++ (← tag o (arg args 1)) ++ " "
          ++ (← tag o (arg args 2))),
    method "div" [typed "a" .int, typed "b" .int] fun _ args =>
      quotient (Builtin.integerOf (arg args 0)) (Builtin.integerOf (arg args 1)),
    method "inner" [] fun _ _ =>
      throw ⟨⟨"autoconsole.types", "ParseError"⟩, "inner parse"⟩,
    method "echo" [needs "v"] fun _ args => do
      Act.print ("echo " ++ (← tag o (arg args 0)))
      return arg args 0,
    method "wrap" [needs "v"] fun _ args => Act.alloc (.list [arg args 0]),
    method "table" [typed "k" .text, needs "v"] fun _ args =>
      Act.alloc (.table false [(arg args 0, arg args 1)])]

/-! ### A frozen record -/

def pointOutline : Outline :=
  { name := exhibitName "Point"
    ancestors := [exhibitName "Point"]
    record := some {
      fields := [{ name := "x" }, { name := "y", label := some "Y" },
        { name := "label", shown := true }, { name := "_hidden" }]
      frozen := true } }

def newPoint (x y label : Value) : Act Value :=
  Act.alloc (.record (exhibitName "Point")
    [("x", x), ("y", y), ("label", label), ("_hidden", .int 5)])

/-- The double of a number, unless it is too large. -/
def toDouble : Value → Act Float
  | .float x => return x
  | v =>
    match Decimal.ofInt? (Builtin.integerOf v) with
    | some x => return x
    | none => throw tooLargeError

def sumOf (a b : Value) : Act Value := do return .float ((← toDouble a) + (← toDouble b))

def magnitude : Value → Value
  | .float x => .float x.abs
  | v => .int (Builtin.integerOf v).natAbs

def pointBody : ClassBody where
  name := exhibitName "Point"
  hints := [("x", .float), ("y", .int), ("label", optional .text), ("_hidden", .int)]
  members := [
    ("y", .constant (.int 0)),
    ("label", .constant .null),
    ("_hidden", .constant (.int 5)),
    ("unit", .constant (.text "cm")),
    method "moved" [typed "dx" .float, typedOr "dy" .int (.int 0)] fun v args => do
      let x ← sumOf (← Act.own v "x") (arg args 0)
      let y := Builtin.integerOf (← Act.own v "y") + Builtin.integerOf (arg args 1)
      newPoint x (.int y) (← Act.own v "label"),
    ("norm1", .accessor {
      type := .float
      get := some fun v => do
        sumOf (magnitude (← Act.own v "x")) (magnitude (← Act.own v "y")) })]

/-! ### Reserved places -/

def slottedBody : ClassBody where
  name := exhibitName "Slotted"
  members := [("_c", .slot), ("a", .slot), ("b", .slot)]

/-! ### All exhibits -/

def exhibitOutlines : List Outline :=
  [counterOutline, fixedOutline "Plain" "plain", fixedOutline "Lazy" "lazy",
    classOutline "Base" [] "<base>", classOutline "Derived" [exhibitName "Base"] "<derived>",
    fixedOutline "Over" "over", pointOutline, fixedOutline "Slotted" "slotted"]

def exhibitLineages (o : Outlines) : List (ClassName × List ClassBody) :=
  [(exhibitName "Counter", [counterBody o]),
    (exhibitName "Plain", [plainBody]),
    (exhibitName "Lazy", [lazyBody]),
    (exhibitName "Base", [baseBody o]),
    (exhibitName "Derived", [derivedBody o, baseBody o]),
    (exhibitName "Over", [overBody o]),
    (exhibitName "Point", [pointBody]),
    (exhibitName "Slotted", [slottedBody])]

end ObjectConsole.Sample
