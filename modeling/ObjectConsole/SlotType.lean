import ObjectConsole.Value
import ObjectConsole.Text.Quoted

/-!
Declared types of slots, which are properties and parameters. A slot may have no declared type,
and a declaration may also be a name that cannot be resolved, kept as text.
-/

namespace ObjectConsole

inductive UnionStyle where
  | spelled
  | barred
  deriving DecidableEq, Repr

inductive GenericStyle where
  | capital
  | plain
  deriving DecidableEq, Repr

inductive SlotType where
  /-- Nothing is declared. -/
  | undeclared
  /-- Any value, by declaration. -/
  | any
  /-- The class of all objects. -/
  | anyObject
  /-- `None` in the place of a type. -/
  | nothing
  /-- The class of `null`. -/
  | nullType
  | bool
  | int
  | float
  | sized (w : Width)
  | cls (c : ClassName)
  | generic (style : GenericStyle) (origin : ClassName) (arguments : List SlotType)
  | union (style : UnionStyle) (arms : List SlotType)
  | literal (text : String)
  | placeholder (name : String)
  /-- An unresolved reference, as written. -/
  | forward (text : String)
  deriving Inhabited

namespace SlotType

def ofCore (name : String) : SlotType := .cls (.core name)

def text : SlotType := ofCore "str"

def isNullType : SlotType → Bool
  | nullType => true
  | _ => false

/-- Whether the type says nothing about values. -/
def isUnknown : SlotType → Bool
  | undeclared | any | anyObject => true
  | _ => false

def occurs (needle : List Char) (s : List Char) : Bool :=
  needle.isPrefixOf s || match s with
    | [] => false
    | _ :: rest => occurs needle rest

/-- Whether a slot of this type takes `null`. An unresolved reference is judged by its text. -/
def isNullable : SlotType → Bool
  | undeclared | any | anyObject | nothing | nullType => true
  | forward text => occurs "None".toList text.toList || occurs "Optional".toList text.toList
  | union _ arms => arms.any isNullType
  | _ => false

/-- A text without the qualifier of the typing vocabulary. -/
def dropQualifier : List Char → List Char
  | [] => []
  | c :: rest =>
    if "typing.".toList.isPrefixOf (c :: rest) then dropQualifier (rest.drop 6)
    else c :: dropQualifier rest
termination_by s => s.length
decreasing_by
  · simp only [List.length_drop, List.length_cons]; omega
  · simp

def genericHead (style : GenericStyle) (origin : ClassName) : String :=
  match style with
  | .capital => origin.name.capitalize
  | .plain => origin.qualified

/-- A union, given for each arm whether it is the class of `null` and its text. Between bars that
class is written `None`; a spelled union of it and one other type is an optional. -/
def unionText (style : UnionStyle) (isNull : List Bool) (texts : List String) : String :=
  match style, isNull, texts with
  | .barred, _, _ =>
    " | ".intercalate ((isNull.zip texts).map fun (null, text) => if null then "None" else text)
  | .spelled, [false, true], [text, _] => "Optional[" ++ text ++ "]"
  | .spelled, [true, false], [_, text] => "Optional[" ++ text ++ "]"
  | .spelled, _, _ => "Union[" ++ ", ".intercalate texts ++ "]"

mutual

/-- A type as written inside another type: classes with their homes. -/
def inner : SlotType → String
  | undeclared => "object"
  | any => "Any"
  | anyObject => "object"
  | nothing => "None"
  | nullType => "NoneType"
  | bool => "bool"
  | int => "int"
  | float => "float"
  | sized w => (ClassName.ofWidth w).qualified
  | cls c => c.qualified
  | generic style origin [] => genericHead style origin
  | generic style origin arguments =>
    genericHead style origin ++ "[" ++ ", ".intercalate (innerAll arguments) ++ "]"
  | union style arms => unionText style (arms.map isNullType) (innerAll arms)
  | literal text => "Literal[" ++ text ++ "]"
  | placeholder name => "~" ++ name
  | forward text => "ForwardRef(" ++ Text.displayString text ++ ")"

def innerAll : List SlotType → List String
  | [] => []
  | t :: ts => inner t :: innerAll ts

end

/-- A type as it stands in signatures and messages: a class by its name alone, an undeclared type
as the class of all objects. -/
def label : SlotType → String
  | undeclared | nothing => "object"
  | sized w => w.name
  | cls c => c.name
  | forward text => String.ofList (dropQualifier text.toList)
  | t => inner t

end SlotType

end ObjectConsole
