import ObjectConsole.Display
import ObjectConsole.SlotType
import ObjectConsole.Decimal.Binary

/-!
Fitting a value to a declared type. Numbers change their kind where nothing is lost, strings name
members of enumerations, and all other values must already be instances of the type. A union
takes the first of its arms that fits. A refusal displays the value; where that fails, or where a
number is too large for a double, the error ends the search through arms and alternatives.
-/

namespace ObjectConsole

def tooLargeError : Raised := .ofCore "OverflowError" "int too large to convert to float"

inductive Refusal where
  | unfit (shown label : String)
  | raised (e : Raised)
  deriving DecidableEq, Repr

/-- The integer that a number is, if it has no fraction. Truth values are not numbers here. -/
def Value.integral? : Value → Option Int
  | .int n | .sized _ n _ => some n
  | .float x => Decimal.toInt? x
  | _ => none

namespace Outlines

/-- Whether a value is an instance of a class or of a class derived from it. -/
def isInstance (o : Outlines) (w : World) (v : Value) (c : ClassName) : Bool :=
  (o.outlineOf w v).descendsFrom c

/-- The classes whose instances an enumeration may have for members. -/
def scalarClasses : List ClassName := ["str", "int", "float"].map .core

/-- What a value is as a string or number: a member of an enumeration that derives from such a
class is its value. -/
def underlying (o : Outlines) (v : Value) : Value :=
  match v with
  | .choice c name =>
    if scalarClasses.any (o.find c).descendsFrom then ((o.find c).choices.lookup name).getD v else v
  | v => v

def refuse (o : Outlines) (w : World) (v : Value) (label : String) : Except Refusal Value :=
  match o.display w v with
  | .ok shown => .error (.unfit shown label)
  | .error e => .error (.raised e)

def coerceInstance (o : Outlines) (w : World) (v : Value) (c : ClassName) :
    Except Refusal Value :=
  if o.isInstance w v c then .ok v else o.refuse w v c.name

/-- A string that names a member of an enumeration becomes that member; all else has to be an
instance of the class. -/
def coerceClass (o : Outlines) (w : World) (v : Value) (c : ClassName) :
    Except Refusal Value :=
  match (o.find c).isEnumeration, o.underlying v with
  | true, .text s =>
    if ((o.find c).choices.lookup s).isSome then .ok (.choice c s) else o.refuse w v c.name
  | _, _ => o.coerceInstance w v c

def coerceSized (o : Outlines) (w : World) (v : Value) (width : Width) : Except Refusal Value :=
  match (o.underlying v).integral? with
  | some n => if width.fits n then .ok (.sized width n none) else o.refuse w v width.name
  | none => o.refuse w v width.name

def coerceInt (o : Outlines) (w : World) (v : Value) : Except Refusal Value :=
  match (o.underlying v).integral? with
  | some n => .ok (.int n)
  | none => o.refuse w v "int"

def coerceFloat (o : Outlines) (w : World) (v : Value) : Except Refusal Value :=
  match o.underlying v with
  | .float x => .ok (.float x)
  | .int n | .sized _ n _ =>
    match Decimal.ofInt? n with
    | some x => .ok (.float x)
    | none => .error (.raised tooLargeError)
  | _ => o.refuse w v "float"

def coerceBool (o : Outlines) (w : World) (v : Value) : Except Refusal Value :=
  match v with
  | .bool b => .ok (.bool b)
  | v => o.refuse w v "bool"

mutual

def coerce (o : Outlines) (w : World) (v : Value) : SlotType → Except Refusal Value
  | .undeclared | .any | .anyObject => .ok v
  | .nothing => .ok v
  | .nullType => if v.isNull then .ok v else o.refuse w v "NoneType"
  | .forward text =>
    if v.isNull && !(SlotType.forward text).isNullable then
      o.refuse w v (SlotType.forward text).label
    else .ok v
  | .literal text =>
    if v.isNull then o.refuse w v (SlotType.literal text).label else .ok v
  | .placeholder name =>
    if v.isNull then o.refuse w v (SlotType.placeholder name).label else .ok v
  | .bool => o.coerceBool w v
  | .int => o.coerceInt w v
  | .float => o.coerceFloat w v
  | .sized width => o.coerceSized w v width
  | .cls c => if v.isNull then o.refuse w v c.name else o.coerceClass w v c
  | .generic style origin arguments =>
    if v.isNull then o.refuse w v (SlotType.generic style origin arguments).label
    else o.coerceInstance w v origin
  | .union style arms =>
    if v.isNull then
      if (SlotType.union style arms).isNullable then .ok v
      else o.refuse w v (SlotType.union style arms).label
    else o.coerceArms w v (SlotType.union style arms).label arms

/-- The value that the first arm taking a value stores. The class of `null` is passed over. -/
def coerceArms (o : Outlines) (w : World) (v : Value) (label : String) :
    List SlotType → Except Refusal Value
  | [] => o.refuse w v label
  | arm :: arms =>
    if arm.isNullType then o.coerceArms w v label arms
    else
      match o.coerce w v arm with
      | .ok u => .ok u
      -- no later arm is tried: the error is to escape
      | .error (.raised e) => .error (.raised e)
      | .error (.unfit _ _) => o.coerceArms w v label arms

end

end Outlines

end ObjectConsole
