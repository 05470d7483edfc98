import ObjectConsole.Display
import ObjectConsole.Line.Bracket

/-!
What can go wrong with a line. Most errors are reported and end the line; errors of number
conversion, and of writing numbers out, are not, and escape from the console.
-/

namespace ObjectConsole

inductive MemberKind where
  | member
  | property
  | writableProperty
  | method
  deriving DecidableEq, Repr

def MemberKind.word : MemberKind → String
  | .member => "member"
  | .property => "property"
  | .writableProperty => "writable property"
  | .method => "method"

inductive ConsoleError where
  | emptyExpression
  | missingMethodName
  | missingAssignmentTarget
  | nestedTooDeeply
  | bracket (e : Line.BracketError)
  | nullContext
  | notSequence (name : String)
  | indexNotInteger (className : String)
  | memberNotFound (className : String) (kind : MemberKind) (name : String)
  /-- No method of the name takes the arguments. Their text is asked for only when the error is
  reported, and need not exist. -/
  | noMatchingOverload (shown : Except Raised String)
  /-- An index, written out. -/
  | indexOutOfRange (index : String) (length : Nat)
  /-- A value, as displayed, that a slot of the given type does not take. -/
  | coercion (shown : String) (label : String)
  | invocation (name : String) (error : Raised)
  | atBase

/-- The text of an error, if it has one: the arguments of a call may not. -/
def ConsoleError.message : ConsoleError → Except Raised String
  | .emptyExpression => .ok "Empty expression"
  | .missingMethodName => .ok "Missing method name"
  | .missingAssignmentTarget => .ok "Missing assignment target"
  | .nestedTooDeeply => .ok "Expression is nested too deeply"
  | .bracket e => .ok e.message
  | .nullContext => .ok "Nothing to resolve against (context is null)"
  | .notSequence name => .ok ("'" ++ name ++ "' is not an ordered sequence")
  | .indexNotInteger className => .ok ("Index must be an integer, got " ++ className)
  | .memberNotFound className kind name =>
    .ok (className ++ " has no " ++ kind.word ++ " '" ++ name ++ "'")
  | .noMatchingOverload shown => shown
  | .indexOutOfRange index length =>
    .ok ("Index " ++ index ++ " is out of range for length " ++ toString length)
  | .coercion shown label => .ok ("Cannot convert " ++ shown ++ " to " ++ label)
  | .invocation name error => .ok (name ++ " raised " ++ error.cls.name ++ ": " ++ error.text)
  | .atBase => .ok "Already at the base context"

inductive Stop where
  | reported (e : ConsoleError)
  | escaped (e : Raised)

abbrev Eval := EStateM Stop World

namespace Eval

def fail {α : Type} (e : ConsoleError) : Eval α := throw (.reported e)

def escape {α : Type} (e : Raised) : Eval α := throw (.escaped e)

/-- Runs the code of a member; an error that it raises is reported under the member's name. -/
def invoke {α : Type} (name : String) (act : Act α) : Eval α := fun w =>
  match act w with
  | .ok a w => .ok a w
  | .error e w => .error (.reported (.invocation name e)) w

end Eval

/-- The error of a run of digits that is too long for an integer. -/
def overlongError (digits : Nat) : Raised :=
  ⟨.core "ValueError", "Exceeds the limit (4300 digits) for integer string conversion: value has "
    ++ toString digits ++ " digits; use sys.set_int_max_str_digits() to increase the limit"⟩

def unfitError (w : Width) (n : Int) : Raised :=
  match integerText n with
  | .ok text => .ofCore "OverflowError" (text ++ " does not fit in " ++ w.name)
  | .error e => e

def Value.ofWidth (w : Width) (n : Int) : Except Raised Value :=
  if w.fits n then .ok (.sized w n none) else .error (unfitError w n)

def Line.Bracket.ofText (s : List Char) : Except Raised Line.Bracket :=
  let error : Raised :=
    ⟨.core "ValueError", "Unsupported bracket " ++ String.ofList (Text.display s)⟩
  match s with
  | [c] =>
    match Line.Bracket.ofOpener? c with
    | some kind => .ok kind
    | none => .error error
  | _ => .error error

end ObjectConsole
