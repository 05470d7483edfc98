import ObjectConsole.ContextStack
import ObjectConsole.Evaluation
import ObjectConsole.Render

/-!
A session: a stack of contexts over a world, and the lines that are run on it. A line evaluates
against the current context, navigates into the value of an expression, or returns.
-/

namespace ObjectConsole

def returnCommand : List Char := "return".toList

structure Session where
  stack : ContextStack
  world : World
  emitted : List String := []

def unknownCommand : String := "Command unknown"

/-- The line that reports an error, if the error has a text. -/
def ConsoleError.diagnostic : ConsoleError → Except Raised String
  | .invocation name error => (ConsoleError.invocation name error).message
  | .atBase => ConsoleError.atBase.message
  | e => do return unknownCommand ++ ": " ++ (← e.message)

def Outcome.error? : Outcome → Option ConsoleError
  | .failed e => some e
  | _ => none

def Outcome.diagnostic? (o : Outcome) : Option String :=
  o.error?.bind fun e => e.diagnostic.toOption

namespace Session

def start (base : Value) (w : World) : Session := { stack := ⟨base, []⟩, world := w }

def emit (s : Session) (text : String) : Session := { s with emitted := s.emitted ++ [text] }

/-- Emits a diagnostic for an outcome that is an error. If the error has no text, what was raised
over it escapes. -/
def report (s : Session) (o : Outcome) : Outcome × Session :=
  match o.error? with
  | none => (o, s)
  | some e =>
    match e.diagnostic with
    | .ok text => (o, s.emit text)
    | .error raised => (.escaped raised, s)

@[simp] theorem world_report (s : Session) (o : Outcome) : (s.report o).2.world = s.world := by
  rw [report]
  split
  · rfl
  · split <;> rfl

@[simp] theorem stack_report (s : Session) (o : Outcome) : (s.report o).2.stack = s.stack := by
  rw [report]
  split
  · rfl
  · split <;> rfl

@[simp] theorem report_value (s : Session) (v : Value) (navigates : Bool) :
    s.report (.value v navigates) = (.value v navigates, s) := rfl

def goBack (s : Session) : Outcome × Session :=
  match s.stack.pop? with
  | none => s.report (.failed .atBase)
  | some (_, stack) => (.value stack.current false, { s with stack })

/-- Evaluates a line, and makes its value the current context if the line navigates. -/
def evaluate (cat : Catalog) (s : Session) (text : List Char) : Outcome × Session :=
  match cat.evaluate text s.stack.current s.world with
  | (.value v true, w) =>
    -- the stack holds the value, so it gets its cell before it is pushed
    let (v, w) := w.adopt v
    (.value v true, { s with stack := s.stack.push v, world := w })
  | (outcome, w) => (outcome, { s with world := w })

def runLine (cat : Catalog) (s : Session) (line : List Char) : Outcome × Session :=
  let text := Text.trim line
  if text = returnCommand then s.goBack
  else
    let (outcome, s) := s.evaluate cat text
    s.report outcome

def reset (s : Session) : Session := { s with stack := s.stack.reset }

def takePrinted (s : Session) : String × Session :=
  (s.world.printed, { s with world := { s.world with printed := "" } })

def takeEmitted (s : Session) : List String × Session := (s.emitted, { s with emitted := [] })

def path (s : Session) : String := s.stack.path s.world

end Session

/-- Whether the result of a line is echoed: a value other than `null`, unless the line navigated
or returned. -/
def Outcome.isShown (line : List Char) : Outcome → Bool
  | .value v navigates => !v.isNull && !navigates && Text.trim line != returnCommand
  | _ => false

end ObjectConsole
