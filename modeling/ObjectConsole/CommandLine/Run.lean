import ObjectConsole.CommandLine.Options
import ObjectConsole.CommandLine.Target
import ObjectConsole.Prompt.Loop
import ObjectConsole.Reading

/-!
A run from the command line: the arguments lead to a session on a source, and to lines that are
run on it. Without lines the session is for a prompt.
-/

namespace ObjectConsole.CommandLine

def jsonMessage : String := "--json: not a valid literal or structured value"

def lostText (operation : String) : Raised :=
  ⟨.core "AttributeError", "'list' object has no attribute '" ++ operation ++ "'"⟩

def Source.value (cat : Catalog) (modules : List Module) (demo : Act Value) :
    Source → Act (Except String Value)
  | .demo => return .ok (← demo)
  | .json none => throw (lostText "strip")
  | .json (some text) => do
    match ← Reading.ofToken? text with
    | some r => return if r.value.isNull then .error jsonMessage else .ok r.value
    | none => return .error jsonMessage
  | .target none => throw (lostText "partition")
  | .target (some reference) => do
    match ← loadTarget cat modules reference with
    | .ok v => return .ok v
    | .error e => return .error e.message

inductive Start where
  | help
  | refused (e : UsageError)
  /-- There is nothing to explore, for the reason in the message. -/
  | ended (message : String)
  | escaped (e : Raised)
  | ready (session : Session) (lines : List (Option (List Char)))

/-- The start that the arguments lead to, in a world in which nothing has been made. The
demonstration is explored if no source is given. -/
def start (cat : Catalog) (modules : List Module) (demo : Act Value) (w : World)
    (args : List (List Char)) : Start :=
  match usage args with
  | .error e => .refused e
  | .ok .help => .help
  | .ok (.request r) =>
    match (r.source.getD .demo).value cat modules demo w with
    | .ok (.ok v) w =>
      let (v, w) := w.adopt v
      .ready (.start v w) r.lines
    | .ok (.error message) _ => .ended message
    | .error e _ => .escaped e

/-- What is echoed of an outcome, on the standard output. -/
def echoed (cat : Catalog) (w : World) (text : List Char) (o : Outcome) : Except Raised String :=
  match o, o.isShown text with
  | .escaped e, _ => .error e
  | .value v _, true => do return Prompt.line (← cat.format w v)
  | _, _ => .ok ""

/-- Runs lines in turn on a session: what they print, and whether one of them failed, or else the
error that escapes from a line, which ends the run. -/
def runLines (cat : Catalog) (s : Session) (failed : Bool) :
    List (Option (List Char)) → Prompt.Printed × Except Raised Bool
  | [] => ({}, .ok failed)
  | none :: _ => ({}, .error (lostText "strip"))
  | some text :: rest =>
    let (outcome, s) := s.runLine cat text
    let echo := echoed cat s.world text outcome
    let (printed, s) := s.takePrinted
    let (diagnostics, s) := s.takeEmitted
    match echo with
    | .ok echo =>
      let (more, ending) := runLines cat s (failed || outcome.error?.isSome) rest
      (Prompt.Printed.followedBy ⟨printed ++ echo, Prompt.lines diagnostics⟩ more, ending)
    | .error e => (⟨printed, Prompt.lines diagnostics⟩, .error e)

/-- Runs the lines of a command line: what is printed, and the exit status if no error escapes. -/
def run (cat : Catalog) (s : Session) (lines : List (Option (List Char))) :
    Prompt.Printed × Except Raised Nat :=
  let (printed, ending) := runLines cat s false lines
  (printed, ending.map fun failed => if failed then 1 else 0)

end ObjectConsole.CommandLine
