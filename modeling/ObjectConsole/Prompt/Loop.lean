import ObjectConsole.Prompt.Completion
import ObjectConsole.Prompt.Toggle

/-!
The prompt: one input after the other is typed, interrupted or asked to be completed, until the
user leaves or the input ends. What each input prints is a value, and printing is left to the
caller.
-/

namespace ObjectConsole.Prompt

structure Printed where
  out : String := ""
  err : String := ""
  deriving DecidableEq, Repr, Inhabited

def Printed.followedBy (p q : Printed) : Printed := ⟨p.out ++ q.out, p.err ++ q.err⟩

def line (s : String) : String := s ++ "\n"

def lines (ls : List String) : String := String.join (ls.map line)

inductive Input where
  | typed (text : List Char)
  | interrupt
  | complete (beforeCursor : List Char)
  | endOfInput
  deriving Repr

structure State where
  session : Session
  showAll : Bool
  trace : Bool
  running : Bool := true

def banner : String :=
  line "autoconsole: Ctrl-D or 'exit' to leave, /help for commands"

def State.prompt (s : State) : String := s.session.path ++ "> "

/-- The lines that report where a member's code failed. -/
def traceLines (e : Raised) : List String :=
  ["", "Python traceback:", "Traceback (most recent call last):",
    if e.text.isEmpty then e.cls.qualified else e.cls.qualified ++ ": " ++ e.text]

/-- What an outcome prints after the diagnostic: the trace of a failed member, if traces are
asked for, or the value. Printing a value may raise an error. -/
def reportOutcome (cat : Catalog) (s : State) (text : List Char) : Outcome → Except Raised Printed
  | .failed (.invocation _ error) =>
    .ok { err := if s.trace then lines (traceLines error) else "" }
  | .escaped e => .error e
  | outcome =>
    match outcome, outcome.isShown text with
    | .value v _, true => do return { out := line (← cat.format s.session.world v) }
    | _, _ => .ok {}

/-- What comes of an input: the state after it and what it prints, whether it clears the screen,
the offers of a completion, or an error that escapes from the prompt. -/
structure Reaction where
  state : State
  printed : Printed := {}
  clears : Bool := false
  completions : Option (List Completion) := none
  escaped : Option Raised := none

/-- Puts the text that methods have printed and the diagnostics that were emitted in front. -/
def withPrinted (s : State) (p : Printed) : State × Printed :=
  let (text, session) := s.session.takePrinted
  let (diagnostics, session) := session.takeEmitted
  ({ s with session }, { out := text ++ p.out, err := lines diagnostics ++ p.err })

/-- The reaction that prints something behind what was printed before, or lets an error escape. -/
def printing (s : State) : Except Raised Printed → Reaction
  | .ok p =>
    let (s, printed) := withPrinted s p
    { state := s, printed }
  | .error e =>
    let (s, printed) := withPrinted s {}
    { state := s, printed, escaped := some e }

def runExpression (cat : Catalog) (s : State) (text : List Char) : Reaction :=
  let (outcome, session) := s.session.runLine cat text
  let s := { s with session }
  printing s (reportOutcome cat s text outcome)

def listMembers (cat : Catalog) (s : State) : Reaction :=
  match cat.memberLines s.session.stack.current s.showAll s.session.world with
  | .ok ls w =>
    printing { s with session := { s.session with world := w } }
      (.ok { out := lines (if ls.isEmpty then ["(no members)"] else ls) })
  | .error e w => printing { s with session := { s.session with world := w } } (.error e)

def switchWord (b : Bool) : String := if b then "on" else "off"

def runCommand (cat : Catalog) (s : State) (c : Command) (argument : List Char) : Reaction :=
  match c with
  | .clear => { state := s, clears := true }
  | .help => { state := s, printed := { out := lines helpLines } }
  | .members => listMembers cat s
  | .stack => { state := s, printed := { out := line s.session.path } }
  | .reset => { state := { s with session := s.session.reset } }
  | .showAll =>
    match toggle argument s.showAll with
    | some value =>
      { state := { s with showAll := value }
        printed := { out := line ("Show all members: " ++ switchWord value) } }
    | none => { state := s, printed := { err := line c.usage } }
  | .traceback =>
    match toggle argument s.trace with
    | some value =>
      { state := { s with trace := value }
        printed := { out := line ("Python traceback: " ++ switchWord value) } }
    | none => { state := s, printed := { err := line c.usage } }

/-- Handles a typed line: nothing for a blank one, the end of the prompt for an exit word, else a
command or an expression. -/
def handle (cat : Catalog) (s : State) (typed : List Char) : Reaction :=
  let text := visible typed
  if Text.isBlankText text then { state := s }
  else if exitWords.contains (Text.trim text) then { state := { s with running := false } }
  else
    match slashLine? text with
    | none => runExpression cat s text
    | some (word, argument) =>
      match Command.ofWord? word with
      | some c => runCommand cat s c argument
      | none =>
        { state := s, printed := { err := line ("Unknown command: " ++ String.ofList word) } }

def react (cat : Catalog) (s : State) : Input → Reaction
  | .typed text => handle cat s text
  | .interrupt => { state := s, printed := { out := line "KeyboardInterrupt" } }
  | .complete text =>
    let (offers, session) := Prompt.complete cat s.session text
    let (s, printed) := withPrinted { s with session } {}
    { state := s, printed, completions := some offers }
  | .endOfInput => { state := { s with running := false }, printed := { out := line "" } }

/-- Reacts to inputs in turn as long as the prompt is running: the reactions, each with the prompt
that was shown before it, and the number of inputs left over. -/
def run (cat : Catalog) (s : State) : List Input → List (String × Reaction) × Nat
  | [] => ([], 0)
  | input :: rest =>
    if s.running then
      let reaction := react cat s input
      if reaction.escaped.isSome then ([(s.prompt, reaction)], rest.length)
      else
        let (reactions, left) := run cat reaction.state rest
        ((s.prompt, reaction) :: reactions, left)
    else ([], rest.length + 1)

end ObjectConsole.Prompt
