import ObjectConsole.Text.Digit

/-!
The arguments of the command. An option may be shortened to a beginning that no other option
shares; its value is the next argument, or stands in the same argument behind an equals sign or
behind a letter. Values that look like options have to be attached, except negative numbers, texts
with a space, and the lines to run, which are attached beforehand.
-/

namespace ObjectConsole.CommandLine

inductive Flag where
  | help
  | demo
  | json
  | target
  | line
  deriving DecidableEq, Repr

def flagWords : List (List Char × Flag) :=
  [("-h".toList, .help), ("--help".toList, .help), ("--demo".toList, .demo),
    ("--json".toList, .json), ("--target".toList, .target), ("-c".toList, .line),
    ("--command".toList, .line)]

inductive Attached where
  | none
  /-- Behind a word and an equals sign. -/
  | equals (value : List Char)
  /-- Behind a letter, or behind a letter and an equals sign. -/
  | letters (value : List Char)
  deriving DecidableEq, Repr

inductive Argument where
  /-- No option: the value of one, or out of place. -/
  | plain (text : List Char)
  | flag (f : Flag) (attached : Attached)
  /-- An option that does not exist. -/
  | unknown
  /-- The beginning of several options. -/
  | ambiguous
  /-- Two dashes, behind which there are no options. -/
  | separator
  deriving DecidableEq, Repr

def cutEquals (arg : List Char) : List Char × Attached :=
  match arg.span (· != '=') with
  | (word, _ :: value) => (word, .equals value)
  | (word, []) => (word, .none)

/-- Whether an argument is a negative number: digits, perhaps behind a point, and perhaps a line
end. -/
def isNegativeNumber : List Char → Bool
  | '-' :: rest =>
    let number := if rest.getLast? == some '\n' then rest.dropLast else rest
    let (whole, fraction) := number.span Text.isDecimal
    match fraction with
    | [] => !whole.isEmpty
    | '.' :: digits => !digits.isEmpty && digits.all Text.isDecimal
    | _ => false
  | _ => false

/-- The options that an argument may mean that is none in full. Behind two dashes it may begin
the word of an option, behind one dash its first letter is the option. -/
def possibleFlags (arg : List Char) : List (Flag × Attached) :=
  if ['-', '-'].isPrefixOf arg then
    let (word, attached) := cutEquals arg
    (flagWords.filter fun (w, _) => word.isPrefixOf w).map fun (_, f) => (f, attached)
  else ((flagWords.lookup (arg.take 2)).map fun f => (f, .letters (arg.drop 2))).toList

/-- A value behind an equals sign as an option takes it: behind a letter there is no equals
sign. -/
def attachedTo (word : List Char) : Attached → Attached
  | .equals value => if ['-', '-'].isPrefixOf word then .equals value else .letters value
  | attached => attached

def classifyDashed (arg : List Char) : Argument :=
  let (word, attached) := cutEquals arg
  match flagWords.lookup arg, flagWords.lookup word with
  | some f, _ => .flag f .none
  | none, some f => .flag f (attachedTo word attached)
  | none, none =>
    match possibleFlags arg with
    | [(f, attached)] => .flag f attached
    | _ :: _ => .ambiguous
    | [] => if isNegativeNumber arg || arg.contains ' ' then .plain arg else .unknown

def classify (arg : List Char) : Argument :=
  match arg with
  | '-' :: _ :: _ => classifyDashed arg
  | _ => .plain arg

/-- What the arguments are taken for: behind two dashes all are plain. -/
def classifyAll : List (List Char) → List Argument
  | [] => []
  | arg :: args =>
    if arg = ['-', '-'] then .separator :: args.map .plain else classify arg :: classifyAll args

/-- Attaches to the option for lines the argument behind it, whatever it looks like. -/
def attachLines : List (List Char) → List (List Char)
  | [] => []
  | [arg] => [arg]
  | arg :: value :: args =>
    if arg = "-c".toList ∨ arg = "--command".toList then
      ("--command=".toList ++ value) :: attachLines args
    else arg :: attachLines (value :: args)

/-- The text of an option's value. Two dashes alone are taken for the mark behind which there are
no options, and no text is left. -/
def valueText (value : List Char) : Option (List Char) :=
  if value = ['-', '-'] then none else some value

inductive Source where
  | demo
  | json (text : Option (List Char))
  | target (reference : Option (List Char))
  deriving DecidableEq, Repr

def Source.sameOption : Source → Source → Bool
  | .demo, .demo | .json _, .json _ | .target _, .target _ => true
  | _, _ => false

structure Request where
  source : Option Source := none
  lines : List (Option (List Char)) := []
  deriving DecidableEq, Repr

inductive UsageError where
  | ambiguous
  | missingValue (f : Flag)
  | unwantedValue (f : Flag)
  | twoSources
  | outOfPlace
  deriving DecidableEq, Repr

def UsageError.message : UsageError → String
  | .ambiguous => "ambiguous option"
  | .missingValue _ => "expected one argument"
  | .unwantedValue _ => "ignored explicit argument"
  | .twoSources => "not allowed with another source"
  | .outOfPlace => "unrecognized arguments"

inductive Usage where
  | help
  | request (r : Request)
  deriving DecidableEq, Repr

namespace Request

/-- Sets the source. Only one option may set it, which may be repeated. -/
def choose (r : Request) (s : Source) : Except UsageError Request :=
  match r.source with
  | some t => if t.sameOption s then .ok { r with source := s } else .error .twoSources
  | none => .ok { r with source := s }

def take (r : Request) (f : Flag) (value : List Char) : Except UsageError Request :=
  match f with
  | .json => r.choose (.json (valueText value))
  | .target => r.choose (.target (valueText value))
  | .line => .ok { r with lines := r.lines ++ [valueText value] }
  | .demo => r.choose .demo
  | .help => .ok r

end Request

def Flag.takesValue : Flag → Bool
  | .help | .demo => false
  | _ => true

/-- Checks the letters behind the letter for help, of which there is at least one. Each has to be
an option again. -/
def checkLetters (next : Option Argument) : List Char → Except UsageError Unit
  | ['h'] => .ok ()
  | 'h' :: rest => checkLetters next rest
  | ['c'] =>
    match next with
    | some (.plain _) => .ok ()
    | _ => .error (.missingValue .line)
  | 'c' :: _ => .ok ()
  | _ => .error (.unwantedValue .help)

/-- Interprets the arguments from left to right. What is out of place is refused at the end. -/
def interpret (r : Request) (outOfPlace : Bool) : List Argument → Except UsageError Usage
  | [] => if outOfPlace then .error .outOfPlace else .ok (.request r)
  | .flag f .none :: rest =>
    if f = .help then .ok .help
    else if f.takesValue then
      match rest with
      | .plain value :: rest => do interpret (← r.take f value) outOfPlace rest
      | _ => .error (.missingValue f)
    else do interpret (← r.take f []) outOfPlace rest
  | .flag f (.equals value) :: rest =>
    if f.takesValue then do interpret (← r.take f value) outOfPlace rest
    else .error (.unwantedValue f)
  | .flag f (.letters value) :: rest =>
    if f.takesValue then do interpret (← r.take f value) outOfPlace rest
    else do
      checkLetters rest.head? value
      return .help
  | .plain _ :: rest | .unknown :: rest | .ambiguous :: rest | .separator :: rest =>
    interpret r true rest

/-- What the arguments ask for. An ambiguous option is refused before all else. -/
def usage (args : List (List Char)) : Except UsageError Usage :=
  let arguments := classifyAll (attachLines args)
  if arguments.contains .ambiguous then .error .ambiguous else interpret {} false arguments

end ObjectConsole.CommandLine
