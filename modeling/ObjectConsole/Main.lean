import ObjectConsole.CommandLine.Run
import ObjectConsole.Sample.Catalog
import ObjectConsole.Sample.Modules

/-!
The program: it starts what the arguments ask for, and feeds the prompt with the lines of the
standard input.
-/

namespace ObjectConsole

def clearCodes : String := "\x1b[2J\x1b[H"

def printBoth (p : Prompt.Printed) : IO Unit := do
  IO.print p.out
  (← IO.getStdout).flush
  IO.eprint p.err

def printEscaped (e : Raised) : IO Unit := do
  for text in Prompt.traceLines e |>.drop 2 do
    IO.eprintln text

partial def promptLoop (s : Prompt.State) : IO UInt32 := do
  if !s.running then return 0
  IO.print s.prompt
  (← IO.getStdout).flush
  let text ← (← IO.getStdin).getLine
  let input : Prompt.Input :=
    if text.isEmpty then .endOfInput
    else .typed ((text.toList.reverse.dropWhile (· == '\n')).reverse)
  let reaction := Prompt.react Sample.catalog s input
  if reaction.clears then IO.print clearCodes
  printBoth reaction.printed
  match reaction.escaped with
  | some e =>
    printEscaped e
    return 1
  | none => promptLoop reaction.state

def switchedOn (name : String) : IO Bool := do
  return Prompt.isOn ((← IO.getEnv name).getD "").toList

def start (args : List String) : IO UInt32 := do
  match CommandLine.start Sample.catalog Sample.modules Sample.demoPerson
    Sample.initialWorld (args.map String.toList) with
  | .help => return 0
  | .refused e =>
    IO.eprintln ("autoconsole: error: " ++ e.message)
    return 2
  | .ended message =>
    IO.eprintln message
    return 1
  | .escaped e =>
    printEscaped e
    return 1
  | .ready session [] =>
    IO.print Prompt.banner
    promptLoop
      { session
        showAll := ← switchedOn "AUTOCONSOLE_SHOW_ALL"
        trace := ← switchedOn "AUTOCONSOLE_DEBUG_PY_TRACE" }
  | .ready session lines =>
    let (printed, ending) := CommandLine.run Sample.catalog session lines
    printBoth printed
    match ending with
    | .ok status => return status.toUInt32
    | .error e =>
      printEscaped e
      return 1

end ObjectConsole

def main (args : List String) : IO UInt32 := ObjectConsole.start args
