import ObjectConsole.CommandLine.Target
import ObjectConsole.Line.Bracket
import ObjectConsole.Line.Scan
import ObjectConsole.Prompt.Command
import ObjectConsole.Prompt.Highlight
import ObjectConsole.Sample.Demo
import ObjectConsole.Session

/-!
The modules that targets are taken from, with the values that they name.
-/

namespace ObjectConsole.Sample

open ObjectConsole.CommandLine (Module)

def moduleName (name : String) : String := "autoconsole." ++ name

def constantNamed (name : String) (value : Value) : List String × Act Value :=
  ([name], return value)

def charText (c : Char) : Value := .text c.toString

def classNamed (name complaint : String) : String × Act Value :=
  (name, Act.raise "TypeError" complaint)

def demoModule : Module where
  name := moduleName "demo"
  values := ["DOG", "CAT", "FISH"].map fun member => (["Species", member], return species member)
  makers := [
    ("make_demo_person", demoPerson),
    classNamed "Species" "EnumType.__call__() missing 1 required positional argument: 'value'",
    classNamed "Pet" "Pet.__init__() missing 1 required positional argument: 'name'",
    classNamed "Person"
      "Person.__init__() missing 3 required positional arguments: 'name', 'length', and 'weight'"]

def bracketTable : Act Value :=
  Act.alloc (.table false ([Line.Bracket.round, .square].map fun b =>
    (charText b.opener, charText b.closer)))

def scannerModule : Module where
  name := moduleName "scanner"
  values := [
    constantNamed "TRIGGERS" (.tuple ([Line.Trigger.member, .call, .index, .assign].map fun t =>
      charText t.char)),
    (["BRACKETS"], bracketTable),
    constantNamed "QUOTES" (.tuple [charText '"', charText '\''])]

def runnerModule : Module where
  name := moduleName "runner"
  values := [
    constantNamed "COMMAND_UNKNOWN" (.text unknownCommand),
    constantNamed "RETURN_COMMAND" (.text (String.ofList returnCommand))]

def evaluatorModule : Module where
  name := moduleName "evaluator"
  values := [constantNamed "NAV_MARKER" (.text (String.ofList Catalog.navigationMarker))]

def literalsModule : Module where
  name := moduleName "literals"
  values := [constantNamed "QUOTE_ORDER" (.tuple [charText '"', charText '\''])]

/-- The module of the integers of fixed widths, whose classes make zero without arguments. -/
def typesModule : Module where
  name := moduleName "types"
  makers := Width.all.map fun w => (w.name, return .sized w 0 none)

def promptModule : Module where
  name := moduleName "repl"
  values := [constantNamed "EXIT_COMMANDS"
    (.tuple (Prompt.exitWords.map fun word => .text (String.ofList word)))]

def styleTable : Act Value :=
  Act.alloc (.table false (Prompt.Group.all.map fun g => (.text g.name, .text g.style)))

def highlightModule : Module where
  name := moduleName "repl_highlight"
  values := [(["GROUP_STYLE"], styleTable)]

def modules : List Module :=
  [{ name := "autoconsole" }, demoModule, scannerModule, runnerModule, evaluatorModule,
    literalsModule, typesModule, promptModule, highlightModule]
  ++ ["context", "members", "render", "utils"].map fun name => { name := moduleName name }

end ObjectConsole.Sample
