import ObjectConsole.Member.Access
import ObjectConsole.Text.Quoted

/-!
Targets: values that modules name. A reference is the name of a module and a path of attributes
with a colon between them.
-/

namespace ObjectConsole.CommandLine

/-- A module: the values that paths into it lead to, each built anew when it is asked for, and the
functions and classes, which are called without arguments when they are asked for. -/
structure Module where
  name : String
  values : List (List String × Act Value) := []
  makers : List (String × Act Value) := []

inductive TargetError where
  | malformed (reference : String)
  | noModule (wanted missing : String)
  /-- A module is asked for inside a module that holds none. -/
  | noPackage (wanted missing parent : String)
  | noAttribute (module path : String)
  deriving DecidableEq, Repr

def TargetError.message : TargetError → String
  | .malformed reference =>
    "--target expects MODULE:ATTR, got " ++ Text.displayString reference
  | .noModule wanted missing =>
    "Cannot import " ++ Text.displayString wanted ++ ": No module named "
      ++ Text.displayString missing
  | .noPackage wanted missing parent =>
    "Cannot import " ++ Text.displayString wanted ++ ": No module named "
      ++ Text.displayString missing ++ "; " ++ Text.displayString parent ++ " is not a package"
  | .noAttribute module path =>
    Text.displayString module ++ " has no attribute " ++ Text.displayString path

/-- Cuts a reference at its first colon. Both parts must hold something. -/
def cutReference (reference : List Char) : Except TargetError (List Char × List Char) :=
  match reference.span (· != ':') with
  | (m :: module, _ :: a :: path) => .ok (m :: module, a :: path)
  | _ => .error (.malformed (String.ofList reference))

def dotted (name : List Char) : List String := (name.splitOn '.').map String.ofList

/-- The names of all modules on the way to a module, itself last. -/
def wayTo (parts : List String) : List String :=
  (List.range parts.length).map fun n => ".".intercalate (parts.take (n + 1))

def isPackage (modules : List Module) (name : String) : Bool :=
  modules.any fun m => (name ++ ".").toList.isPrefixOf m.name.toList

def missingModule (modules : List Module) (wanted missing : String) : Option String → TargetError
  | some parent =>
    if isPackage modules parent then .noModule wanted missing
    else .noPackage wanted missing parent
  | none => .noModule wanted missing

def findOnWay (modules : List Module) (wanted : String) (parent : Option String) :
    List String → Except TargetError Module
  | [] => .error (.noModule wanted wanted)
  | step :: rest =>
    match modules.find? fun m => m.name == step with
    | some m => if rest.isEmpty then .ok m else findOnWay modules wanted (some step) rest
    | none => .error (missingModule modules wanted step parent)

def findModule (modules : List Module) (name : List Char) : Except TargetError Module :=
  findOnWay modules (String.ofList name) none (wayTo (dotted name))

/-- What a path into a module asks for: something to make, and a path from there on. Only from
values do paths go on. -/
def Module.entry? (m : Module) (path : List String) : Option (Act Value × List String) :=
  let maker := m.makers.findSome? fun (name, make) =>
    if path = [name] then some (make, []) else none
  maker.or (m.values.findSome? fun (names, make) =>
    if names.isPrefixOf path then some (make, path.drop names.length) else none)

/-- Follows attributes from a value on. -/
def followPath (cat : Catalog) (v : Value) : List String → Act Value
  | [] => return v
  | name :: rest => do followPath cat (← cat.fetch v name) rest

def relativeError (module : List Char) : Raised :=
  ⟨.core "TypeError", "the 'package' argument is required to perform a relative import for "
    ++ Text.displayString (String.ofList module)⟩

def loadTarget (cat : Catalog) (modules : List Module) (reference : List Char) :
    Act (Except TargetError Value) := do
  match cutReference reference with
  | .error e => return .error e
  | .ok (module, path) =>
    if module.head? == some '.' then throw (relativeError module)
    match findModule modules module with
    | .error e => return .error e
    | .ok m =>
      let missing := TargetError.noAttribute (String.ofList module) (String.ofList path)
      match m.entry? (dotted path) with
      | none => return .error missing
      | some (make, []) => return .ok (← make)
      | some (make, rest) =>
        let v ← make
        tryCatch (do return .ok (← followPath cat v rest)) fun e =>
          if e.cls = .core "AttributeError" then return .error missing else throw e

end ObjectConsole.CommandLine
