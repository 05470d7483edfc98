import ObjectConsole.Member.Access

/-!
Choosing and calling a method. The methods shown under one name are alternatives: the first one
whose parameters take all the arguments is called, with the arguments fitted to them.
-/

namespace ObjectConsole

namespace Catalog

def fitArgument (cat : Catalog) (w : World) (v : Value) (p : ParamInfo) : Except Refusal Value :=
  if v.isNull then
    if p.nullable then .ok v else cat.refuse w v p.type.label
  else cat.coerce w v p.type

def fitArguments (cat : Catalog) (w : World) : List Value → List ParamInfo →
    Except Refusal (List Value)
  | v :: vs, p :: ps => do
    let u ← cat.fitArgument w v p
    let us ← cat.fitArguments w vs ps
    return u :: us
  | _, _ => .ok []

/-- The first method that takes the arguments, with the arguments as fitted; `none` if no method
does. -/
def firstFitting (cat : Catalog) (w : World) (args : List Value) :
    List MethodInfo → Except Raised (Option (MethodInfo × List Value))
  | [] => .ok none
  | m :: ms =>
    if m.accepts args.length then
      match cat.fitArguments w args m.params with
      | .ok fitted => .ok (some (m, fitted))
      -- no later method is tried: the error is to escape
      | .error (.raised e) => .error e
      | .error (.unfit _ _) => cat.firstFitting w args ms
    else cat.firstFitting w args ms

/-- The arguments that no method takes, as the message shows them: nothing, one summary, or the
display of them all. -/
def refusedArguments (cat : Catalog) (w : World) : List Value → Except Raised String
  | [] => .ok ""
  | [v] => cat.summary w v
  | vs => cat.display w (.tuple vs)

def resolve (cat : Catalog) (w : World) (v : Value) (label : String) (args : List Value) :
    Except Stop (MethodInfo × List Value) :=
  let candidates := (cat.methods w v).filter fun m => m.label == label
  if candidates.isEmpty then .error (.reported (.memberNotFound (w.className v) .method label))
  else
    match cat.firstFitting w args candidates with
    | .ok (some found) => .ok found
    | .ok none => .error (.reported (.noMatchingOverload (cat.refusedArguments w args)))
    | .error e => .error (.escaped e)

/-- Completes arguments by the default values of the parameters left out. -/
def withDefaults (args : List Value) (params : List ParamInfo) : List Value :=
  args ++ (params.drop args.length).map fun p => p.default.getD .null

def callMethod (cat : Catalog) (v : Value) (label : String) (args : List Value) : Eval Value := do
  match cat.resolve (← get) v label args with
  | .error e => throw e
  | .ok (m, fitted) =>
    let (fitted, w) := (← get).adoptAll fitted
    set w
    Eval.invoke label (m.run v (withDefaults fitted m.params))

end Catalog

end ObjectConsole
