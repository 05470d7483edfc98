import ObjectConsole.Line.Form
import ObjectConsole.Member.Overload

/-!
Evaluation of expressions against a value, the context. A chain is followed from left to right;
arguments, an index and an assigned value are evaluated against the context of the call, the
index or the assignment that they belong to.
-/

namespace ObjectConsole

open ObjectConsole.Line (Form)
open ObjectConsole.Literal (Scalar)

def Literal.Scalar.value : Scalar → Value
  | .null => .null
  | .bool b => .bool b
  | .int w n => .sized w n none
  | .float x => .float x
  | .text s => .text (String.ofList s)

namespace Catalog

/-- The property that a word without triggers names. -/
def lookupWord (cat : Catalog) (context : Value) (word : List Char) : Eval Value := do
  let w ← get
  let label := String.ofList (Text.trim word)
  match cat.findProperty? w context label with
  | some p =>
    if p.readable then cat.readProperty context label
    else Eval.fail (.memberNotFound (w.className context) .member (String.ofList word))
  | none => Eval.fail (.memberNotFound (w.className context) .member (String.ofList word))

/-- Goes on with an expression for a value, which is held from then on as a context. -/
def goOn (recur : Value → List Char → Eval Value) (rest : List Char) (value : Value) :
    Eval Value := do
  recur (← adopt value) rest

/-- What a chain goes on to after a call or an index: nothing, or an expression behind an
optional point. -/
def continueChain (recur : Value → List Char → Eval Value) (rest : List Char) (value : Value) :
    Eval Value :=
  let rest := Line.dropPoint (Text.trim rest)
  if Text.isBlankText rest then return value else goOn recur rest value

/-- The parts of a bracketed form. -/
def bracketed {α : Type} (parts : Except Line.BracketError α) : Eval α :=
  match parts with
  | .ok a => return a
  | .error e => Eval.fail (.bracket e)

/-- The sequence that an index applies to: the context itself without a name, else a property. -/
def indexed (cat : Catalog) (context : Value) (name : List Char) : Eval Value := do
  if name.isEmpty && ((← get).items? context).isSome then return context
  else
    let label := String.ofList name
    let value ← cat.readProperty context label
    if ((← get).items? value).isSome then return value
    else Eval.fail (.notSequence label)

def itemAt (sequence index : Value) : Eval Value := do
  let w ← get
  let items := (w.items? sequence).getD []
  match index.asInt? with
  | none => Eval.fail (.indexNotInteger (w.className index))
  | some i =>
    match (if i < 0 then none else items[i.toNat]?) with
    | some item => return item
    | none =>
      match integerText i with
      | .ok shown => Eval.fail (.indexOutOfRange shown items.length)
      | .error e => Eval.escape e

/-- Evaluates a form, with a way to evaluate the texts in it. -/
def evalForm (cat : Catalog) (recur : Value → List Char → Eval Value) (context : Value) :
    Form → Eval Value
  | .scalar s => return s.value
  | .overlong digits => Eval.escape (overlongError digits)
  | .word word => cat.lookupWord context word
  | .member name rest => do
    let value ← cat.readProperty context (String.ofList name)
    goOn recur rest value
  | .call name parts => do
    if name.isEmpty then Eval.fail .missingMethodName
    -- the brackets are matched before any argument is evaluated, and the method is looked up
    -- after the last one, so an argument can change what the name means
    let (args, after) ← bracketed parts
    let args ← args.mapM (recur context)
    let result ← cat.callMethod context (String.ofList name) args
    continueChain recur after result
  | .index name parts => do
    let sequence ← cat.indexed context name
    -- a missing sequence is reported even if the brackets do not match
    let (inside, after) ← bracketed parts
    let index ← recur context inside
    let item ← itemAt sequence index
    continueChain recur after item
  | .assign name right => do
    if name.isEmpty then Eval.fail .missingAssignmentTarget
    let label := String.ofList name
    let w ← get
    match cat.findProperty? w context label with
    | some p =>
      if !p.writable then
        Eval.fail (.memberNotFound (w.className context) .writableProperty label)
      let value ← recur context right
      cat.writeProperty context label value
    | none => Eval.fail (.memberNotFound (w.className context) .writableProperty label)

/-- Evaluates an expression with at most the given number of levels of nesting. -/
def evalExpr (cat : Catalog) : Nat → Value → List Char → Eval Value
  | 0, _, _ => Eval.fail .nestedTooDeeply
  | levels + 1, context, text =>
    let expr := Text.trim text
    if expr.isEmpty then Eval.fail .emptyExpression
    else if context.isNull then Eval.fail .nullContext
    else cat.evalForm (cat.evalExpr levels) context (Form.ofText (Line.dropPoint expr))

def navigationMarker : List Char := ['-', '>']

def navigation? (expr : List Char) : Option (List Char) :=
  if navigationMarker.isPrefixOf expr then
    some (Text.trimLeft (expr.drop navigationMarker.length))
  else none

def evalLine (cat : Catalog) (context : Value) (expr : List Char) : Eval Value :=
  if context.isNull then Eval.fail .nullContext
  else
    cat.evalForm (cat.evalExpr cat.limits.expressions) context
      (Form.ofText (Line.dropPoint ((navigation? expr).getD expr)))

end Catalog

/-- What comes of a line: nothing for a blank one; a value, which may become the context; or an
error. -/
inductive Outcome where
  | blank
  | value (v : Value) (navigates : Bool)
  | failed (e : ConsoleError)
  | escaped (e : Raised)
  deriving Inhabited

def isNavigation (text : List Char) : Bool :=
  (Catalog.navigation? (Text.trim text)).isSome

/-- The outcome of a line that an error escapes from; errors of nesting are reported. -/
def Outcome.ofEscaped (e : Raised) : Outcome :=
  if e.isTooDeep then .failed .nestedTooDeeply else .escaped e

def Catalog.evaluate (cat : Catalog) (text : List Char) (context : Value) (w : World) :
    Outcome × World :=
  let expr := Text.trim text
  if expr.isEmpty then (.blank, w)
  else
    match cat.evalLine context expr w with
    | .ok v w => (.value v (isNavigation text), w)
    | .error (.reported e) w => (.failed e, w)
    | .error (.escaped e) w => (.ofEscaped e, w)

end ObjectConsole
