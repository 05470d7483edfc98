import ObjectConsole.Prompt.Command
import ObjectConsole.Session

/-!
Completion of the word before the cursor: commands behind a slash at the start of the line, and
elsewhere the members of the object that the innermost expression has reached. Only chains of
properties are followed, so that completing never calls a method.
-/

namespace ObjectConsole.Prompt

structure Completion where
  text : String
  replaces : Nat
  note : String
  deriving DecidableEq, Repr

def isWordBreak (c : Char) : Bool :=
  c == '(' || c == ',' || c == '=' || c == '[' || Text.isBlank c

/-- The innermost expression before the cursor, without leading points. -/
def innermost (text : List Char) : List Char :=
  let text := (Catalog.navigation? text).getD text
  ((text.reverse.takeWhile fun c => !isWordBreak c).reverse).dropWhile (· == '.')

/-- An expression cut at its last point: the properties to follow, if there is a point, and the
word to complete. -/
def chainAndWord (expr : List Char) : Option (List (List Char)) × List Char :=
  let word := (expr.reverse.takeWhile (· != '.')).reverse
  if word.length < expr.length then
    (some ((expr.take (expr.length - word.length - 1)).splitOn '.'), word)
  else (none, word)

/-- Whether a character cannot stand in a chain of properties. -/
def breaksChain (c : Char) : Bool :=
  c == '(' || c == ')' || c == '[' || c == ']' || c == '=' || c == '"' || c == '\'' || c == ' '

def follow (cat : Catalog) (target : Value) : List (List Char) → Eval Value
  | [] => return target
  | name :: rest => do
    let value ← cat.readProperty target (String.ofList name)
    follow cat value rest

/-- The value whose members complete the word before the cursor, if there is one. -/
def completionTarget (cat : Catalog) (context : Value) (chain : Option (List (List Char)))
    (w : World) : Option Value × World :=
  match chain with
  | none => (some context, w)
  | some names =>
    if names.any fun name => name.any breaksChain then (none, w)
    else
      match follow cat context names w with
      | .ok v w => (some v, w)
      | .error _ w => (none, w)

def memberCompletions (cat : Catalog) (w : World) (v : Value) (word : List Char) :
    List Completion :=
  ((cat.memberNames w v).filter fun name => word.isPrefixOf name.toList).map fun name =>
    ⟨name, word.length, ""⟩

def commandCompletions (text : List Char) : List Completion :=
  (Command.all.filter fun c => text.isPrefixOf c.word.toList).map fun c =>
    ⟨c.word, text.length, c.description⟩

def complete (cat : Catalog) (s : Session) (text : List Char) : List Completion × Session :=
  if text.head? == some '/' then (commandCompletions text, s)
  else
    let (chain, word) := chainAndWord (innermost (Text.trimLeft text))
    match completionTarget cat s.stack.current chain s.world with
    | (some v, w) => (memberCompletions cat w v word, { s with world := w })
    | (none, w) => ([], { s with world := w })

end ObjectConsole.Prompt
