import ObjectConsole.Line.Quote

/-!
The first bracket of a line and the bracket that closes it. Brackets of one kind are counted,
outside quoted regions only; brackets of the other kind are ordinary characters here.
-/

namespace ObjectConsole.Line

inductive Bracket where
  | round
  | square
  deriving DecidableEq, Repr

def Bracket.opener : Bracket → Char
  | .round => '('
  | .square => '['

def Bracket.closer : Bracket → Char
  | .round => ')'
  | .square => ']'

def Bracket.ofOpener? (c : Char) : Option Bracket :=
  if c == '(' then some .round else if c == '[' then some .square else none

inductive BracketError where
  | unterminatedQuote
  | unexpectedCloser (kind : Bracket)
  | missingOpener (kind : Bracket)
  | unbalanced (kind : Bracket)
  deriving DecidableEq, Repr

def BracketError.message : BracketError → String
  | .unterminatedQuote => "Unterminated string literal"
  | .unexpectedCloser kind => "Unexpected '" ++ kind.closer.toString ++ "'"
  | .missingOpener kind => "Missing '" ++ kind.opener.toString ++ "'"
  | .unbalanced kind => "Unbalanced '" ++ kind.opener.toString ++ "'"

structure Enclosed where
  before : List Char
  inside : List Char
  after : List Char
  deriving DecidableEq, Repr

def Enclosed.start (e : Enclosed) : Nat := e.before.length

def Enclosed.stop (e : Enclosed) : Nat := e.before.length + 1 + e.inside.length

def toOpener (kind : Bracket) : List Piece → Except BracketError (List Piece × List Piece)
  | [] => .error (.missingOpener kind)
  | .unclosed _ :: _ => .error .unterminatedQuote
  | .quoted region :: rest =>
    (toOpener kind rest).map fun (before, after) => (.quoted region :: before, after)
  | .live c :: rest =>
    if c == kind.opener then .ok ([], rest)
    else if c == kind.closer then .error (.unexpectedCloser kind)
    else (toOpener kind rest).map fun (before, after) => (.live c :: before, after)

/-- Looks for the closing bracket that `depth` further pairs do not use up: the pieces before it
and those after it. -/
def toCloser (kind : Bracket) : Nat → List Piece → Except BracketError (List Piece × List Piece)
  | _, [] => .error (.unbalanced kind)
  | _, .unclosed _ :: _ => .error .unterminatedQuote
  | depth, .quoted region :: rest =>
    (toCloser kind depth rest).map fun (before, after) => (.quoted region :: before, after)
  | depth, .live c :: rest =>
    if c == kind.opener then
      (toCloser kind (depth + 1) rest).map fun (before, after) => (.live c :: before, after)
    else if c == kind.closer then
      match depth with
      | 0 => .ok ([], rest)
      | depth + 1 =>
        (toCloser kind depth rest).map fun (before, after) => (.live c :: before, after)
    else (toCloser kind depth rest).map fun (before, after) => (.live c :: before, after)

/-- The line around its first pair of brackets of the given kind. -/
def enclosed (kind : Bracket) (s : List Char) : Except BracketError Enclosed := do
  let (before, rest) ← toOpener kind (pieces s)
  let (inside, after) ← toCloser kind 0 rest
  return ⟨piecesText before, piecesText inside, piecesText after⟩

theorem toOpener_text {kind : Bracket} {ps before after : List Piece}
    (h : toOpener kind ps = .ok (before, after)) :
    piecesText before ++ kind.opener :: piecesText after = piecesText ps := by
  induction ps generalizing before with
  | nil => simp [toOpener] at h
  | cons p rest ih =>
    cases p with
    | unclosed r => simp [toOpener] at h
    | quoted region =>
      simp only [toOpener] at h
      cases hr : toOpener kind rest with
      | error e => simp [hr, Except.map] at h
      | ok x =>
        simp only [hr, Except.map, Except.ok.injEq, Prod.mk.injEq] at h
        obtain ⟨rfl, rfl⟩ := h
        simp [← ih hr, Piece.text]
    | live c =>
      simp only [toOpener] at h
      split at h
      · next hc =>
        simp only [Except.ok.injEq, Prod.mk.injEq] at h
        obtain ⟨rfl, rfl⟩ := h
        simp [Piece.text, eq_of_beq hc]
      · split at h
        · simp at h
        · cases hr : toOpener kind rest with
          | error e => simp [hr, Except.map] at h
          | ok x =>
            simp only [hr, Except.map, Except.ok.injEq, Prod.mk.injEq] at h
            obtain ⟨rfl, rfl⟩ := h
            simp [← ih hr, Piece.text]

theorem toCloser_text {kind : Bracket} {depth : Nat} {ps before after : List Piece}
    (h : toCloser kind depth ps = .ok (before, after)) :
    piecesText before ++ kind.closer :: piecesText after = piecesText ps := by
  induction ps generalizing before depth with
  | nil => simp [toCloser] at h
  | cons p rest ih =>
    have step {d : Nat} (h : (toCloser kind d rest).map (fun x => (p :: x.1, x.2))
        = .ok (before, after)) :
        piecesText before ++ kind.closer :: piecesText after = piecesText (p :: rest) := by
      cases hr : toCloser kind d rest with
      | error e => simp [hr, Except.map] at h
      | ok x =>
        simp only [hr, Except.map, Except.ok.injEq, Prod.mk.injEq] at h
        obtain ⟨rfl, rfl⟩ := h
        simp [← ih hr]
    cases p with
    | unclosed r => simp [toCloser] at h
    | quoted region => exact step (by simpa [toCloser] using h)
    | live c =>
      simp only [toCloser] at h
      split at h
      · exact step h
      · split at h
        · next hc =>
          cases depth with
          | zero =>
            simp only [Except.ok.injEq, Prod.mk.injEq] at h
            obtain ⟨rfl, rfl⟩ := h
            simp [Piece.text, eq_of_beq hc]
          | succ d => exact step h
        · exact step h

end ObjectConsole.Line
