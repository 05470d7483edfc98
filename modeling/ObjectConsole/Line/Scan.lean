/-!
The first trigger of a line. A trigger is the character that decides what an expression does
with the name before it: read a member, call a method, index a sequence or assign.
-/

namespace ObjectConsole.Line

inductive Trigger where
  | member
  | call
  | index
  | assign
  deriving DecidableEq, Repr

def Trigger.char : Trigger → Char
  | .member => '.'
  | .call => '('
  | .index => '['
  | .assign => '='

def Trigger.ofChar? (c : Char) : Option Trigger :=
  if c == '.' then some .member
  else if c == '(' then some .call
  else if c == '[' then some .index
  else if c == '=' then some .assign
  else none

def isTrigger (c : Char) : Bool := (Trigger.ofChar? c).isSome

structure Scan where
  name : List Char
  found : Option (Trigger × List Char)
  deriving DecidableEq, Repr

/-- Cuts a line before its first trigger. Quotes play no part here. -/
def scan : List Char → Scan
  | [] => ⟨[], none⟩
  | c :: rest =>
    match Trigger.ofChar? c with
    | some t => ⟨[], some (t, rest)⟩
    | none =>
      let s := scan rest
      ⟨c :: s.name, s.found⟩

def Scan.remainder (s : Scan) : List Char :=
  match s.found with
  | some (t, rest) => t.char :: rest
  | none => []

theorem char_of_ofChar? {c : Char} {t : Trigger} (h : Trigger.ofChar? c = some t) : t.char = c := by
  unfold Trigger.ofChar? at h
  split at h
  · next hc => cases h; exact (eq_of_beq hc).symm
  split at h
  · next hc => cases h; exact (eq_of_beq hc).symm
  split at h
  · next hc => cases h; exact (eq_of_beq hc).symm
  split at h
  · next hc => cases h; exact (eq_of_beq hc).symm
  · cases h

theorem name_append_remainder (s : List Char) : (scan s).name ++ (scan s).remainder = s := by
  induction s with
  | nil => rfl
  | cons c rest ih =>
    cases h : Trigger.ofChar? c with
    | some t => simp [scan, h, Scan.remainder, char_of_ofChar? h]
    | none => simpa [scan, h, Scan.remainder] using ih

def triggerCount (s : List Char) : Nat := s.countP isTrigger

end ObjectConsole.Line
