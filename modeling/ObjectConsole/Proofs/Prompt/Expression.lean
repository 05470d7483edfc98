import ObjectConsole.Proofs.Text.Trim
import ObjectConsole.Prompt.Loop

/-!
Lines at the prompt that are no commands. The prompt gives such a line to its
session as it was typed and prints what has come up: the texts that methods
printed and the diagnostics in front, then the value. After that nothing is
left to be printed, so the next line starts with a clean sheet.
-/

namespace ObjectConsole

def errorOf {α : Type} : Except Raised α → Option Raised
  | .ok _ => none
  | .error e => some e

def Session.flushed (s : Session) : Session :=
  { s with world := { s.world with printed := "" }, emitted := [] }

@[simp] theorem Session.flushed_flushed (s : Session) : s.flushed.flushed = s.flushed := rfl

theorem Session.flushed_start {base : Value} {w : World} (h : w.printed = "") :
    (Session.start base w).flushed = Session.start base w := by
  cases w
  cases h
  rfl

theorem Session.emitted_eq_nil {s : Session} (h : s.flushed = s) : s.emitted = [] :=
  (congrArg Session.emitted h).symm

namespace Prompt

variable {cat : Catalog} {s : State} {text : List Char}

/-! ### One line -/

theorem withPrinted_eq (s : State) (p : Printed) :
    withPrinted s p =
      ({ s with session := s.session.flushed },
        { out := s.session.world.printed ++ p.out, err := lines s.session.emitted ++ p.err }) :=
  rfl

/-- What is printed of an outcome; nothing if printing it raises an error. -/
def shownOf (r : Except Raised Printed) : Printed := r.toOption.getD {}

theorem printing_eq (s : State) (r : Except Raised Printed) :
    printing s r =
      { state := { s with session := s.session.flushed }
        printed :=
          { out := s.session.world.printed ++ (shownOf r).out
            err := lines s.session.emitted ++ (shownOf r).err }
        escaped := errorOf r } := by
  cases r <;> rfl

/-- An outcome is reported the same whatever the switches are, but for the trace
on the stream of errors. -/
theorem reportOutcome_congr (cat : Catalog) {t : State} (hsession : s.session = t.session)
    (text : List Char) (o : Outcome) :
    (shownOf (reportOutcome cat s text o)).out = (shownOf (reportOutcome cat t text o)).out ∧
      errorOf (reportOutcome cat s text o) = errorOf (reportOutcome cat t text o) := by
  cases o with
  | failed e => cases e <;> exact ⟨rfl, rfl⟩
  | _ => simp only [reportOutcome, hsession, and_self]

theorem runExpression_eq (cat : Catalog) (s : State) (text : List Char) :
    runExpression cat s text =
      let outcome := (s.session.runLine cat text).1
      let session := (s.session.runLine cat text).2
      let report := reportOutcome cat { s with session } text outcome
      { state := { s with session := session.flushed }
        printed :=
          { out := session.world.printed ++ (shownOf report).out
            err := lines session.emitted ++ (shownOf report).err }
        escaped := errorOf report } :=
  printing_eq _ _

@[simp] theorem state_runExpression (cat : Catalog) (s : State) (text : List Char) :
    (runExpression cat s text).state =
      { s with session := (s.session.runLine cat text).2.flushed } := by
  rw [runExpression_eq]

/-- Neither the standard output nor what escapes depends on the switches. -/
theorem runExpression_congr (cat : Catalog) {t : State} (hsession : s.session = t.session)
    (text : List Char) :
    (runExpression cat s text).printed.out = (runExpression cat t text).printed.out ∧
      (runExpression cat s text).escaped = (runExpression cat t text).escaped := by
  rw [runExpression_eq, runExpression_eq, hsession]
  obtain ⟨hout, hescaped⟩ := reportOutcome_congr cat
    (s := { s with session := (t.session.runLine cat text).2 })
    (t := { t with session := (t.session.runLine cat text).2 }) rfl text
    (t.session.runLine cat text).1
  exact ⟨by simp only [hout], hescaped⟩

/-! ### What is typed -/

/-- A line that the prompt takes for an expression, or for nothing if it is
blank. -/
structure IsExpression (text : List Char) : Prop where
  visible : ∀ c ∈ text, isInvisible c = false
  stays : Text.trim text ∉ exitWords
  noCommand : (Text.trim text).head? ≠ some '/'

instance (text : List Char) : Decidable (IsExpression text) :=
  decidable_of_iff
    (text.all (!isInvisible ·) = true ∧ Text.trim text ∉ exitWords ∧
      (Text.trim text).head? ≠ some '/')
    ⟨fun h => ⟨by simpa using h.1, h.2.1, h.2.2⟩,
      fun h => ⟨by simpa using h.visible, h.stays, h.noCommand⟩⟩

theorem visible_eq_self (h : ∀ c ∈ text, isInvisible c = false) : visible text = text :=
  List.filter_eq_self.2 fun c hc => by simp [h c hc]

theorem runLine_of_isBlankText (s : Session) (h : Text.isBlankText text = true) :
    s.runLine cat text = (.blank, s) := by
  rw [Session.runLine, Text.trim_of_blanks (Text.isBlankText_iff.1 h), if_neg (by decide)]
  rfl

/-- The prompt takes a line that is no command to its session. A blank line is
passed over, but the session has nothing to do for it either. -/
theorem handle_of_isExpression (hs : s.session.flushed = s.session) (h : IsExpression text) :
    handle cat s text = runExpression cat s text := by
  rw [handle, visible_eq_self h.visible]
  by_cases hblank : Text.isBlankText text = true
  · rw [if_pos hblank, runExpression_eq, runLine_of_isBlankText _ hblank]
    simp only [hs, reportOutcome]
    rw [show s.session.world.printed = "" from congrArg (·.world.printed) hs.symm,
      Session.emitted_eq_nil hs]
    rfl
  · have hslash : slashLine? text = none := by
      rw [slashLine?, if_neg (by simpa using h.noCommand)]
    have hexit : exitWords.contains (Text.trim text) = false := by
      simpa using h.stays
    rw [if_neg hblank, hexit, hslash]
    rfl

end Prompt

end ObjectConsole
