import ObjectConsole.Proofs.Evaluation.Line
import ObjectConsole.Proofs.Member.Conduct
import ObjectConsole.Sample.Catalog

/-!
Errors that escape. Whatever the code of members raises is reported, and so is
what nests too deeply. An error escapes from a line only if it comes from one of
three conversions of numbers: a run of digits in the line that is too long for an
integer, an integer beyond all doubles in a slot for a double, or an integer of too
many digits that a message is to show. The first is met by every line that is such
a run.
-/

namespace ObjectConsole

open Literal (Digits IsKeyword IsSign Numeral digitLimit readInteger readScalar readTrimmed
  readTrimmed_of_not_keyword)
open Line (Form HoldsOverlong)
open Text (trim)

/-! ### What can escape -/

namespace Discipline

def free : Discipline where
  holds _ _ := True
  knows _ _ _ := True

variable {f : Visit} {w : World}

theorem free_leads (w' : World) : free.Leads f w w' := ⟨trivial, fun _ h => h⟩

theorem free_lawful (cat : Catalog) : free.Lawful cat where
  plain _ _ := trivial
  choice _ _ := trivial
  tuple _ _ := trivial
  contents _ _ _ := trivial
  adopt _ _ := ⟨free_leads _, trivial⟩
  enter _ _ := trivial
  leave _ _ _ := ⟨free_leads _, fun _ h => h⟩

theorem keeps_free {ε α : Type} (x : EStateM ε World α) :
    free.Keeps f (fun _ => True) (fun _ _ => True) x w := by
  rw [Keeps]
  split <;> exact ⟨free_leads _, trivial⟩

theorem free_conduct (cat : Catalog) : free.Conduct cat where
  obeys {f w name m} _ _ := by
    cases m with
    | accessor a => exact ⟨fun _ _ => keeps_free _, fun _ _ _ _ _ _ => free_leads _⟩
    | constant v => trivial
    | method m => exact fun _ _ _ _ _ _ _ => keeps_free _
    | _ => trivial
  assign _ _ _ _ _ := keeps_free _
  insert _ _ _ _ := free_leads _

end Discipline

/-- Why an error escapes from a line: digits in it are too many, or an integer is
too large for a double or too long for a message. -/
def EscapesFrom (text : List Char) (e : Raised) : Prop :=
  (∃ digits, e = overlongError digits ∧ HoldsOverlong text digits) ∨ e = tooLargeError ∨
    e = longIntegerError

def EscapesOnly (text : List Char) : Stop → Prop
  | .reported _ => True
  | .escaped e => e.isTooDeep = false → EscapesFrom text e

/-- No other errors than those three of numbers escape from a line. -/
theorem escapesFrom_of_evaluate {cat : Catalog} {text : List Char} {context : Value} {w : World}
    {e : Raised} (h : (cat.evaluate text context w).1 = .escaped e) : EscapesFrom text e := by
  have hE : Discipline.Allows (EscapesOnly text) text := by
    refine ⟨fun _ => trivial, ?_, fun digits hdigits _ => .inl ⟨digits, rfl, hdigits⟩⟩
    rintro _ ((rfl | rfl) | rfl) hdeep
    · exact .inr (.inr rfl)
    · exact absurd hdeep (by decide)
    · exact .inr (.inl rfl)
  have hA := (Discipline.free_conduct cat).access (Discipline.free_lawful cat) hE.steps
  have hfree : Discipline.free.holds ⟨context, w⟩ w := trivial
  have houtcome := ((Discipline.free_lawful cat).evaluate hA hE hfree).2
  rw [h] at houtcome
  exact houtcome.1 houtcome.2

/-! ### What does escape -/

section Overlong

variable {sign : Option Char} {run : List Char}

theorem isNumeralChar_of_mem_signed (hsign : IsSign sign) (hrun : Digits run) {c : Char}
    (hc : c ∈ sign.toList ++ run) : Literal.isNumeralChar c = true := by
  rcases List.mem_append.1 hc with hc | hc
  · exact Literal.isNumeralChar_of_mem_sign hsign (by simpa using hc)
  · exact Literal.isNumeralChar_of_isDigit (hrun c hc)

theorem not_isKeyword_of_length {s : List Char} (h : digitLimit < s.length) :
    ¬ IsKeyword s := by
  have hlimit : 5 < digitLimit := by decide
  have hlower (t : List Char) (ht : Text.lower s = t) : s.length = t.length := by
    rw [← ht]
    simp [Text.lower]
  rintro (rfl | hs | hs)
  · exact absurd h (by decide)
  · have hlength : s.length = 4 := hlower _ hs
    omega
  · have hlength : s.length = 5 := hlower _ hs
    omega

/-- A run of too many digits cannot be read, with or without a sign. -/
theorem readTrimmed_overlong (hsign : IsSign sign) (hrun : Digits run)
    (hlimit : digitLimit < run.length) :
    readTrimmed (sign.toList ++ run) = .error ⟨run.length⟩ := by
  have hkeyword : ¬ IsKeyword (sign.toList ++ run) :=
    not_isKeyword_of_length (by rw [List.length_append]; omega)
  have hne : run ≠ [] := by
    rintro rfl
    exact absurd hlimit (by simp)
  have hinteger : readInteger (sign.toList ++ run) = .error ⟨run.length⟩ := by
    rw [readInteger, Numeral.read?_integer hsign hrun hne]
    simp [Numeral.isInteger, hlimit]
  rw [readTrimmed_of_not_keyword hkeyword, hinteger]
  rfl

/-- From a line that is a run of too many digits, with or without a sign, an
error escapes, whatever the context is and holds. -/
theorem evaluate_overlong (cat : Catalog) {line : List Char} {context : Value} (w : World)
    (hline : trim line = sign.toList ++ run) (hsign : IsSign sign) (hrun : Digits run)
    (hlimit : digitLimit < run.length) (hcontext : context.isNull = false) :
    cat.evaluate line context w = (.escaped (overlongError run.length), w) := by
  have hchars : ∀ c ∈ trim line, Literal.isNumeralChar c = true := by
    rw [hline]
    exact fun c hc => isNumeralChar_of_mem_signed hsign hrun hc
  have hread : readScalar (trim line) = .error ⟨run.length⟩ := by
    rw [readScalar, Text.trim_trim, hline, readTrimmed_overlong hsign hrun hlimit]
  have hblank : ¬ Text.Blanks line := by
    rw [← Text.trim_eq_nil_iff, hline]
    intro hnil
    rw [List.append_eq_nil_iff] at hnil
    rw [hnil.2] at hlimit
    exact absurd hlimit (by simp)
  have hmark : isNavigation line = false := by
    rw [Bool.eq_false_iff]
    intro h
    have hmem : '>' ∈ trim line := (isNavigation_iff.1 h).subset (by decide)
    exact absurd (hchars _ hmem) (by decide)
  have hpoint : Line.dropPoint (trim line) = trim line := by
    rw [hline]
    obtain ⟨d, digits, rfl⟩ := List.exists_cons_of_ne_nil (l := run)
      (by rintro rfl; exact absurd hlimit (by simp))
    have hd : d ≠ '.' := by
      rintro rfl
      exact absurd (hrun '.' (List.mem_cons_self ..)) (by decide)
    cases sign with
    | none => unfold Line.dropPoint; split <;> simp_all
    | some c => rcases hsign c rfl with rfl | rfl <;> rfl
  have hform : Form.ofLine line = .overlong run.length := by
    rw [Form.ofLine, hpoint, Form.ofText, hread]
  rw [cat.evaluate_plain hblank hmark, Catalog.evalExpr_of_not_blank _ _ _ hblank, hcontext,
    hform]
  rfl

end Overlong

/-- On every object and in every world, errors escape for those three reasons
only; and from a line that is a run of too many digits one does escape, unless
the context is `null`. -/
theorem evaluate_escapes (cat : Catalog) (text : List Char) (context : Value) (w : World) :
    (∀ e, (cat.evaluate text context w).1 = .escaped e → EscapesFrom text e) ∧
      ∀ sign run, trim text = sign.toList ++ run → IsSign sign → Digits run →
        digitLimit < run.length → context.isNull = false →
        cat.evaluate text context w = (.escaped (overlongError run.length), w) :=
  ⟨fun _ h => escapesFrom_of_evaluate h,
    fun _ _ htext hsign hrun hlimit hcontext =>
      evaluate_overlong cat w htext hsign hrun hlimit hcontext⟩

/-- A line of 4301 ones, run on the demonstration person. -/
theorem evaluate_manyOnes :
    Sample.catalog.evaluate (List.replicate 4301 '1') Sample.demonstration.1
        Sample.demonstration.2 =
      (.escaped (overlongError 4301), Sample.demonstration.2) := by
  have hones : ∀ c ∈ List.replicate 4301 '1', c = '1' := fun c hc => List.eq_of_mem_replicate hc
  have htrim : trim (List.replicate 4301 '1') = List.replicate 4301 '1' :=
    Text.trim_of_no_blank fun c hc => by rw [hones c hc]; rfl
  have hlength : (List.replicate 4301 '1').length = 4301 := List.length_replicate
  have hrun := (evaluate_escapes Sample.catalog (List.replicate 4301 '1') Sample.demonstration.1
    Sample.demonstration.2).2 none (List.replicate 4301 '1') htrim (by simp [IsSign])
    (fun c hc => by rw [hones c hc]; rfl) (by rw [hlength]; decide) rfl
  rwa [hlength] at hrun

end ObjectConsole
