import ObjectConsole.Proofs.Line.Name
import ObjectConsole.Evaluation

/-!
Lines and expressions. A line that is not blank is evaluated like an
expression, without the marker of a navigation if it starts with one; the
marker only decides whether the value is to become the context.
-/

namespace ObjectConsole

open Catalog (navigationMarker)
open Line (Form)
open Text (Blanks trim trimRight)

namespace Outcome

def value? : Outcome → Option Value
  | .value v _ => some v
  | _ => none

def navigates : Outcome → Bool
  | .value _ navigates => navigates
  | _ => false

end Outcome

theorem isNavigation_iff {text : List Char} :
    isNavigation text = true ↔ navigationMarker <+: trim text := by
  rw [isNavigation, Catalog.navigation?, ← List.isPrefixOf_iff_prefix]
  split
  · next h => simp [h]
  · next h => simp [h]

theorem isNavigation_trim (text : List Char) :
    isNavigation (trim text) = isNavigation text := by
  rw [isNavigation, isNavigation, Text.trim_trim]

/-- Whether a list starts with another is settled in front of a character that
the other does not have. -/
theorem prefix_append_cons_iff {m u rest : List Char} {c : Char} (h : c ∉ m) :
    m <+: u ++ c :: rest ↔ m <+: u := by
  refine ⟨fun hm => ?_, fun hm => hm.trans (List.prefix_append ..)⟩
  by_cases hle : m.length ≤ u.length
  · exact List.prefix_of_prefix_length_le hm (List.prefix_append ..) hle
  · have hu : u ++ [c] <+: m := by
      refine List.prefix_of_prefix_length_le ?_ hm ?_
      · exact ⟨rest, by simp⟩
      · rw [List.length_append, List.length_singleton]
        omega
    exact absurd (hu.subset (by simp)) h

theorem isNavigation_iff_trimLeft {text : List Char} :
    isNavigation text = true ↔ navigationMarker <+: Text.trimLeft text := by
  obtain ⟨b, hb, hleft⟩ := Text.trimLeft_eq_trim_append text
  rw [isNavigation_iff, hleft]
  cases b with
  | nil => rw [List.append_nil]
  | cons c b =>
      have hc : c ∉ navigationMarker := by
        intro hmem
        have hblank : Text.isBlank c = true := hb c (List.mem_cons_self ..)
        rw [navigationMarker, List.mem_pair] at hmem
        rcases hmem with rfl | rfl <;> exact absurd hblank (by decide)
      exact (prefix_append_cons_iff hc).symm

/-- A trigger and what follows it do not make a navigation of a text. -/
theorem isNavigation_append_trigger (word : List Char) (t : Line.Trigger) (rest : List Char) :
    isNavigation (word ++ t.char :: rest) = isNavigation word := by
  have ht : t.char ∉ navigationMarker := by cases t <;> decide
  rw [Bool.eq_iff_iff, isNavigation_iff_trimLeft, isNavigation_iff_trimLeft,
    Text.trimLeft_append_cons (Line.isBlank_trigger t), prefix_append_cons_iff ht]

/-- A text that reads as a scalar is no navigation, and it is not blank. -/
theorem isNavigation_of_readScalar {text : List Char} {v : Literal.Scalar}
    (h : Literal.readScalar text = .ok (some v)) : isNavigation text = false := by
  rw [Bool.eq_false_iff]
  intro hnav
  obtain ⟨rest, hrest⟩ := isNavigation_iff.1 hnav
  exact Literal.not_arrow_of_readScalar h rest hrest.symm

theorem not_blanks_of_readScalar {text : List Char} {v : Literal.Scalar}
    (h : Literal.readScalar text = .ok (some v)) : ¬Blanks text := by
  intro hb
  exact Literal.trim_ne_nil_of_readScalar h (Text.trim_of_blanks hb)

/-! ### Texts and their outer blanks -/

namespace Catalog

variable (cat : Catalog)

theorem isEmpty_trim_iff {text : List Char} : (trim text).isEmpty = true ↔ Blanks text := by
  rw [List.isEmpty_iff, Text.trim_eq_nil_iff]

theorem evalExpr_of_not_blank (levels : Nat) (context : Value) {text : List Char}
    (h : ¬Blanks text) :
    cat.evalExpr (levels + 1) context text =
      if context.isNull then Eval.fail .nullContext
      else cat.evalForm (cat.evalExpr levels) context (Form.ofLine text) := by
  rw [evalExpr, if_neg (mt isEmpty_trim_iff.1 h)]
  rfl

theorem evalExpr_trim (levels : Nat) (context : Value) (text : List Char) :
    cat.evalExpr levels context (trim text) = cat.evalExpr levels context text := by
  cases levels with
  | zero => rfl
  | succ levels => rw [evalExpr, evalExpr, Text.trim_trim]

theorem evalExpr_trimRight (levels : Nat) (context : Value) (text : List Char) :
    cat.evalExpr levels context (trimRight text) = cat.evalExpr levels context text := by
  rw [← evalExpr_trim, Text.trim_trimRight, evalExpr_trim]

/-! ### Lines -/

/-- A line is evaluated like an expression. -/
theorem evalLine_trim (context : Value) {text : List Char} (h : ¬Blanks text)
    (hmark : isNavigation text = false) :
    cat.evalLine context (trim text) = cat.evalExpr (cat.limits.expressions + 1) context text := by
  have hnone : navigation? (trim text) = none := by
    rwa [isNavigation, Option.isSome_eq_false_iff, Option.isNone_iff_eq_none] at hmark
  rw [evalLine, hnone, evalExpr_of_not_blank cat _ _ h]
  rfl

theorem trim_marked (text : List Char) :
    trim (navigationMarker ++ text) = navigationMarker ++ trimRight text :=
  Text.trim_append_cons (c := '>') (by decide) ['-'] text

theorem navigation?_marked (text : List Char) :
    navigation? (trim (navigationMarker ++ text)) = some (trim text) := by
  rw [trim_marked, navigation?, if_pos (List.isPrefixOf_iff_prefix.2 (List.prefix_append ..)),
    List.drop_left, Text.trimLeft_trimRight]

/-- What stands behind the marker of a line is evaluated like an expression. -/
theorem evalLine_marked (context : Value) {text : List Char} (h : ¬Blanks text) :
    cat.evalLine context (trim (navigationMarker ++ text)) =
      cat.evalExpr (cat.limits.expressions + 1) context text := by
  rw [evalLine, navigation?_marked, evalExpr_of_not_blank cat _ _ h]
  rfl

end Catalog

def Outcome.ofResult (navigates : Bool) : EStateM.Result Stop World Value → Outcome × World
  | .ok v w => (.value v navigates, w)
  | .error (.reported e) w => (.failed e, w)
  | .error (.escaped e) w => (.ofEscaped e, w)

theorem Outcome.value?_ofEscaped (e : Raised) : (Outcome.ofEscaped e).value? = none := by
  rw [Outcome.ofEscaped]
  split <;> rfl

theorem Outcome.navigates_ofEscaped (e : Raised) : (Outcome.ofEscaped e).navigates = false := by
  rw [Outcome.ofEscaped]
  split <;> rfl

theorem Outcome.navigates_ofResult (r : EStateM.Result Stop World Value) :
    (Outcome.ofResult false r).1.navigates = false := by
  cases r with
  | ok v w => rfl
  | error stop w =>
      cases stop with
      | reported e => rfl
      | escaped e => exact navigates_ofEscaped e

theorem Outcome.value?_ofResult_error (navigates : Bool) (stop : Stop) (w : World) :
    (Outcome.ofResult navigates (.error stop w)).1.value? = none := by
  cases stop with
  | reported e => rfl
  | escaped e => exact value?_ofEscaped e

theorem Outcome.eq_ok_of_ofResult {navigates n : Bool} {r : EStateM.Result Stop World Value}
    {v : Value} {w : World} (h : Outcome.ofResult navigates r = (.value v n, w)) :
    r = .ok v w ∧ n = navigates := by
  cases r with
  | ok u w' =>
      obtain ⟨hvalue, rfl⟩ := Prod.mk.inj h
      obtain ⟨rfl, rfl⟩ := Outcome.value.inj hvalue
      exact ⟨rfl, rfl⟩
  | error stop w' =>
      have hnone := congrArg (·.1.value?) h
      cases stop with
      | reported e => exact nomatch hnone
      | escaped e =>
          have hescaped : (Outcome.ofEscaped e).value? = some v := hnone
          rw [value?_ofEscaped] at hescaped
          exact nomatch hescaped

namespace Catalog

variable (cat : Catalog)

theorem evaluate_of_not_blank {text : List Char} (h : ¬Blanks text) (context : Value)
    (w : World) :
    cat.evaluate text context w =
      Outcome.ofResult (isNavigation text) (cat.evalLine context (trim text) w) := by
  rw [evaluate, if_neg (mt isEmpty_trim_iff.1 h)]
  split <;> next heq => rw [heq]; rfl

theorem evaluate_trim (text : List Char) (context : Value) (w : World) :
    cat.evaluate (trim text) context w = cat.evaluate text context w := by
  rw [evaluate, evaluate, Text.trim_trim, isNavigation_trim]

theorem evaluate_plain {text : List Char} (h : ¬Blanks text) (hmark : isNavigation text = false)
    (context : Value) (w : World) :
    cat.evaluate text context w =
      Outcome.ofResult false (cat.evalExpr (cat.limits.expressions + 1) context text w) := by
  rw [evaluate_of_not_blank cat h, evalLine_trim cat context h hmark, hmark]

theorem evaluate_marked {text : List Char} (h : ¬Blanks text) (context : Value) (w : World) :
    cat.evaluate (navigationMarker ++ text) context w =
      Outcome.ofResult true (cat.evalExpr (cat.limits.expressions + 1) context text w) := by
  have hmarked : ¬Blanks (navigationMarker ++ text) := by
    intro hb
    exact absurd (hb '-' (by simp [navigationMarker])) (by decide)
  have hnav : isNavigation (navigationMarker ++ text) = true := by
    rw [isNavigation, navigation?_marked]
    rfl
  rw [evaluate_of_not_blank cat hmarked, evalLine_marked cat context h, hnav]

/-- A value carries the mark of the line that it comes from, and no outcome
without a value navigates. -/
theorem evaluate_navigates (text : List Char) (context : Value)
    (w : World) :
    (cat.evaluate text context w).1.navigates =
      ((cat.evaluate text context w).1.value?.isSome && isNavigation text) := by
  rw [evaluate]
  split
  · rfl
  · split
    · rfl
    · rfl
    · rw [Outcome.navigates_ofEscaped, Outcome.value?_ofEscaped]
      rfl

end Catalog

end ObjectConsole
