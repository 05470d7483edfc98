import ObjectConsole.Proofs.Evaluation.Segment
import ObjectConsole.Proofs.Member.Property

/-!
Assignments in lines. The text in front of the first trigger is the name that
is assigned to, whatever characters it is made of, unless the line is a string
as a whole. The right side is evaluated as an expression against the context, and
what it gives is stored after that.
-/

namespace ObjectConsole

open Line (Form isTrigger)
open Literal (IsUnquoted Scalar readScalar)
open Text (Blanks trim trimRight)

/-! ### Texts -/

namespace Literal

/-- A trigger other than the point stands in no keyword and in no numeral. -/
theorem not_unquoted_of_trigger {t : Line.Trigger} (ht : t ≠ .member) {s : List Char}
    (h : t.char ∈ s) : ¬IsUnquoted s := by
  have hplain := Line.isPlain_trigger t
  rintro (hk | ⟨n, hn⟩)
  · exact absurd ((isPlain_of_mem_keyword hk h).symm.trans hplain) (by simp)
  · obtain ⟨htext, hlawful⟩ := Numeral.read?_spec hn
    have hchar := hlawful.isNumeralChar (htext ▸ h)
    have hpoint : t.char ≠ '.' := by cases t <;> simp_all [Line.Trigger.char]
    exact absurd ((isPlain_of_isNumeralChar hchar hpoint).symm.trans hplain) (by simp)

theorem not_unquoted_of_assign {s : List Char} (h : '=' ∈ s) : ¬IsUnquoted s :=
  not_unquoted_of_trigger (t := .assign) (by decide) h

/-- A text with an assignment in it is no scalar, or a string. -/
theorem readScalar_of_assign {s : List Char} (h : '=' ∈ s)
    (hstring : ∀ x, readScalar s ≠ .ok (some (.text x))) : readScalar s = .ok none := by
  have hmem : '=' ∈ trim s := by
    obtain ⟨b, d, hb, hd, hs⟩ := Text.eq_blanks_append_trim s
    rw [hs, List.append_assoc, List.mem_append, List.mem_append] at h
    rcases h with h | h | h
    · exact absurd (hb '=' h) (by decide)
    · exact h
    · exact absurd (hd '=' h) (by decide)
  have hread := readTrimmed_of_not_unquoted (not_unquoted_of_assign hmem)
  cases hquoted : readQuoted (trim s) with
  | none => rw [readScalar, hread, hquoted]; rfl
  | some x => exact absurd (by rw [readScalar, hread, hquoted]; rfl) (hstring x)

end Literal

namespace Line

variable {name : List Char}

theorem Form.ofLine_assign (hfree : ∀ c ∈ name, isTrigger c = false) {right : List Char}
    (hnone : readScalar (name ++ '=' :: right) = .ok none) :
    Form.ofLine (name ++ '=' :: right) = .assign (trim name) (trimRight right) :=
  ofLine_cut (t := .assign) hfree (fun _ => Trigger.noConfusion) hnone

theorem Form.ofLine_word (hfree : ∀ c ∈ name, isTrigger c = false)
    (hnone : readScalar name = .ok none) : Form.ofLine name = .word (trim name) := by
  have htrim : ∀ c ∈ trim name, isTrigger c = false := fun c hc =>
    hfree c ((Text.infix_trim name).subset hc)
  have hhead : (trim name).head? ≠ some '.' := by
    intro h
    exact absurd (htrim '.' (List.mem_of_mem_head? h)) (by decide)
  have hread : readScalar (trim name) = .ok none := by
    rwa [readScalar, Text.trim_trim, ← readScalar]
  rw [Form.ofLine, dropPoint_of_head hhead, Form.ofText, hread, scan_of_free htrim]

end Line

/-- A text that a line means as a name: no trigger is in it, and no blank around it,
it does not begin with the marker of a navigation, and it is read as no scalar. -/
structure IsTarget (name : List Char) : Prop where
  free : ∀ c ∈ name, isTrigger c = false
  trimmed : trim name = name
  unmarked : isNavigation name = false
  noScalar : readScalar name = .ok none

instance (name : List Char) : Decidable (IsTarget name) :=
  decidable_of_iff
    (name.all (fun c => !isTrigger c) = true ∧ trim name = name ∧ isNavigation name = false ∧
      readScalar name = .ok none)
    ⟨fun ⟨h1, h2, h3, h4⟩ => ⟨fun c hc => by simpa using List.all_eq_true.1 h1 c hc, h2, h3, h4⟩,
      fun ⟨h1, h2, h3, h4⟩ => ⟨List.all_eq_true.2 fun c hc => by simp [h1 c hc], h2, h3, h4⟩⟩

/-! ### Evaluation -/

namespace Catalog

variable (cat : Catalog) {context : Value} {name right : List Char} {w : World}

theorem requireWritable_cases (w : World) (context : Value) (label : String) :
    cat.requireWritable context label w = .ok ⟨⟩ w ∨
      ∃ e, cat.requireWritable context label w = .error e w := by
  rw [requireWritable, Eval.get_bind_apply]
  cases cat.findProperty? w context label with
  | none => exact .inr ⟨_, rfl⟩
  | some p =>
      cases hp : p.writable with
      | true => exact .inl (by simp only [hp]; rfl)
      | false => exact .inr ⟨_, by simp only [hp]; rfl⟩

/-- What an assignment that succeeds has done. -/
theorem assign_ok {recur : Value → List Char → Eval Value} {v : Value} {w₂ : World}
    (h : cat.evalForm recur context (.assign name right) w = .ok v w₂) :
    name ≠ [] ∧ ∃ u w₁, recur context right w = .ok u w₁ ∧
      cat.writeProperty context (String.ofList name) u w₁ = .ok v w₂ := by
  have hname : name ≠ [] := by
    rintro rfl
    have hnil : cat.evalForm recur context (.assign [] right) =
        Eval.fail .missingAssignmentTarget := rfl
    rw [hnil] at h
    exact nomatch h
  refine ⟨hname, ?_⟩
  rw [cat.evalForm_assign recur context hname, Eval.bind_apply] at h
  rcases cat.requireWritable_cases w context (String.ofList name) with hready | ⟨e, hrefused⟩
  · rw [hready] at h
    simp only [Eval.bind_apply] at h
    cases hright : recur context right w with
    | error e w₁ =>
        rw [hright] at h
        exact absurd h (by simp)
    | ok u w₁ =>
        rw [hright] at h
        exact ⟨u, w₁, rfl, h⟩
  · rw [hrefused] at h
    exact absurd h (by simp)

theorem evaluate_of_evalExpr {text : List Char} (hmark : isNavigation text = false)
    {levels : Nat} (hlevels : levels ≤ cat.limits.expressions + 1) {u : Value} {w₁ : World}
    (h : cat.evalExpr levels context text w = .ok u w₁) :
    cat.evaluate text context w = (.value u false, w₁) := by
  have hmore : cat.evalExpr (cat.limits.expressions + 1) context text w = .ok u w₁ := by
    rcases cat.within_evalExpr hlevels context text w with ⟨w', hw'⟩ | hsame
    · exact absurd (h.symm.trans hw') (by simp)
    · rw [← hsame, h]
  have hblank : ¬Blanks text := by
    intro hb
    rw [evalExpr, if_pos (isEmpty_trim_iff.2 hb)] at hmore
    have hfail : (Eval.fail .emptyExpression : Eval Value) w =
        .error (.reported .emptyExpression) w := rfl
    exact absurd (hfail.symm.trans hmore) (by simp)
  rw [cat.evaluate_plain hblank hmark, hmore]
  rfl

theorem evaluate_assign_ok (hname : IsTarget name)
    (hnone : readScalar (name ++ '=' :: right) = .ok none) {v : Value} {navigates : Bool}
    {w₂ : World}
    (h : cat.evaluate (name ++ '=' :: right) context w = (.value v navigates, w₂)) :
    navigates = false ∧ name ≠ [] ∧ context.isNull = false ∧
      ∃ u w₁, cat.evalExpr cat.limits.expressions context right w = .ok u w₁ ∧
        cat.writeProperty context (String.ofList name) u w₁ = .ok v w₂ := by
  have hblank : ¬Blanks (name ++ '=' :: right) := by
    intro hb
    exact absurd (hb '=' (by simp)) (by decide)
  have hmark' : isNavigation (name ++ '=' :: right) = false :=
    (isNavigation_append_trigger name .assign right).trans hname.unmarked
  rw [cat.evaluate_plain hblank hmark', cat.evalExpr_of_not_blank _ _ hblank,
    Form.ofLine_assign hname.free hnone, hname.trimmed] at h
  cases hnull : context.isNull with
  | true =>
      rw [hnull, if_pos rfl] at h
      exact nomatch (Prod.mk.inj h).1
  | false =>
      rw [hnull, if_neg (by simp)] at h
      obtain ⟨hresult, rfl⟩ := Outcome.eq_ok_of_ofResult h
      obtain ⟨hne, u, w₁, hright, hwrite⟩ := cat.assign_ok hresult
      -- the blanks behind the line are cut off, and count for nothing in the right side
      rw [evalExpr_trimRight] at hright
      exact ⟨rfl, hne, rfl, u, w₁, hright, hwrite⟩

/-- A name gives the value of the property. -/
theorem evaluate_target (hname : IsTarget name) (hne : name ≠ [])
    (hcontext : context.isNull = false) {v : Value}
    (hv : cat.property? w context (String.ofList name) = some v)
    (hworld : resultWorld (cat.readProperty context (String.ofList name) w) = w) :
    cat.evaluate name context w = (.value v false, w) := by
  have hread : cat.readProperty context (String.ofList name) w = .ok v w := by
    rw [property?] at hv
    cases hresult : cat.readProperty context (String.ofList name) w with
    | ok u w' =>
        rw [hresult] at hv hworld
        rw [show u = v from Option.some.inj hv, show w' = w from hworld]
    | error e w' =>
        rw [hresult] at hv
        exact absurd hv (by simp [resultValue?])
  have hlookup : cat.lookupWord context name w = .ok v w := by
    have hcoarse := cat.coarse_lookupWord context hname.trimmed
    rcases Eval.apply_of_coarse_eq hcoarse w with ⟨u, w', hlookup, hread'⟩ | ⟨_, _, _, -, hread', -⟩
    · rw [hlookup, ← hread', hread]
    · exact absurd (hread.symm.trans hread') (by simp)
  have hblank : ¬Blanks name := by
    intro hb
    exact hne (hname.trimmed.symm.trans (Text.trim_of_blanks hb))
  rw [cat.evaluate_plain hblank hname.unmarked, cat.evalExpr_of_not_blank _ _ hblank, hcontext,
    Form.ofLine_word hname.free hname.noScalar, hname.trimmed]
  change Outcome.ofResult false (cat.lookupWord context name w) = _
  rw [hlookup]
  rfl

end Catalog

end ObjectConsole
