import ObjectConsole.Proofs.Evaluation.Assignment
import ObjectConsole.Proofs.Evaluation.Escape
import ObjectConsole.Proofs.Literal.Printed
import ObjectConsole.Proofs.Sample.Reached

/-!
The round trip of an assignment. After an assignment the name gives the value
that the assignment gave, and compared to the world that the right side alone
leads to, only the property of that name in the context has changed.

There are three limits to this. A line that is a string as a whole assigns
nothing. A run of too many digits can be a name in front of the sign of an
assignment, but not alone. And a right side that begins with the marker of a
navigation does not navigate, for the marker has its meaning only in front of a
line.
-/

namespace ObjectConsole.Sample

open Line (isTrigger)
open Literal (readScalar)
open Text (trim)

variable {s : Session}

/-- What an expression that succeeds leaves behind. -/
theorem Sound.evalExpr [Host] (h : Sound s) {levels : Nat} {text : List Char} {u : Value}
    {w₁ : World}
    (heval : catalog.evalExpr levels s.stack.current text s.world = .ok u w₁) :
    WellTyped w₁ ∧ Fits w₁ s.stack.current ∧ Fits w₁ u := by
  have hkeeps := typing_lawful.keeps_evalExpr typing_access levels (Discipline.allows_all text)
    h.visit
  rw [Discipline.Keeps, heval] at hkeeps
  exact ⟨hkeeps.1.holds.1, hkeeps.1.holds.2, hkeeps.2⟩

/-- If an assignment to a name gives a value, then the name gives that value
right after it. All other properties are what they are after the right side
alone: after it as a line, if it does not begin with the marker. -/
theorem assignment_round_trip [Host] (hs : Reached s) {name right : List Char}
    (hname : IsTarget name)
    (hstring : ∀ x, readScalar (name ++ '=' :: right) ≠ .ok (some (.text x)))
    {v : Value} {navigates : Bool} {w₂ : World}
    (h : catalog.evaluate (name ++ '=' :: right) s.stack.current s.world =
      (.value v navigates, w₂)) :
    navigates = false ∧
      catalog.evaluate name s.stack.current w₂ = (.value v false, w₂) ∧
      ∃ u w₁, catalog.evalExpr catalog.limits.expressions s.stack.current right s.world = .ok u w₁ ∧
        (isNavigation right = false →
          catalog.evaluate right s.stack.current s.world = (.value u false, w₁)) ∧
        Sets w₁ s.stack.current (String.ofList name) v w₂ := by
  have hwhole := Literal.readScalar_of_assign (by simp) hstring
  obtain ⟨rfl, hne, hnull, u, w₁, hright, hwrite⟩ := catalog.evaluate_assign_ok hname hwhole h
  -- the right side may itself have changed the context, so all is read off from after it
  obtain ⟨hw₁, hcurrent, hu⟩ := hs.sound.evalExpr hright
  have hheld := hs.sound.current.2
  rcases writeProperty_typed hw₁ hcurrent hheld hu (String.ofList name) with
    ⟨e, w', hfailed, -⟩ | ⟨v', w', hstored, hw', hsets⟩
  · exact absurd (hwrite.symm.trans hfailed) (by simp)
  · obtain ⟨rfl, rfl⟩ := EStateM.Result.ok.inj (hwrite.symm.trans hstored)
    refine ⟨rfl, ?_, u, w₁, hright, ?_, hsets⟩
    · apply catalog.evaluate_target hname hne hnull (hsets.self hcurrent)
      exact readProperty_typed hw' (hsets.fits _ hcurrent) _
    · exact fun hunmarked => catalog.evaluate_of_evalExpr hunmarked (Nat.le_succ _) hright

def entryTable (name : List Char) : Literal.Tree := .table [(.ofText name, .int 1)]

def entryWorld (name : List Char) : World :=
  ⟨#[.record (.ofWidth .w8) [], .table false [(.text (String.ofList name), .int 1)]], ""⟩

theorem store_entryTable (name : List Char) :
    (entryTable name).store initialWorld = .ok (.object 1) (entryWorld name) := by
  conv_rhs => rw [entryWorld, ← Literal.Codes.text_ofText name]
  rfl

theorem reached_entryTable (name : List Char) :
    Reached (Session.start (.object 1) (entryWorld name)) :=
  reached_store (store_entryTable name)

def quoteName : List Char := "\"a".toList

/-- The key is assigned to and read, although it begins with a quote. -/
theorem assignment_round_trip_quote :
    ∃ v w₂, catalog.evaluate "\"a=5".toList (.object 1) (entryWorld quoteName) =
        (.value v false, w₂) ∧
      catalog.evaluate quoteName (.object 1) w₂ = (.value v false, w₂) := by
  refine ⟨_, _, rfl, ?_⟩
  have hwhole : readScalar "\"a=5".toList = .ok none := rfl
  have hstring : ∀ x, readScalar "\"a=5".toList ≠ .ok (some (.text x)) := by
    intro x hx
    exact nomatch hwhole.symm.trans hx
  have htarget : IsTarget quoteName := by decide
  exact (@assignment_round_trip _ _ (reached_entryTable quoteName) _ "5".toList htarget hstring
    _ _ _ rfl).2.1

def markerTable : Literal.Tree := 
  .table [(.ofText "a".toList, .int 1), (.ofText "->a".toList, .int 2)]

def markerWorld : World :=
  ⟨#[.record (.ofWidth .w8) [], .table false [(.text "a", .int 1), (.text "->a", .int 2)]], ""⟩

theorem store_markerTable : markerTable.store initialWorld = .ok (.object 1) markerWorld := rfl

def markedInt? (w : World) : Option Int :=
  (catalog.property? w (.object 1) "->a").bind Value.asInt?

theorem markedInt?_assigned :
    (catalog.evaluate "a=->a=3".toList (.object 1) markerWorld).1.value?.isSome = true ∧
      markedInt? (catalog.evaluate "a=->a=3".toList (.object 1) markerWorld).2 = some 3 ∧
      markedInt? (catalog.evaluate "->a=3".toList (.object 1) markerWorld).2 = some 2 := by
  decide +kernel

/-! Digits too many for an integer are a name that can be assigned to, as no
scalar is read in them, and none that can be evaluated. -/

theorem writable_entryWorld (name : List Char) :
    ∃ p, catalog.findProperty? (entryWorld name) (.object 1) (String.ofList name) = some p ∧
      p.writable = true :=
  ⟨_, List.find?_cons_of_pos (beq_self_eq_true _), rfl⟩

theorem writeProperty_entryWorld (name : List Char) :
    ∃ v w, catalog.writeProperty (.object 1) (String.ofList name) (.sized .w8 5 none)
      (entryWorld name) = .ok v w := by
  have hp : catalog.findProperty? (entryWorld name) (.object 1) (String.ofList name) = _ :=
    List.find?_cons_of_pos (beq_self_eq_true _)
  rw [Catalog.writeProperty, Eval.get_bind_apply, hp]
  exact ⟨_, _, rfl⟩

/-- The key is assigned to, whatever is read in it alone. -/
theorem evaluate_entryWorld {name : List Char} (hne : name ≠ [])
    (hfree : ∀ c ∈ name, isTrigger c = false) (htrim : trim name = name)
    (hmark : isNavigation name = false) (hnone : readScalar (name ++ '=' :: ['5']) = .ok none) :
    ∃ v w, catalog.evaluate (name ++ '=' :: ['5']) (.object 1) (entryWorld name) =
      (.value v false, w) := by
  have hblank : ¬Text.Blanks (name ++ '=' :: ['5']) := fun hb =>
    absurd (hb '=' (by simp)) (by decide)
  have hmark' := (isNavigation_append_trigger name .assign ['5']).trans hmark
  obtain ⟨p, hp, hwritable⟩ := writable_entryWorld name
  obtain ⟨v, w, hwrite⟩ := writeProperty_entryWorld name
  have hready : catalog.requireWritable (.object 1) (String.ofList name) (entryWorld name) =
      .ok ⟨⟩ (entryWorld name) := by
    rw [Catalog.requireWritable, Eval.get_bind_apply, hp]
    simp only [hwritable]
    rfl
  have hright : catalog.evalExpr catalog.limits.expressions (.object 1) ['5'] (entryWorld name) =
      .ok (.sized .w8 5 none) (entryWorld name) := rfl
  refine ⟨v, w, ?_⟩
  rw [catalog.evaluate_plain hblank hmark', catalog.evalExpr_of_not_blank _ _ hblank,
    Line.Form.ofLine_assign hfree hnone, htrim]
  change Outcome.ofResult false (catalog.evalForm _ _ (.assign name ['5']) (entryWorld name)) = _
  rw [catalog.evalForm_assign _ _ hne, Eval.bind_apply, hready]
  simp only [Eval.bind_apply, hright, hwrite]
  rfl

def onesName : List Char := List.replicate 4301 '1'

theorem eq_of_mem_onesName {c : Char} (h : c ∈ onesName) : c = '1' := List.eq_of_mem_replicate h

theorem isTrigger_of_mem_onesName : ∀ c ∈ onesName, isTrigger c = false := fun c hc => by
  rw [eq_of_mem_onesName hc]
  rfl

theorem trim_onesName : trim onesName = onesName :=
  Text.trim_of_no_blank fun c hc => by rw [eq_of_mem_onesName hc]; rfl

theorem isNavigation_onesName : isNavigation onesName = false := by
  rw [Bool.eq_false_iff]
  intro hmark
  have hmem : '>' ∈ trim onesName := (isNavigation_iff.1 hmark).subset (by decide)
  rw [trim_onesName] at hmem
  exact absurd (eq_of_mem_onesName hmem) (by decide)

theorem overlong_onesName :
    Literal.IsSign none ∧ Literal.Digits onesName ∧ Literal.digitLimit < onesName.length := by
  refine ⟨by simp [Literal.IsSign], fun c hc => by rw [eq_of_mem_onesName hc]; rfl, ?_⟩
  rw [onesName, List.length_replicate]
  decide

theorem readScalar_onesName (x : Option Literal.Scalar) : readScalar onesName ≠ .ok x := by
  intro hx
  obtain ⟨hsign, hdigits, hlimit⟩ := overlong_onesName
  rw [readScalar, trim_onesName] at hx
  exact absurd ((readTrimmed_overlong hsign hdigits hlimit).symm.trans hx) (by simp)

theorem evaluate_onesName (w : World) :
    (catalog.evaluate onesName (.object 1) w).1.value? = none := by
  obtain ⟨hsign, hdigits, hlimit⟩ := overlong_onesName
  rw [evaluate_overlong catalog w trim_onesName hsign hdigits hlimit rfl]
  rfl

theorem readScalar_onesName_assigned : readScalar (onesName ++ '=' :: ['5']) = .ok none := by
  have htrim : trim (onesName ++ '=' :: ['5']) = onesName ++ '=' :: ['5'] := by
    refine Text.trim_of_no_blank fun c hc => ?_
    rcases List.mem_append.1 hc with hc | hc
    · rw [eq_of_mem_onesName hc]
      rfl
    · rcases List.mem_pair.1 hc with rfl | rfl <;> rfl
  have hhead : ∀ c ∈ (onesName ++ '=' :: ['5']).head?, Line.isQuote c = false := by
    intro c hc
    obtain rfl : '1' = c := Option.some.inj hc
    rfl
  rw [readScalar, htrim, Literal.readTrimmed_of_not_unquoted
    (Literal.not_unquoted_of_assign (by simp)), Literal.readQuoted_of_head hhead]
  rfl

/-- A line that is a string as a whole assigns nothing, so that the name keeps
its value. A name of too many digits cannot be evaluated after it was assigned to.
And behind the sign of an assignment the marker is part of a name, so that
another property is assigned to than by the right side alone. -/
theorem assignment_not_round_trip :
    (¬∀ (s : Session) (name right : List Char) (v : Value) (navigates : Bool) (w₂ : World),
      Reached s → IsTarget name →
      (∃ p, catalog.findProperty? s.world s.stack.current (String.ofList name) = some p ∧
        p.writable = true) →
      catalog.evaluate (name ++ '=' :: right) s.stack.current s.world =
        (.value v navigates, w₂) →
      (catalog.evaluate name s.stack.current w₂).1.value? = some v) ∧
    (¬∀ (s : Session) (name right : List Char) (v : Value) (navigates : Bool) (w₂ : World),
      Reached s → (∀ c ∈ name, isTrigger c = false) → trim name = name →
      isNavigation name = false → (∀ x, readScalar name ≠ .ok (some x)) →
      (∃ p, catalog.findProperty? s.world s.stack.current (String.ofList name) = some p ∧
        p.writable = true) →
      (∀ x, readScalar (name ++ '=' :: right) ≠ .ok (some (.text x))) →
      catalog.evaluate (name ++ '=' :: right) s.stack.current s.world =
        (.value v navigates, w₂) →
      (catalog.evaluate name s.stack.current w₂).1.value? = some v) ∧
    ¬∀ (s : Session) (name right : List Char) (v : Value) (navigates : Bool) (w₂ : World),
      Reached s → IsTarget name →
      (∃ p, catalog.findProperty? s.world s.stack.current (String.ofList name) = some p ∧
        p.writable = true) →
      catalog.evaluate (name ++ '=' :: right) s.stack.current s.world =
        (.value v navigates, w₂) →
      ∀ x label, ¬(x.isSameObject s.stack.current = true ∧ label = String.ofList name) →
        catalog.property? w₂ x label =
          catalog.property? (catalog.evaluate right s.stack.current s.world).2 x label := by
  refine ⟨fun h => ?_, fun h => ?_, fun h => ?_⟩
  · have hline : catalog.evaluate "\"a=b\"".toList (.object 1) (entryWorld quoteName) =
        (.value (.text "a=b") false, entryWorld quoteName) := rfl
    have hkept : catalog.evaluate quoteName (.object 1) (entryWorld quoteName) =
        (.value (.int 1) false, entryWorld quoteName) := rfl
    have hread := h _ quoteName "b\"".toList _ _ _ (reached_entryTable quoteName) (by decide)
      (writable_entryWorld quoteName) hline
    exact nomatch (congrArg (·.1.value?) hkept).symm.trans hread
  · have hnone := readScalar_onesName_assigned
    obtain ⟨v, w₂, hline⟩ := evaluate_entryWorld (List.cons_ne_nil _ _)
      isTrigger_of_mem_onesName trim_onesName isNavigation_onesName hnone
    have hread := h _ onesName ['5'] _ _ _ (reached_entryTable onesName)
      isTrigger_of_mem_onesName trim_onesName isNavigation_onesName
      (fun x => readScalar_onesName (some x)) (writable_entryWorld onesName)
      (fun x hx => nomatch hnone.symm.trans hx) hline
    exact nomatch (evaluate_onesName w₂).symm.trans hread
  · obtain ⟨hvalue, hassigned, hnavigated⟩ := markedInt?_assigned
    cases hline : catalog.evaluate "a=->a=3".toList (.object 1) markerWorld with
    | mk outcome w₂ =>
        rw [hline] at hvalue hassigned
        cases outcome with
        | value v navigates =>
            have hsame := h (Session.start (.object 1) markerWorld) "a".toList "->a=3".toList _ _
              _ (reached_store store_markerTable) (by decide) ⟨_, rfl, rfl⟩ hline (.object 1) "->a"
              (by decide)
            have hint := congrArg (·.bind Value.asInt?) hsame
            exact absurd (hassigned.symm.trans (hint.trans hnavigated)) (by decide)
        | _ => exact absurd hvalue (by simp [Outcome.value?])

end ObjectConsole.Sample
