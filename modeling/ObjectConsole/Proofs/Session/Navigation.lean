import ObjectConsole.Proofs.Evaluation.Segment
import ObjectConsole.Proofs.Session.History
import ObjectConsole.Sample.Catalog

/-!
Navigation and chaining. A path is a chain of segments. Evaluating a path and
then, behind a point, another text is evaluating the path first and the text
against its value; only the levels of nesting that the path has used up are
missing for the text. So navigating to the path and running the text as a
line of its own comes to the same.
-/

namespace ObjectConsole

open Catalog (goOn navigationMarker)
open Text (Blanks trim)

/-- A chain of segments as written. Behind brackets the point may be left
out. -/
inductive IsPath : List Char → Prop
  | segment {seg : Segment} (hseg : seg.WellFormed) : IsPath seg.text
  | point {seg : Segment} {p : List Char} (hseg : seg.WellFormed) (hp : IsPath p) :
      IsPath (seg.text ++ '.' :: p)
  | direct {seg : Segment} {p : List Char} (hseg : seg.WellFormed)
      (hb : seg.isBracketed = true) (hp : IsPath p) : IsPath (seg.text ++ p)

namespace IsPath

theorem front {p : List Char} (h : IsPath p) (rest : List Char) : Front (p ++ rest) := by
  cases h with
  | segment hseg => exact hseg.front rest
  | point hseg hp =>
      rw [List.append_assoc]
      exact hseg.front _
  | direct hseg hb hp =>
      rw [List.append_assoc]
      exact hseg.front _

theorem not_blanks {p : List Char} (h : IsPath p) : ¬Blanks p := by
  have hfront := (h.front []).not_blanks
  rwa [List.append_nil] at hfront

variable (cat : Catalog)

/-- What a path does in front of a point: `steps levels context` stands for
the evaluation of the path, and what follows the point goes on from its
value with the levels that the path has left. -/
structure LeadsOn (cat : Catalog) (p : List Char) (used : Nat)
    (steps : Nat → Value → Eval Value) : Prop where
  alone : ∀ levels context,
    (steps levels context).coarse = (cat.evalExpr levels context p).coarse
  further : ∀ levels context rest, ¬Blanks rest →
    cat.evalExpr levels context (p ++ '.' :: rest) =
      steps levels context >>= goOn (cat.evalExpr (levels - used)) rest

def stepsFrom (cat : Catalog) (seg : Segment) (next : Nat → Value → Eval Value) :
    Nat → Value → Eval Value
  | 0, _ => Eval.fail .nestedTooDeeply
  | levels + 1, context =>
      seg.run cat (cat.evalExpr levels) context >>= next levels

theorem LeadsOn.cons {seg : Segment} {q : List Char} {used : Nat}
    {steps : Nat → Value → Eval Value} (hq : LeadsOn cat q used steps)
    (sep : List Char)
    (hseg : ∀ levels context rest, Front (q ++ rest) →
      cat.evalExpr (levels + 1) context (seg.text ++ (sep ++ (q ++ rest))) =
        seg.run cat (cat.evalExpr levels) context >>=
          goOn (cat.evalExpr levels) (q ++ rest))
    (hfront : ∀ rest, Front (q ++ rest)) :
    LeadsOn cat (seg.text ++ (sep ++ q)) (used + 1)
      (stepsFrom cat seg fun levels v => Catalog.adopt v >>= steps levels) := by
  constructor
  · intro levels context
    cases levels with
    | zero => rfl
    | succ levels =>
        have hone := hseg levels context [] (hfront [])
        rw [List.append_nil] at hone
        rw [hone, stepsFrom]
        refine Eval.coarse_bind_right _ fun v => ?_
        exact Eval.coarse_bind_right _ fun v => hq.alone levels v
  · intro levels context rest hrest
    cases levels with
    | zero => rfl
    | succ levels =>
        have hmore := hseg levels context ('.' :: rest) (hfront _)
        rw [List.append_assoc, List.append_assoc, hmore, stepsFrom, bind_assoc,
          Nat.add_sub_add_right]
        congr 1
        funext v
        rw [goOn, bind_assoc]
        congr 1
        funext v
        exact hq.further levels v rest hrest

/-- Every path leads on to what follows it. -/
theorem leadsOn {p : List Char} (h : IsPath p) : ∃ used steps, LeadsOn cat p used steps := by
  induction h with
  | @segment seg hseg =>
      refine ⟨1, stepsFrom cat seg fun _ v => pure v, ?_, ?_⟩
      · intro levels context
        cases levels with
        | zero => rfl
        | succ levels =>
            rw [stepsFrom, bind_pure]
            exact (hseg.coarse_evalExpr cat levels context).symm
      · intro levels context rest hrest
        cases levels with
        | zero => rfl
        | succ levels =>
            rw [hseg.evalExpr_point cat levels context hrest, stepsFrom, bind_pure]
            rfl
  | point hseg hq ih =>
      obtain ⟨used, steps, hsteps⟩ := ih
      refine ⟨used + 1, _, hsteps.cons cat ['.'] ?_ hq.front⟩
      intro levels context rest hrest
      exact hseg.evalExpr_point cat levels context hrest.not_blanks
  | direct hseg hb hq ih =>
      obtain ⟨used, steps, hsteps⟩ := ih
      refine ⟨used + 1, _, hsteps.cons cat [] ?_ hq.front⟩
      intro levels context rest hrest
      exact hseg.evalExpr_direct cat hb levels context hrest

end IsPath

namespace Session

variable (cat : Catalog) (s : Session)

/-! ### Reports -/

/-- The stack does not matter to a report. -/
theorem report_with_stack (stack : ContextStack) (o : Outcome) :
    { s with stack }.report o = ((s.report o).1, { (s.report o).2 with stack }) := by
  rw [report, report]
  split
  · rfl
  · split <;> rfl

theorem coarse_report {o o' : Outcome} (h : o.coarse = o'.coarse) :
    (s.report o).1.coarse = (s.report o').1.coarse := by
  rcases Outcome.eq_or_missing_of_coarse h with rfl | ⟨c, k, k', name, rfl, rfl⟩
  · rfl
  · -- whatever kind of member is missing, the error has a text
    rfl

/-! ### The lines of a navigation -/

theorem trim_marked_ne_returnCommand (p : List Char) :
    trim (navigationMarker ++ p) ≠ returnCommand := by
  rw [Catalog.trim_marked]
  exact fun h => absurd (List.cons.inj h).1 (by decide)

theorem trim_point_ne_returnCommand (p rest : List Char) :
    trim (p ++ '.' :: rest) ≠ returnCommand := by
  rw [Text.trim_append_cons (by decide)]
  intro h
  have hmem : '.' ∈ returnCommand := by simp [← h]
  exact absurd hmem (by decide)

/-- A line that is evaluated and does not navigate. -/
theorem runLine_plain {line : List Char} (hblank : ¬Blanks line)
    (hmark : isNavigation line = false) (hreturn : trim line ≠ returnCommand) :
    s.runLine cat line =
      let (outcome, w) := Outcome.ofResult false
        (cat.evalExpr (cat.limits.expressions + 1) s.stack.current line s.world)
      { s with world := w }.report outcome := by
  refine runLine_of_stays hreturn ?_ (Outcome.navigates_ofResult _)
  exact (cat.evaluate_trim ..).trans (cat.evaluate_plain hblank hmark ..)

/-- A line that navigates to a value. -/
theorem runLine_marked_ok {p : List Char} (hp : ¬Blanks p) {v : Value} {w : World}
    (hv : cat.evalExpr (cat.limits.expressions + 1) s.stack.current p s.world = .ok v w) :
    s.runLine cat (navigationMarker ++ p) =
      (.value (w.adopt v).1 true,
        { s with stack := s.stack.push (w.adopt v).1, world := (w.adopt v).2 }) := by
  simp only [runLine, if_neg (trim_marked_ne_returnCommand p), evaluate, cat.evaluate_trim,
    cat.evaluate_marked hp, hv, Outcome.ofResult, report_value]

/-- A line that is to navigate and fails. -/
theorem runLine_marked_error {p : List Char} (hp : ¬Blanks p) {stop : Stop} {w : World}
    (hstop : cat.evalExpr (cat.limits.expressions + 1) s.stack.current p s.world = .error stop w) :
    s.runLine cat (navigationMarker ++ p) =
      { s with world := w }.report (Outcome.ofResult false (.error stop w)).1 := by
  refine runLine_of_stays (trim_marked_ne_returnCommand p) ?_ (Outcome.navigates_ofResult _)
  rw [cat.evaluate_trim, cat.evaluate_marked hp, hstop]
  cases stop <;> rfl

/-- Returning undoes a navigation. -/
theorem runLine_return_of_push (v : Value) :
    (({ s with stack := s.stack.push v } : Session).runLine cat returnCommand).2 = s := by
  have htrim : trim returnCommand = returnCommand := by decide
  simp [runLine, htrim, goBack, ContextStack.pop?, ContextStack.push]

theorem goOn_apply (recur : Value → List Char → Eval Value) (rest : List Char) (v : Value)
    (w : World) : goOn recur rest v w = recur (w.adopt v).1 rest (w.adopt v).2 := rfl

/-- Navigating to a path and running a text there comes to the same as
chaining the text to the path. If the path fails, so does the chain, in the
same way up to the kind of a missing member, and nothing is pushed. -/
theorem navigate_then_run {p text : List Char} (hp : IsPath p) (htext : ¬Blanks text)
    (hmark : isNavigation text = false) (hreturn : trim text ≠ returnCommand)
    (hlimit : (s.runLine cat (p ++ '.' :: text)).1 ≠ .failed .nestedTooDeeply) :
    let navigated := s.runLine cat (navigationMarker ++ p)
    let chained := s.runLine cat (p ++ '.' :: text)
    let run := navigated.2.runLine cat text
    chained.2.stack = s.stack ∧
      (∀ v, navigated.1.value? = some v →
        navigated.2.stack = s.stack.push v ∧ run.1 = chained.1 ∧
          run.2 = { chained.2 with stack := navigated.2.stack } ∧
          (run.2.runLine cat returnCommand).2 = chained.2) ∧
      (navigated.1.value? = none →
        navigated.1.coarse = chained.1.coarse ∧ navigated.2.world = chained.2.world ∧
          navigated.2.stack = s.stack) := by
  have hfront := hp.front ('.' :: text)
  have hchained := s.runLine_plain cat hfront.not_blanks hfront.unmarked
    (trim_point_ne_returnCommand p text)
  rw [hchained] at hlimit
  simp only [hchained]
  refine ⟨stack_report _ _, ?_⟩
  obtain ⟨used, steps, hsteps⟩ := hp.leadsOn cat
  have hfurther := hsteps.further (cat.limits.expressions + 1) s.stack.current text htext
  rw [hfurther, Eval.bind_apply] at hlimit ⊢
  rcases Eval.apply_of_coarse_eq (hsteps.alone (cat.limits.expressions + 1) s.stack.current)
      s.world with
    ⟨v, w, hsteps_ok, hpath⟩ | ⟨stop, stop', w, hsteps_error, hpath, hcoarse⟩
  · have hnavigated := s.runLine_marked_ok cat hp.not_blanks hpath
    have hrun := ({ s with stack := s.stack.push (w.adopt v).1, world := (w.adopt v).2 }
      : Session).runLine_plain cat htext hmark hreturn
    -- behind the path, the text has fewer levels left than on a line of its own
    have hsame : cat.evalExpr (cat.limits.expressions + 1 - used) (w.adopt v).1 text (w.adopt v).2 =
        cat.evalExpr (cat.limits.expressions + 1) (w.adopt v).1 text (w.adopt v).2 := by
      rcases cat.within_evalExpr (Nat.sub_le (cat.limits.expressions + 1) used) (w.adopt v).1 text
        (w.adopt v).2 with ⟨w', hstop⟩ | heq
      · simp only [hsteps_ok, goOn_apply, hstop] at hlimit
        exact absurd rfl hlimit
      · exact heq
    have hcurrent : (s.stack.push (w.adopt v).1).current = (w.adopt v).1 := rfl
    simp only [hsteps_ok, goOn_apply, hsame, hnavigated, hrun, hcurrent]
    refine ⟨?_, fun hnone => absurd hnone (by simp [Outcome.value?])⟩
    intro u hu
    obtain rfl : (w.adopt v).1 = u := Option.some.inj hu
    generalize Outcome.ofResult false _ = reported
    have hstack := ({ s with world := reported.2 } : Session).report_with_stack
      (s.stack.push (w.adopt v).1) reported.1
    have hback := runLine_return_of_push cat ({ s with world := reported.2 }.report reported.1).2
      (w.adopt v).1
    rw [stack_report] at hback
    rw [hstack]
    exact ⟨rfl, rfl, rfl, hback⟩
  · have hnavigated := s.runLine_marked_error cat hp.not_blanks hpath
    simp only [hsteps_error, hnavigated, Outcome.ofResult_error_world]
    refine ⟨?_, fun _ => ⟨?_, by simp, stack_report _ _⟩⟩
    · intro u hu
      rw [value?_report, Outcome.value?_ofResult_error] at hu
      cases hu
    · exact coarse_report _ (Outcome.coarse_ofResult_error false hcoarse w).symm

def demonstration : Session := start Sample.demonstration.1 Sample.demonstration.2

/-- The first friend's name can be read from the friend. -/
theorem navigate_to_firstFriend :
    let navigated := (demonstration.runLine Sample.catalog "->Friends[0]".toList).2
    (navigated.runLine Sample.catalog "Name".toList).1 =
        (demonstration.runLine Sample.catalog "Friends[0].Name".toList).1 ∧
      ((navigated.runLine Sample.catalog "Name".toList).2.runLine Sample.catalog
        "return".toList).2 =
        (demonstration.runLine Sample.catalog "Friends[0].Name".toList).2 := by
  have hpath : IsPath "Friends[0]".toList :=
    @IsPath.segment (.bracketed .square "Friends".toList ['0'] [])
      ⟨.inl (by decide), by decide +kernel, by decide⟩
  have herror : (demonstration.runLine Sample.catalog
      "Friends[0].Name".toList).1.error? = none := by decide +kernel
  have hlimit : (demonstration.runLine Sample.catalog
      ("Friends[0]".toList ++ '.' :: "Name".toList)).1 ≠ .failed .nestedTooDeeply := by
    intro hfailed
    have h : (Outcome.failed .nestedTooDeeply).error? = none := hfailed ▸ herror
    exact absurd h (by decide)
  have hvalue : (demonstration.runLine Sample.catalog
      (navigationMarker ++ "Friends[0]".toList)).1.value?.isSome = true := by decide +kernel
  obtain ⟨v, hv⟩ := Option.isSome_iff_exists.1 hvalue
  have hsame := demonstration.navigate_then_run Sample.catalog hpath
    (by decide) (by decide) (by decide) hlimit
  exact ⟨(hsame.2.1 v hv).2.1, (hsame.2.1 v hv).2.2.2⟩

end Session

end ObjectConsole
