import ObjectConsole.Proofs.Sample.Quiet

/-!
Inputs that only look are transparent. Two prompts that are given the same
inputs, one of them without the looking ones, stay on the same session: the
looking inputs are steps of the one prompt at which the other one stands still.
So at all other inputs both show the same prompt, print the same and leave the
same stack over the same objects.
-/

namespace ObjectConsole

namespace Prompt

variable {cat : Catalog} {s t : State}

/-- What there is to see of a reaction: the prompt in front of it, what it prints
on the standard output, and the stack of contexts and the objects after it. -/
structure Effect where
  prompt : String
  out : String
  stack : ContextStack
  world : World

def effectOf (step : String × Reaction) : Effect :=
  ⟨step.1, step.2.printed.out, step.2.state.session.stack, step.2.state.session.world⟩

/-- The effects of the inputs that do more than look, among those of all inputs
that were reacted to. -/
def keptEffects (inputs : List Input) (steps : List (String × Reaction)) : List Effect :=
  ((inputs.zip steps).filter fun step => !step.1.isView).map fun step => effectOf step.2

theorem run_of_stopped (h : s.running = false) (inputs : List Input) :
    (run cat s inputs).1 = [] := by
  cases inputs with
  | nil => rfl
  | cons input inputs => rw [run, if_neg (by simp [h])]

theorem run_cons (h : s.running = true) (input : Input) (inputs : List Input) :
    run cat s (input :: inputs) =
      if (react cat s input).escaped.isSome then
        ([(s.prompt, react cat s input)], inputs.length)
      else
        ((s.prompt, react cat s input) :: (run cat (react cat s input).state inputs).1,
          (run cat (react cat s input).state inputs).2) := by
  rw [run, if_pos h]

/-- The prompt that is also given inputs that only look keeps up with the other
one, unless an error escapes while it looks. -/
theorem keptEffects_run (hagrees : Agrees s t) (hs : s.session.flushed = s.session)
    (hquiet : ∀ u, Reachable cat s u → QuietReads cat u.session) (inputs : List Input) :
    keptEffects inputs (run cat s inputs).1 <+:
        (run cat t (inputs.filter fun input => !input.isView)).1.map effectOf ∧
      ((∀ step ∈ inputs.zip (run cat s inputs).1, step.1.isView = true →
          step.2.2.escaped = none) →
        keptEffects inputs (run cat s inputs).1 =
          (run cat t (inputs.filter fun input => !input.isView)).1.map effectOf) := by
  induction inputs generalizing s t with
  | nil => exact ⟨List.prefix_refl _, fun _ => rfl⟩
  | cons input inputs ih =>
      cases hrunning : s.running with
      | false =>
          rw [run_of_stopped hrunning, run_of_stopped (hagrees.running ▸ hrunning)]
          exact ⟨List.prefix_refl _, fun _ => rfl⟩
      | true =>
          have hreach u (hu : Reachable cat (react cat s input).state u) :
              QuietReads cat u.session :=
            hquiet u ((Reachable.start.react input).trans hu)
          rw [run_cons hrunning]
          cases hview : input.isView with
          | true =>
              have hstill := react_of_isView (hquiet s .start) hs hview
              have hagrees' : Agrees (react cat s input).state t :=
                ⟨hstill.session.trans hagrees.session, hstill.running.trans hagrees.running⟩
              obtain ⟨hkept, hsame⟩ := ih hagrees' (by rw [hstill.session, hs]) hreach
              split
              · next hescaped =>
                  refine ⟨by simp [keptEffects, hview], fun hviews => ?_⟩
                  have hnone := hviews (input, s.prompt, react cat s input) (by simp) hview
                  rw [hnone] at hescaped
                  exact absurd hescaped (by simp)
              · refine ⟨by simpa [keptEffects, hview] using hkept, fun hviews => ?_⟩
                have hrest := hsame fun step hstep => hviews step (List.mem_cons_of_mem _ hstep)
                simpa [keptEffects, hview] using hrest
          | false =>
              have hreact : SameEffect (react cat s input) (react cat t input) ∧ _ :=
                react_of_not_isView hagrees hs hview
              obtain ⟨heffect, hflushed⟩ := hreact
              have heffects : effectOf (s.prompt, react cat s input) =
                  effectOf (t.prompt, react cat t input) := by
                simp [effectOf, hagrees.prompt, heffect.out, heffect.state.session]
              obtain ⟨hkept, hsame⟩ := ih heffect.state hflushed hreach
              rw [List.filter_cons_of_pos (by simp [hview]),
                run_cons (hagrees.running ▸ hrunning), ← heffect.escaped]
              split
              · exact ⟨by simp [keptEffects, hview, heffects],
                  fun _ => by simp [keptEffects, hview, heffects]⟩
              · refine ⟨by simpa [keptEffects, hview, heffects] using hkept, fun hviews => ?_⟩
                have hrest := hsame fun step hstep => hviews step (List.mem_cons_of_mem _ hstep)
                simpa [keptEffects, hview, heffects] using hrest

/-! ### The end of a run -/

theorem length_run (cat : Catalog) (s : State) (inputs : List Input) :
    (run cat s inputs).1.length + (run cat s inputs).2 = inputs.length := by
  induction inputs generalizing s with
  | nil => rfl
  | cons input inputs ih =>
      cases hrunning : s.running with
      | false => simp [run, hrunning]
      | true =>
          have hrest := ih (react cat s input).state
          rw [run_cons hrunning]
          split
          · simp [Nat.add_comm]
          · simp only [List.length_cons]
            omega

/-- The inputs that are reacted to if nothing escapes: those up to the first one
that ends the prompt. -/
def untilLeft : List Input → List Input
  | [] => []
  | input :: inputs => if input.leaves then [input] else input :: untilLeft inputs

theorem length_run_le (cat : Catalog) (s : State) (inputs : List Input) :
    (run cat s inputs).1.length ≤ (untilLeft inputs).length := by
  induction inputs generalizing s with
  | nil => exact Nat.le_refl 0
  | cons input inputs ih =>
      cases hrunning : s.running with
      | false => simp [run_of_stopped hrunning]
      | true =>
          have hnext := running_react cat s input
          have hrest := ih (react cat s input).state
          rw [run_cons hrunning, untilLeft]
          cases hleaves : input.leaves with
          | true =>
              rw [hrunning, hleaves] at hnext
              split <;> simp [run_of_stopped hnext]
          | false =>
              split <;> simp [hrest]

theorem length_run_of_not_escaped (hrunning : s.running = true) {inputs : List Input}
    (hescape : ∀ step ∈ (run cat s inputs).1, step.2.escaped = none) :
    (run cat s inputs).1.length = (untilLeft inputs).length := by
  induction inputs generalizing s with
  | nil => rfl
  | cons input inputs ih =>
      have hnext := running_react cat s input
      rw [run_cons hrunning] at hescape ⊢
      have hnone : (react cat s input).escaped = none := by
        split at hescape <;> exact hescape _ (List.mem_cons_self ..)
      simp only [hnone, Option.isSome_none, Bool.false_eq_true, if_false, List.length_cons,
        untilLeft] at hescape ⊢
      cases hleaves : input.leaves with
      | true =>
          rw [hrunning, hleaves] at hnext
          simp [run_of_stopped hnext]
      | false =>
          rw [hrunning, hleaves] at hnext
          simp [ih hnext fun step hstep => hescape step (List.mem_cons_of_mem _ hstep)]

/-- If reading properties has no effect wherever a prompt comes to, then inputs
that only look can be left out, as long as they let no error escape: all other
inputs are met with the same prompt, print the same on the standard output, and
leave the same stack over the same objects. If an error escapes while the prompt
looks, this holds of the inputs before. The prompt reacts to inputs up to the
first one that ends it, and stops before that only if an error escapes. -/
theorem views_are_transparent {base : Value} {w : World} (hprinted : w.printed = "")
    (showAll trace : Bool)
    (hquiet : ∀ s, Reachable cat { session := .start base w, showAll, trace } s →
      QuietReads cat s.session)
    (inputs : List Input) :
    let begin : State := { session := .start base w, showAll, trace }
    let steps := (run cat begin inputs).1
    let others := (run cat begin (inputs.filter fun input => !input.isView)).1.map effectOf
    keptEffects inputs steps <+: others ∧
      ((∀ step ∈ inputs.zip steps, step.1.isView = true → step.2.2.escaped = none) →
        keptEffects inputs steps = others) ∧
      steps.length + (run cat begin inputs).2 = inputs.length ∧
      steps.length ≤ (untilLeft inputs).length ∧
      ((∀ step ∈ steps, step.2.escaped = none) → steps.length = (untilLeft inputs).length) := by
  intro begin steps others
  obtain ⟨hkept, hsame⟩ : keptEffects inputs steps <+: others ∧ _ :=
    keptEffects_run ⟨rfl, rfl⟩ (Session.flushed_start hprinted) hquiet inputs
  exact ⟨hkept, hsame, length_run cat begin inputs, length_run_le cat begin inputs,
    length_run_of_not_escaped rfl⟩

def lookingInputs : List Input :=
  [.typed "/members".toList, .typed "->Pet".toList, .complete "Na".toList, .typed [],
    .typed "/py-traceback on".toList, .interrupt, .typed "Speak()".toList,
    .typed "/show-all".toList, .typed "exit".toList, .typed "Name".toList]

theorem lookingInputs_are_transparent :
    ∃ bart w, Sample.demoPerson Sample.initialWorld = .ok bart w ∧ w.printed = "" ∧
      (∀ s, Reachable Sample.catalog { session := .start bart w, showAll := false, trace := false }
        s → QuietReads Sample.catalog s.session) ∧
      keptEffects lookingInputs (run Sample.catalog
          { session := .start bart w, showAll := false, trace := false } lookingInputs).1 =
        (run Sample.catalog { session := .start bart w, showAll := false, trace := false }
          (lookingInputs.filter fun input => !input.isView)).1.map effectOf := by
  obtain ⟨bart, w, hbart, hreached⟩ := Sample.reached_demoPerson
  have hprinted : (resultWorld (Sample.demoPerson Sample.initialWorld)).printed = "" := by
    decide +kernel
  have hescaped : ((run Sample.catalog
      { session := .start ((resultValue? (Sample.demoPerson Sample.initialWorld)).getD .null)
          (resultWorld (Sample.demoPerson Sample.initialWorld))
        showAll := false
        trace := false } lookingInputs).1.all fun step => step.2.escaped.isNone) = true := by
    decide +kernel
  rw [hbart] at hprinted hescaped
  have hquiet (s : State) (hs : Reachable Sample.catalog
      { session := .start bart w, showAll := false, trace := false } s) :
      QuietReads Sample.catalog s.session :=
    (Sample.reached_of_reachable (hreached []) (Session.flushed_start hprinted) hs).1.quietReads
  refine ⟨bart, w, hbart, hprinted, hquiet,
    (views_are_transparent hprinted false false hquiet lookingInputs).2.1 fun step hstep _ => ?_⟩
  exact Option.isNone_iff_eq_none.1
    (List.all_eq_true.1 hescaped step.2 (List.of_mem_zip hstep).2)

/-- A list that holds itself, as the entry of a table, and the table. -/
def knottedWorld : World :=
  { cells := #[.list [.object 0], .table false [(.text "a", .object 0)]], printed := "" }

def knottedTable : Value := .object 1

/-- A class whose only property computes its value once and has no side effects. -/
def memoName : ClassName := ⟨"", "Memo"⟩

def memoCatalog : Catalog :=
  .ofList (.ofList Sample.catalog.limits [{ name := memoName, ancestors := [memoName] }])
    [(memoName, [{
      name := memoName
      members := [("total", .accessor {
        type := .int, cached := true, get := some fun _ => return .int 42 })] }])]

def memoWorld : World := { cells := #[.record memoName []], printed := "" }

def membersThenNumber : List Input := [.typed "/members".toList, .typed "1".toList]

def membersThenAssignment : List Input :=
  [.typed "/members".toList, .typed "total=\"x\"".toList]

/-- A listing is not transparent if a value in it cannot be printed, for then the
prompt is left; nor if it is what makes a property keep its value, for a kept
value has lost its declared type. -/
theorem members_not_transparent :
    keptEffects membersThenNumber (run Sample.catalog
        { session := .start knottedTable knottedWorld, showAll := false, trace := false }
        membersThenNumber).1 ≠
      (run Sample.catalog
        { session := .start knottedTable knottedWorld, showAll := false, trace := false }
        (membersThenNumber.filter fun input => !input.isView)).1.map effectOf ∧
    (keptEffects membersThenAssignment (run memoCatalog
        { session := .start (.object 0) memoWorld, showAll := false, trace := false }
        membersThenAssignment).1).map Effect.out = ["x\n"] ∧
    ((run memoCatalog
        { session := .start (.object 0) memoWorld, showAll := false, trace := false }
        (membersThenAssignment.filter fun input => !input.isView)).1.map effectOf).map
        Effect.out = [""] := by
  refine ⟨fun h => ?_, by decide +kernel, by decide +kernel⟩
  have hlength := congrArg List.length h
  revert hlength
  decide +kernel

end Prompt

end ObjectConsole
