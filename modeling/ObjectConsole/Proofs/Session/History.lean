import ObjectConsole.Proofs.Evaluation.Line
import ObjectConsole.Session

/-!
The history of a session: what lines and resets, in any order, leave on its
stack and among its diagnostics. One inversion lemma says everything that a
single line can do. The law of one line is read off it, and the shape of the
stack after a whole run follows by induction on the actions.
-/

namespace ObjectConsole

open Catalog (navigationMarker)

theorem not_marker_prefix_returnCommand : ¬ navigationMarker <+: returnCommand := by decide

namespace Session

variable {cat : Catalog}

/-! ### Reports -/

theorem value?_report (s : Session) (o : Outcome) : (s.report o).1.value? = o.value? := by
  cases o with
  | failed e =>
      rw [report]
      dsimp only [Outcome.error?]
      split <;> rfl
  | _ => rfl

theorem navigates_report (s : Session) (o : Outcome) :
    (s.report o).1.navigates = o.navigates := by
  cases o with
  | failed e =>
      rw [report]
      dsimp only [Outcome.error?]
      split <;> rfl
  | _ => rfl

/-- An error has one diagnostic, and nothing else has any. -/
theorem isSome_diagnostic?_report (s : Session) (o : Outcome) :
    (s.report o).1.diagnostic?.isSome = (s.report o).1.error?.isSome := by
  cases o with
  | failed e =>
      rw [report]
      dsimp only [Outcome.error?]
      split
      · next text htext => simp [Outcome.diagnostic?, Outcome.error?, htext, Except.toOption]
      · rfl
  | _ => rfl

/-- The session after a line that leaves the stack as it is. -/
def settle (s : Session) (w : World) (outcome : Outcome) : Session :=
  { s with
    world := w
    emitted := s.emitted ++ outcome.diagnostic?.toList }

theorem report_eq_settle (s : Session) (w : World) (o : Outcome) :
    { s with world := w }.report o =
      (({ s with world := w }.report o).1, s.settle w ({ s with world := w }.report o).1) := by
  cases o with
  | failed e =>
      rw [report]
      dsimp only [Outcome.error?]
      split
      · next text htext =>
          simp [settle, emit, Outcome.diagnostic?, Outcome.error?, htext, Except.toOption]
      · simp [settle, Outcome.diagnostic?, Outcome.error?]
  | _ => simp [report, settle, Outcome.diagnostic?, Outcome.error?]

/-! ### One line -/

/-- A line that does not navigate leaves the stack as it is. -/
theorem runLine_of_stays {s : Session} {line : List Char} {o : Outcome} {w : World}
    (hreturn : Text.trim line ≠ returnCommand)
    (heval : cat.evaluate (Text.trim line) s.stack.current s.world = (o, w))
    (hstays : o.navigates = false) :
    s.runLine cat line = { s with world := w }.report o := by
  have hevaluate : s.evaluate cat (Text.trim line) = (o, { s with world := w }) := by
    rw [evaluate, heval]
    split
    · next hv =>
        rw [(Prod.mk.inj hv).1] at hstays
        exact nomatch hstays
    · next ho =>
        obtain ⟨rfl, rfl⟩ := Prod.mk.inj ho
        rfl
  rw [runLine, if_neg hreturn, hevaluate]

/-- Everything that a line can do: return at the base, return from a context,
navigate, or leave the stack as it is. -/
theorem runLine_cases (cat : Catalog) (s : Session) (text : List Char) :
    (Text.trim text = returnCommand ∧ s.stack.pushed = [] ∧
      s.runLine cat text = (.failed .atBase, s.settle s.world (.failed .atBase))) ∨
    (∃ v rest, Text.trim text = returnCommand ∧ s.stack.pushed = v :: rest ∧
      s.runLine cat text =
        (.value (ContextStack.mk s.stack.base rest).current false,
          { s with stack := ⟨s.stack.base, rest⟩ })) ∨
    (∃ v w, Text.trim text ≠ returnCommand ∧ navigationMarker <+: Text.trim text ∧
      s.runLine cat text = (.value v true, { s with stack := s.stack.push v, world := w })) ∨
    (∃ outcome w, Text.trim text ≠ returnCommand ∧
      ¬ (navigationMarker <+: Text.trim text ∧ outcome.value?.isSome) ∧
      outcome.navigates = false ∧ outcome.diagnostic?.isSome = outcome.error?.isSome ∧
      s.runLine cat text = (outcome, s.settle w outcome)) := by
  by_cases hreturn : Text.trim text = returnCommand
  · cases hpushed : s.stack.pushed with
    | nil =>
        refine .inl ⟨hreturn, rfl, ?_⟩
        rw [runLine, if_pos hreturn, goBack, ContextStack.pop?, hpushed]
        rfl
    | cons v rest =>
        refine .inr (.inl ⟨v, rest, hreturn, rfl, ?_⟩)
        simp [runLine, hreturn, goBack, ContextStack.pop?, hpushed]
  · have hnav := cat.evaluate_navigates (Text.trim text) s.stack.current s.world
    rw [isNavigation_trim] at hnav
    cases heval : cat.evaluate (Text.trim text) s.stack.current s.world with
    | mk outcome w =>
        rw [heval] at hnav
        by_cases hpush : ∃ v, outcome = .value v true
        · obtain ⟨v, rfl⟩ := hpush
          have hmark : navigationMarker <+: Text.trim text := by
            refine isNavigation_iff.1 ?_
            simpa [Outcome.navigates, Outcome.value?] using hnav.symm
          refine .inr (.inr (.inl ⟨(w.adopt v).1, (w.adopt v).2, hreturn, hmark, ?_⟩))
          rw [runLine, if_neg hreturn, evaluate, heval]
          rfl
        · have hnavigates : outcome.navigates = false := by
            cases outcome with
            | value v navigates =>
                cases navigates with
                | true => exact absurd ⟨v, rfl⟩ hpush
                | false => rfl
            | _ => rfl
          have hmark : ¬ (navigationMarker <+: Text.trim text ∧ outcome.value?.isSome) := by
            rintro ⟨hmark, hvalue⟩
            rw [hnavigates, isNavigation_iff.2 hmark, hvalue] at hnav
            exact absurd hnav (by simp)
          refine .inr (.inr (.inr ⟨({ s with world := w }.report outcome).1, w, hreturn, ?_, ?_,
            isSome_diagnostic?_report _ _, ?_⟩))
          · rwa [value?_report]
          · rwa [navigates_report]
          · rw [runLine_of_stays hreturn heval hnavigates]
            exact s.report_eq_settle w outcome

/-- The law of one line: how the session `t` after it differs from the
session `s` before it, given the text of the line and its outcome. -/
structure LineLaw (s : Session) (text : List Char) (outcome : Outcome) (t : Session) :
    Prop where
  /-- A line that starts with the marker and has a value appends the value. -/
  pushes : ∀ v, navigationMarker <+: Text.trim text → outcome.value? = some v →
    t.stack.items = s.stack.items ++ [v]
  /-- A return removes the last value and makes the one before it current. -/
  returns : Text.trim text = returnCommand → 1 < s.stack.items.length →
    t.stack.items = s.stack.items.dropLast ∧ outcome = .value t.stack.current false
  /-- Every other line leaves the stack as it was. -/
  keeps : ¬ (navigationMarker <+: Text.trim text ∧ outcome.value?.isSome) →
    ¬ (Text.trim text = returnCommand ∧ 1 < s.stack.items.length) → t.stack = s.stack
  navigates : outcome.navigates = true ↔
    navigationMarker <+: Text.trim text ∧ outcome.value?.isSome
  /-- An error has one diagnostic, and nothing else has any. -/
  reports : outcome.diagnostic?.isSome = outcome.error?.isSome
  emits : t.emitted = s.emitted ++ outcome.diagnostic?.toList
  refuses : outcome.error?.isSome → outcome.value? = none ∧ outcome.navigates = false

theorem runLine_law (cat : Catalog) (s : Session) (text : List Char) :
    LineLaw s text (s.runLine cat text).1 (s.runLine cat text).2 := by
  have hnot (h : Text.trim text = returnCommand) : ¬ navigationMarker <+: Text.trim text := by
    rw [h]
    exact not_marker_prefix_returnCommand
  rcases runLine_cases cat s text with ⟨hreturn, hpushed, hrun⟩ |
    ⟨v, rest, hreturn, hpushed, hrun⟩ | ⟨v, w, hreturn, hmark, hrun⟩ |
    ⟨outcome, w, hreturn, hmark, hnav, hreports, hrun⟩ <;> rw [hrun]
  · have hsize : s.stack.items.length = 1 := by simp [ContextStack.items, hpushed]
    exact
      { pushes := fun v h => absurd h (hnot hreturn)
        returns := fun _ h => by omega
        keeps := fun _ _ => rfl
        navigates := by simp [Outcome.navigates, Outcome.value?]
        reports := rfl
        emits := rfl
        refuses := fun _ => ⟨rfl, rfl⟩ }
  · have hitems : s.stack.items =
        (ContextStack.mk s.stack.base rest).items ++ [v] := by
      simp [ContextStack.items, hpushed]
    exact
      { pushes := fun v h => absurd h (hnot hreturn)
        returns := fun _ _ => ⟨by simp [hitems], rfl⟩
        keeps := fun _ h => absurd ⟨hreturn, by simp [ContextStack.items, hpushed]⟩ h
        navigates := by simp [Outcome.navigates, hnot hreturn]
        reports := rfl
        emits := by simp [Outcome.diagnostic?, Outcome.error?]
        refuses := by simp [Outcome.error?] }
  · exact
      { pushes := fun u _ h => by
          simp only [Outcome.value?, Option.some.injEq] at h
          simp [h]
        returns := fun h => absurd h hreturn
        keeps := fun h => absurd ⟨hmark, rfl⟩ h
        navigates := by simp [Outcome.navigates, Outcome.value?, hmark]
        reports := rfl
        emits := by simp [Outcome.diagnostic?, Outcome.error?]
        refuses := by simp [Outcome.error?] }
  · exact
      { pushes := fun v h hv => absurd ⟨h, by simp [hv]⟩ hmark
        returns := fun h => absurd h hreturn
        keeps := fun _ _ => rfl
        navigates := by simp [hnav, hmark]
        reports := hreports
        emits := rfl
        refuses := fun h => by
          cases outcome <;> simp [Outcome.error?] at h
          exact ⟨rfl, rfl⟩ }

/-! ### Runs -/

inductive Action where
  | line (text : List Char)
  | reset

inductive Step where
  | line (before : Session) (text : List Char) (outcome : Outcome) (after : Session)
  | reset (before after : Session)

def Step.before : Step → Session
  | .line before _ _ _ => before
  | .reset before _ => before

def Step.after : Step → Session
  | .line _ _ _ after => after
  | .reset _ after => after

def act (cat : Catalog) (s : Session) : Action → Step
  | .line text => .line s text (s.runLine cat text).1 (s.runLine cat text).2
  | .reset => .reset s s.reset

/-- Carries out actions in turn. -/
def trace (cat : Catalog) (s : Session) : List Action → List Step
  | [] => []
  | a :: as => s.act cat a :: trace cat (s.act cat a).after as

def finish (s : Session) (steps : List Step) : Session :=
  (steps.getLast?.map Step.after).getD s

/-- What one action may do: a line obeys its law, and a reset leaves the base
alone on the stack. In either case the base stays the first value. -/
def Step.Lawful (base : Value) (step : Step) : Prop :=
  step.before.stack.items.head? = some base ∧ step.after.stack.items.head? = some base ∧
    match step with
    | .line before text outcome after => LineLaw before text outcome after
    | .reset before after => after.stack.items = [base] ∧ after.emitted = before.emitted

/-- The values pushed and not yet returned, after a step that found `pushed`.
Only the texts of the lines and their outcomes count. -/
def Step.unreturned (pushed : List Value) : Step → List Value
  | .line _ text outcome _ =>
      if Text.trim text = returnCommand then pushed.dropLast
      else if outcome.navigates then pushed ++ outcome.value?.toList
      else pushed
  | .reset _ _ => []

def Step.diagnostics : Step → List String
  | .line _ _ outcome _ => outcome.diagnostic?.toList
  | .reset _ _ => []

theorem LineLaw.items {s t : Session} {text : List Char} {outcome : Outcome}
    (law : LineLaw s text outcome t) {base : Value} {pushed : List Value}
    (hs : s.stack.items = base :: pushed) :
    t.stack.items = base :: Step.unreturned pushed (.line s text outcome t) := by
  by_cases hreturn : Text.trim text = returnCommand
  · have hmark : ¬ navigationMarker <+: Text.trim text := by
      rw [hreturn]
      exact not_marker_prefix_returnCommand
    rw [Step.unreturned, if_pos hreturn]
    cases pushed with
    | nil =>
        rw [law.keeps (fun h => hmark h.1) (fun h => by simp [hs] at h), hs]
        rfl
    | cons v rest => rw [(law.returns hreturn (by simp [hs])).1, hs, List.dropLast_cons_cons]
  · rw [Step.unreturned, if_neg hreturn]
    by_cases hnav : outcome.navigates = true
    · rw [if_pos hnav]
      obtain ⟨hmark, hvalue⟩ := law.navigates.1 hnav
      obtain ⟨v, hv⟩ := Option.isSome_iff_exists.1 hvalue
      rw [law.pushes v hmark hv, hs, hv]
      rfl
    · rw [if_neg hnav, law.keeps (fun h => hnav (law.navigates.2 h)) (fun h => hreturn h.1), hs]

theorem act_items (cat : Catalog) {s : Session} {base : Value} {pushed : List Value}
    (hs : s.stack.items = base :: pushed) (a : Action) :
    (s.act cat a).after.stack.items = base :: (s.act cat a).unreturned pushed := by
  cases a with
  | line text => exact (runLine_law cat s text).items hs
  | reset =>
      have hbase : s.stack.base = base := by
        simp only [ContextStack.items, List.cons.injEq] at hs
        exact hs.1
      simp [act, Step.after, Step.unreturned, Session.reset, hbase]

theorem act_lawful (cat : Catalog) {s : Session} {base : Value} {pushed : List Value}
    (hs : s.stack.items = base :: pushed) (a : Action) : (s.act cat a).Lawful base := by
  have hafter := act_items cat hs a
  cases a with
  | line text =>
      exact ⟨by simp [act, Step.before, hs], by simp [hafter], runLine_law cat s text⟩
  | reset =>
      exact ⟨by simp [act, Step.before, hs], by simp [hafter], hafter, rfl⟩

theorem act_emitted (cat : Catalog) (s : Session) (a : Action) :
    (s.act cat a).after.emitted = s.emitted ++ (s.act cat a).diagnostics := by
  cases a with
  | line text => exact (runLine_law cat s text).emits
  | reset => simp [act, Step.after, Step.diagnostics, Session.reset]

theorem finish_cons (s : Session) (step : Step) (steps : List Step) :
    s.finish (step :: steps) = step.after.finish steps := by
  cases steps with
  | nil => rfl
  | cons step' steps =>
      rw [finish, finish, List.getLast?_cons_cons]
      cases h : (step' :: steps).getLast? with
      | none => simp at h
      | some last => rfl

/-- A run from any session whose first value is the base. -/
theorem trace_from (cat : Catalog) (actions : List Action) {s : Session} {base : Value}
    {pushed : List Value} (hs : s.stack.items = base :: pushed) :
    (∀ step ∈ s.trace cat actions, step.Lawful base) ∧
      (s.finish (s.trace cat actions)).stack.items =
        base :: (s.trace cat actions).foldl Step.unreturned pushed ∧
      (s.finish (s.trace cat actions)).emitted =
        s.emitted ++ (s.trace cat actions).flatMap Step.diagnostics := by
  -- the invariant is the shape of the stack: the base and what was pushed on it
  induction actions generalizing s pushed with
  | nil => exact ⟨by simp [trace], by simpa [trace, finish] using hs, by simp [trace, finish]⟩
  | cons a actions ih =>
      obtain ⟨hlawful, hitems, hemitted⟩ := ih (act_items cat hs a)
      rw [trace, finish_cons]
      refine ⟨?_, hitems, ?_⟩
      · rintro step (_ | ⟨_, h⟩)
        · exact act_lawful cat hs a
        · exact hlawful step h
      · rw [hemitted, act_emitted, List.append_assoc, List.flatMap_cons]

/-- Whatever is done to a session, every line obeys its law, every reset goes
back to the base, and the stack ends as the base followed by the values that
were pushed and not yet returned. The diagnostics are those of the lines that
failed, one for each, in their order. -/
theorem trace_start_lawful (cat : Catalog) (base : Value) (w : World) (actions : List Action) :
    let steps := (start base w).trace cat actions
    let last := (start base w).finish steps
    (∀ step ∈ steps, step.Lawful base) ∧
      last.stack.items = base :: steps.foldl Step.unreturned [] ∧
      last.emitted = steps.flatMap Step.diagnostics := by
  have hstack : (start base w).stack.items = base :: [] := rfl
  have h := trace_from cat actions hstack
  rw [show (start base w).emitted = [] from rfl, List.nil_append] at h
  exact h

end Session

end ObjectConsole
