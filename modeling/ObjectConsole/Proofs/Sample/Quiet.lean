import ObjectConsole.Proofs.Prompt.Quiet
import ObjectConsole.Proofs.Sample.Reached

/-!
Looking at the demonstration and at structured data changes nothing, at the
start as little as after any inputs: the getters of all classes there only read.
-/

namespace ObjectConsole.Sample

open Prompt (QuietReads Reachable State Input follow react)

variable [Host] {w : World} {v : Value} {s : Session} {t u : State}

theorem follow_typed (hw : WellTyped w) (hv : Fits w v) (names : List (List Char)) :
    resultWorld (follow catalog v names w) = w := by
  induction names generalizing v with
  | nil => rfl
  | cons name names ih =>
      have hworld := readProperty_typed hw hv (String.ofList name)
      have hholds : typing.holds ⟨v, w⟩ w := ⟨hw, hv⟩
      have hread : typing.Keeps _ _ _ (catalog.readProperty v (String.ofList name)) w :=
        typing_access.read hholds
      rw [Discipline.Keeps] at hread
      rw [follow, Eval.bind_apply]
      cases hrun : catalog.readProperty v (String.ofList name) w with
      | ok value w' =>
          rw [hrun] at hworld hread
          obtain rfl : w' = w := hworld
          exact ih hread.2
      | error e w' =>
          rw [hrun] at hworld
          exact hworld

theorem Reached.quietReads (h : Reached s) : QuietReads catalog s :=
  follow_typed h.sound.wellTyped h.sound.current.1

theorem Reached.flushed (h : Reached s) : Reached s.flushed := h.takePrinted.takeEmitted

/-- What is reached at a prompt goes on to be reached, whatever the input is. -/
theorem reached_react (h : Reached t.session) (ht : t.session.flushed = t.session)
    (input : Input) :
    Reached (react catalog t input).state.session ∧
      (react catalog t input).state.session.flushed = (react catalog t input).state.session := by
  cases hview : input.isView with
  | true =>
      have hstill := Prompt.react_of_isView h.quietReads ht hview
      rw [hstill.session]
      exact ⟨h, ht⟩
  | false =>
      refine ⟨?_, (Prompt.react_of_not_isView (t := t) ⟨rfl, rfl⟩ ht hview).2⟩
      cases input with
      | typed text =>
          rw [react, Prompt.handle_eq]
          rw [Input.isView] at hview
          cases hkind : Prompt.kindOf text with
          | blank => simp [hkind] at hview
          | unknown word => simp [hkind] at hview
          | leave => exact h
          | command c argument =>
              obtain rfl : c = .reset := by simpa [hkind] using hview
              exact h.reset
          | expression text =>
              rw [Prompt.state_runExpression]
              exact (h.line text).flushed
      | endOfInput => exact h
      | _ => exact absurd hview (by simp [Input.isView])

theorem reached_of_reachable (h : Reached t.session) (ht : t.session.flushed = t.session)
    (hu : Reachable catalog t u) :
    Reached u.session ∧ u.session.flushed = u.session := by
  induction hu with
  | start => exact ⟨h, ht⟩
  | react _ input ih => exact reached_react ih.1 ih.2 input

/-! ### The demonstration -/

def demoSession : Session :=
  match demoPerson initialWorld with
  | .ok bart w => .start (w.adopt bart).1 (w.adopt bart).2
  | .error _ w => .start .null w

omit [Host] in
theorem flushed_demoSession : demoSession.flushed = demoSession := by
  have hprinted : demoSession.world.printed = "" := by decide +kernel
  have hemitted : demoSession.emitted = [] := by decide +kernel
  rw [Session.flushed, ← hprinted, ← hemitted]

end ObjectConsole.Sample
