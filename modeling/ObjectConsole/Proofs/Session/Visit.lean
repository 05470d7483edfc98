import ObjectConsole.Proofs.Evaluation.Discipline
import ObjectConsole.Proofs.Session.History

/-!
Disciplines over the lines of a session. The lines that are run between a
navigation into a value and the return from it are all work on a visit to that
value: each is evaluated against the value, or against one that was found on
the visit and navigated into. So what a discipline says of one evaluation, it
says of all these lines together; for the base, of every line there is.
-/

namespace ObjectConsole

namespace Session

variable (cat : Catalog) (s : Session)

/-- The values on the stack, the current one first. -/
def frames : List Value := s.stack.pushed ++ [s.stack.base]

theorem head_frames : s.frames.head? = some s.stack.current := by
  rw [frames, ContextStack.current]
  cases s.stack.pushed <;> rfl

def runLines (s : Session) : List (List Char) → Session
  | [] => s
  | line :: lines => runLines (s.runLine cat line).2 lines

/-- What a line does to the world and the stack: nothing or a return, or what
evaluating it against the current value does, and one more value on the stack
if the line navigates. -/
theorem runLine_effect (line : List Char) :
    ((s.runLine cat line).2.world = s.world ∧
      ((s.runLine cat line).2.frames = s.frames ∨
        ∃ v, s.frames = v :: (s.runLine cat line).2.frames)) ∨
    (∃ outcome w, cat.evaluate (Text.trim line) s.stack.current s.world = (outcome, w) ∧
      (((s.runLine cat line).2.frames = s.frames ∧ (s.runLine cat line).2.world = w) ∨
        ∃ v, outcome = .value v true ∧
          (s.runLine cat line).2.frames = (w.adopt v).1 :: s.frames ∧
          (s.runLine cat line).2.world = (w.adopt v).2)) := by
  by_cases hreturn : Text.trim line = returnCommand
  · refine .inl ?_
    cases hpushed : s.stack.pushed with
    | nil => simp [runLine, hreturn, goBack, ContextStack.pop?, hpushed, frames]
    | cons v rest =>
        simp [runLine, hreturn, goBack, ContextStack.pop?, hpushed, frames]
  · refine .inr ?_
    cases heval : cat.evaluate (Text.trim line) s.stack.current s.world with
    | mk outcome w =>
        refine ⟨outcome, w, rfl, ?_⟩
        cases outcome with
        | value v navigates =>
            cases navigates with
            | true =>
                refine .inr ⟨v, rfl, ?_⟩
                simp [runLine, hreturn, evaluate, heval, frames, ContextStack.push]
            | false => simp [runLine, hreturn, evaluate, heval, frames]
        | _ => simp [runLine, hreturn, evaluate, heval, frames]

/-- A line that navigates has pushed the value of its expression. -/
theorem pushed_of_navigated {line : List Char} {v : Value} {t : Session}
    (h : s.runLine cat line = (.value v true, t)) :
    ∃ u w, cat.evaluate (Text.trim line) s.stack.current s.world = (.value u true, w) ∧
      t = { s with stack := s.stack.push (w.adopt u).1, world := (w.adopt u).2 } := by
  by_cases hreturn : Text.trim line = returnCommand
  · rw [runLine, if_pos hreturn, goBack] at h
    split at h
    · have hvalue := s.value?_report (.failed .atBase)
      rw [h] at hvalue
      exact absurd hvalue (by simp [Outcome.value?])
    · exact absurd h (by simp)
  · rw [runLine, if_neg hreturn, evaluate] at h
    cases heval : cat.evaluate (Text.trim line) s.stack.current s.world with
    | mk outcome w =>
        rw [heval] at h
        cases outcome with
        | value u navigates =>
            cases navigates with
            | true => exact ⟨u, w, rfl, (Prod.mk.inj h).2.symm⟩
            | false => exact absurd h (by simp)
        | _ =>
            have hvalue := congrArg (·.1.value?) h
            simp only [value?_report] at hvalue
            exact absurd hvalue (by simp [Outcome.value?])

end Session

namespace Discipline

variable (D : Discipline) {cat : Catalog} {f : Visit} {below : List Value} {s : Session}

/-- The session is on the visit: its world may come up there, and above the
values that were on the stack before there are only the context of the visit
and values that it knows. -/
structure Governs (f : Visit) (below : List Value) (s : Session) : Prop where
  holds : D.holds f s.world
  frames : ∃ active, active ≠ [] ∧ s.frames = active ++ below ∧
    ∀ v ∈ active, v = f.context ∨ D.knows f s.world v

variable {D}

theorem Governs.current (h : D.Governs f below s) :
    s.stack.current = f.context ∨ D.knows f s.world s.stack.current := by
  obtain ⟨active, hne, hframes, hactive⟩ := h.frames
  obtain ⟨v, rest, rfl⟩ := List.exists_cons_of_ne_nil hne
  have hhead := s.head_frames
  rw [hframes] at hhead
  obtain rfl : v = s.stack.current := Option.some.inj hhead
  exact hactive _ (List.mem_cons_self ..)

/-- A line that does not return from the visit goes on with it. -/
theorem Lawful.governs_runLine (hD : D.Lawful cat) (hA : D.Access cat fun _ => True)
    (h : D.Governs f below s) {line : List Char}
    (hopen : below.length < (s.runLine cat line).2.frames.length) :
    D.Leads f s.world (s.runLine cat line).2.world ∧
      D.Governs f below (s.runLine cat line).2 := by
  obtain ⟨active, hne, hframes, hactive⟩ := h.frames
  rcases s.runLine_effect cat line with ⟨hworld, hstack⟩ | ⟨outcome, w, heval, hstack⟩
  · have hleads : D.Leads f s.world (s.runLine cat line).2.world := by
      rw [hworld]
      exact .refl h.holds
    refine ⟨hleads, hleads.holds, ?_⟩
    rcases hstack with hsame | ⟨v, hpop⟩
    · exact ⟨active, hne, hsame.trans hframes, fun u hu =>
        (hactive u hu).imp_right (hleads.keeps u)⟩
    · obtain ⟨u, rest, rfl⟩ := List.exists_cons_of_ne_nil hne
      have htail : (s.runLine cat line).2.frames = rest ++ below :=
        (List.cons.inj (hpop.symm.trans hframes)).2
      refine ⟨rest, ?_, htail, fun x hx => ?_⟩
      · rintro rfl
        rw [htail] at hopen
        exact absurd hopen (by simp)
      · exact (hactive x (List.mem_cons_of_mem _ hx)).imp_right (hleads.keeps x)
  · have hvisit := hD.enter h.holds h.current
    obtain ⟨hstep, houtcome⟩ := hD.evaluate hA (allows_all (Text.trim line)) hvisit
    rw [heval] at hstep houtcome
    obtain ⟨hleads, hknows⟩ := hD.leave h.holds h.current hstep
    rcases hstack with ⟨hsame, hworld⟩ | ⟨v, rfl, hpush, hworld⟩
    · rw [hworld]
      refine ⟨hleads, by rw [hworld]; exact hleads.holds, active, hne, hsame.trans hframes, ?_⟩
      intro u hu
      rw [hworld]
      exact (hactive u hu).imp_right (hleads.keeps u)
    · obtain ⟨hadopt, hadopted⟩ := hD.adopt hleads.holds (hknows v houtcome)
      have hall := hleads.trans hadopt
      rw [hworld]
      refine ⟨hall, by rw [hworld]; exact hall.holds, (w.adopt v).1 :: active, by simp,
        by rw [hpush, hframes]; rfl, ?_⟩
      intro u hu
      rw [hworld]
      rcases List.mem_cons.1 hu with rfl | hu
      · exact .inr hadopted
      · exact (hactive u hu).imp_right (hall.keeps u)

/-- Lines that do not return from the visit go on with it. -/
theorem Lawful.governs_runLines (hD : D.Lawful cat) (hA : D.Access cat fun _ => True)
    (h : D.Governs f below s) (lines : List (List Char))
    (hopen : ∀ run, run <+: lines → below.length < (s.runLines cat run).frames.length) :
    D.Leads f s.world (s.runLines cat lines).world ∧
      D.Governs f below (s.runLines cat lines) := by
  induction lines generalizing s with
  | nil => exact ⟨.refl h.holds, h⟩
  | cons line lines ih =>
      obtain ⟨hleads, hgoverns⟩ := hD.governs_runLine hA h
        (hopen [line] (List.prefix_append [line] lines))
      obtain ⟨hleads', hgoverns'⟩ := ih hgoverns fun run hrun =>
        hopen (line :: run) ((List.prefix_cons_inj line).2 hrun)
      exact ⟨hleads.trans hleads', hgoverns'⟩

/-- From the start, all lines are on a visit to the base. -/
theorem Lawful.runLines_start (hD : D.Lawful cat) (hA : D.Access cat fun _ => True)
    {base : Value} {w : World} (h : D.holds ⟨base, w⟩ w) (lines : List (List Char)) :
    D.Leads ⟨base, w⟩ w ((Session.start base w).runLines cat lines).world ∧
      D.Governs ⟨base, w⟩ [] ((Session.start base w).runLines cat lines) := by
  have hstart : D.Governs ⟨base, w⟩ [] (Session.start base w) :=
    ⟨h, [base], by simp, rfl, by simp⟩
  exact hD.governs_runLines hA hstart lines fun run _ => by simp [Session.frames]

end Discipline

end ObjectConsole
