import ObjectConsole.Proofs.Sample.Acyclic
import ObjectConsole.Proofs.Sample.Properties

/-!
The sessions that lines lead to from a value of the demonstration or from
structured data. Their worlds are well typed, and the values on their stacks
fit there. All later statements on properties are about these sessions.
-/

namespace ObjectConsole.Sample

open Builtin

variable [Host] {w w' : World} {v base : Value} {s : Session}

/-- The operations on members keep worlds well typed. -/
theorem typing_access : typing.Access catalog fun _ => True :=
  typing_conduct.access typing_lawful Discipline.allowsSteps_all

structure Begins (base : Value) (w : World) : Prop where
  wellTyped : WellTyped w
  fits : Fits w base
  held : base.IsHeld

/-- The session comes up after a session was started on a value of the
demonstration or on structured data. -/
inductive Reached : Session → Prop
  | start {base : Value} {w : World} (h : Begins base w) : Reached (Session.start base w)
  | line {s : Session} (h : Reached s) (line : List Char) : Reached (s.runLine catalog line).2
  | reset {s : Session} (h : Reached s) : Reached s.reset
  | takePrinted {s : Session} (h : Reached s) : Reached s.takePrinted.2
  | takeEmitted {s : Session} (h : Reached s) : Reached s.takeEmitted.2

theorem reached_runLines (h : Reached s) (lines : List (List Char)) :
    Reached (s.runLines catalog lines) := by
  induction lines generalizing s with
  | nil => exact h
  | cons line lines ih => exact ih (h.line line)

/-! ### Starts -/

omit [Host] in
/-- Every object of the demonstration can be started on. -/
theorem begins_object {r : Ref} {c : Cell} (hw : WellTyped w) (hr : w.get? r = some c) :
    Begins (.object r) w :=
  ⟨hw, fits_object hr, by simp [Value.IsHeld]⟩

/-- Lines that are run on the person of the demonstration lead to such sessions. -/
theorem reached_demoPerson :
    ∃ bart w, demoPerson initialWorld = .ok bart w ∧
      ∀ lines, Reached ((Session.start bart w).runLines catalog lines) := by
  obtain ⟨_, w, hbart, hw, r, as, rfl, hr⟩ := demoPerson_person wellTyped_initialWorld
  exact ⟨.object r, w, hbart, reached_runLines (.start (begins_object hw hr))⟩

omit [Host] in
theorem typing_holds_initialWorld : typing.holds ⟨.null, initialWorld⟩ initialWorld :=
  ⟨wellTyped_initialWorld, fits_of_plain rfl⟩

omit [Host] in
theorem isHeld_store {tree : Literal.Tree} (h : tree.store w = .ok base w') : base.IsHeld := by
  cases tree with
  | list items =>
      rw [Literal.Tree.store, Eval.bind_apply] at h
      cases hitems : Literal.Tree.storeItems items w with
      | ok vs w₁ =>
          rw [hitems] at h
          obtain ⟨rfl, -⟩ := EStateM.Result.ok.inj h
          simp [Value.IsHeld]
      | error e w₁ =>
          rw [hitems] at h
          exact nomatch h
  | table entries =>
      rw [Literal.Tree.store, Eval.bind_apply] at h
      cases hentries : Literal.Tree.storeEntries entries w with
      | ok es w₁ =>
          rw [hentries] at h
          obtain ⟨rfl, -⟩ := EStateM.Result.ok.inj h
          simp [Value.IsHeld]
      | error e w₁ =>
          rw [hentries] at h
          exact nomatch h
  | _ =>
      rw [Literal.Tree.store] at h
      obtain ⟨rfl, -⟩ := EStateM.Result.ok.inj h
      simp [Value.IsHeld]

theorem begins_store (tree : Literal.Tree) :
    ∃ base w, tree.store initialWorld = .ok base w ∧ Begins base w := by
  have hstore := typing_builds.keeps_store (E := fun _ => False) typing_lawful
    typing_holds_initialWorld tree
  rw [Discipline.Keeps] at hstore
  cases h : tree.store initialWorld with
  | ok base w =>
      rw [h] at hstore
      exact ⟨base, w, rfl, hstore.1.holds.1, hstore.2, isHeld_store h⟩
  | error e w =>
      rw [h] at hstore
      exact hstore.2.elim

theorem reached_store {tree : Literal.Tree} (h : tree.store initialWorld = .ok base w) :
    Reached (Session.start base w) := by
  obtain ⟨base', w', hstore, hbegins⟩ := begins_store tree
  obtain ⟨rfl, rfl⟩ := EStateM.Result.ok.inj (hstore.symm.trans h)
  exact .start hbegins

/-! ### Invariants -/

structure Sound (s : Session) : Prop where
  wellTyped : WellTyped s.world
  frames : ∀ v ∈ s.frames, Fits s.world v ∧ v.IsHeld

omit [Host] in
theorem Sound.current (h : Sound s) : Fits s.world s.stack.current ∧ s.stack.current.IsHeld :=
  h.frames _ (List.mem_of_mem_head? s.head_frames)

omit [Host] in
theorem Sound.visit (h : Sound s) : typing.holds ⟨s.stack.current, s.world⟩ s.world :=
  ⟨h.wellTyped, h.current.1⟩

theorem Sound.runLine (h : Sound s) (line : List Char) : Sound (s.runLine catalog line).2 := by
  rcases s.runLine_effect catalog line with ⟨hworld, hstack⟩ | ⟨outcome, w, heval, hstack⟩
  · refine ⟨by rw [hworld]; exact h.wellTyped, fun v hv => ?_⟩
    rw [hworld]
    rcases hstack with hsame | ⟨u, hpop⟩
    · exact h.frames v (hsame ▸ hv)
    · exact h.frames v (hpop ▸ List.mem_cons_of_mem u hv)
  · obtain ⟨hleads, houtcome⟩ := typing_lawful.evaluate typing_access
      (Discipline.allows_all (Text.trim line)) h.visit
    rw [heval] at hleads houtcome
    have hframes : ∀ v ∈ s.frames, Fits w v ∧ v.IsHeld := fun v hv =>
      ⟨hleads.keeps v (h.frames v hv).1, (h.frames v hv).2⟩
    rcases hstack with ⟨hsame, hworld⟩ | ⟨v, rfl, hpush, hworld⟩
    · rw [← hworld] at hleads hframes
      exact ⟨hleads.holds.1, fun u hu => hframes u (hsame ▸ hu)⟩
    · obtain ⟨hadopt, hadopted⟩ := typing_adopt hleads.holds houtcome
      refine ⟨by rw [hworld]; exact hadopt.holds.1, fun u hu => ?_⟩
      rw [hworld]
      rw [hpush] at hu
      rcases List.mem_cons.1 hu with rfl | hu
      · exact ⟨hadopted, w.isHeld_adopt v⟩
      · exact ⟨hadopt.keeps u (hframes u hu).1, (hframes u hu).2⟩

theorem Reached.sound (h : Reached s) : Sound s := by
  induction h with
  | start h =>
      refine ⟨h.wellTyped, fun v hv => ?_⟩
      rw [List.mem_singleton.1 hv]
      exact ⟨h.fits, h.held⟩
  | line h line ih => exact ih.runLine line
  | reset h ih =>
      refine ⟨ih.wellTyped, fun v hv => ih.frames v ?_⟩
      exact List.mem_append_right _ hv
  | @takePrinted s h ih =>
      have hevolves : s.world.Evolves s.takePrinted.2.world :=
        World.evolves_of_extends fun r c hc => hc
      exact ⟨fun r c hc => (ih.wellTyped r c hc).mono hevolves,
        fun v hv => ⟨(ih.frames v hv).1.mono hevolves, (ih.frames v hv).2⟩⟩
  | takeEmitted h ih => exact ⟨ih.wellTyped, ih.frames⟩

end ObjectConsole.Sample
