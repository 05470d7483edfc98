import ObjectConsole.Proofs.Coercion.Display
import ObjectConsole.Proofs.World.Acyclic
import ObjectConsole.Render

/-!
The text of a value in a graph without cycles. The printer goes from a value to
its contents, whose levels are fewer, so that it comes to an end within the
levels of the value: more make no difference, and no text is missing for want of
them.
-/

namespace ObjectConsole

theorem Outlines.errsIn_summary (o : Outlines) (w : World) (v : Value) :
    ErrsIn IsDisplayError (o.summary w v) := by
  rw [summary.eq_def]
  split
  · exact errsIn_ok _
  · exact errsIn_ok _
  · split
    · split
      · exact errsIn_ok _
      · exact o.errsIn_displayWithin w _ _ _
    · exact o.errsIn_displayWithin _ _ _ _
    · exact o.errsIn_displayWithin w _ _ _
  · exact o.errsIn_displayWithin w _ _ _

theorem mapM_congr {α β ε : Type} {f g : α → Except ε β} {as : List α}
    (h : ∀ a ∈ as, f a = g a) : as.mapM f = as.mapM g := by
  induction as with
  | nil => rfl
  | cons a as ih =>
      obtain ⟨ha, has⟩ := List.forall_mem_cons.1 h
      rw [List.mapM_cons, List.mapM_cons, ha, ih has]

namespace Catalog

variable {w : World} {v : Value}

/-- The text of a value depends on the texts of its contents alone. -/
theorem itemWithin_congr (cat : Catalog) {m n : Nat}
    (h : ∀ u ∈ w.contents v, cat.itemWithin w m u = cat.itemWithin w n u) :
    cat.itemWithin w (m + 1) v = cat.itemWithin w (n + 1) v := by
  cases v with
  | tuple items =>
      have hitems : items.mapM (cat.itemWithin w m) = items.mapM (cat.itemWithin w n) :=
        mapM_congr h
      rw [itemWithin, itemWithin, hitems]
  | object r =>
      have hcontent {c : Cell} (hc : w.get? r = some c) :
          ∀ u ∈ c.values, cat.itemWithin w m u = cat.itemWithin w n u := by
        rwa [World.contents_of_own (v := .object r) rfl hc] at h
      rw [itemWithin, itemWithin]
      split
      · next items hc =>
          have hitems : items.mapM (cat.itemWithin w m) = items.mapM (cat.itemWithin w n) :=
            mapM_congr (hcontent hc)
          rw [hitems]
      · next frozen entries hc =>
          refine congrArg (· >>= fun texts => pure (tableText texts))
            (mapM_congr fun e he => ?_)
          have hentry : ∀ u ∈ [e.1, e.2], cat.itemWithin w m u = cat.itemWithin w n u :=
            fun u hu => hcontent hc u (List.mem_flatMap.2 ⟨e, he, hu⟩)
          simp only [hentry e.1 (by simp), hentry e.2 (by simp)]
      · rfl
  | _ => rfl

/-- A text is missing for want of the text of one of the contents, or of a
display. -/
theorem errsIn_itemWithin_of_contents (cat : Catalog) {n : Nat}
    (h : ∀ u ∈ w.contents v, ErrsIn IsDisplayError (cat.itemWithin w n u)) :
    ErrsIn IsDisplayError (cat.itemWithin w (n + 1) v) := by
  cases v with
  | tuple items =>
      rw [itemWithin]
      exact (errsIn_mapM h).bind fun _ => errsIn_ok _
  | object r =>
      have hcontent {c : Cell} (hc : w.get? r = some c) :
          ∀ u ∈ c.values, ErrsIn IsDisplayError (cat.itemWithin w n u) := by
        rwa [World.contents_of_own (v := .object r) rfl hc] at h
      rw [itemWithin]
      split
      · next items hc => exact (errsIn_mapM (hcontent hc)).bind fun _ => errsIn_ok _
      · next frozen entries hc =>
          refine ErrsIn.bind (errsIn_mapM fun e he => ?_) fun _ => errsIn_ok _
          have hentry : ∀ u ∈ [e.1, e.2], ErrsIn IsDisplayError (cat.itemWithin w n u) :=
            fun u hu => hcontent hc u (List.mem_flatMap.2 ⟨e, he, hu⟩)
          exact (hentry e.1 (by simp)).bind fun _ => (hentry e.2 (by simp)).bind fun _ =>
            errsIn_ok _
      · exact cat.errsIn_summary w _
  | null | bool b | text s | choice c s => exact errsIn_ok _
  | int i | sized width i own | float x | bytes data =>
      rw [itemWithin] <;> first | exact cat.errsIn_summary w _ | simp

/-- As many levels as the value has, over cells that all reachable ones are
among, are enough: more give the same text, and it is not missing for want of
levels. -/
theorem itemWithin_of_levels (cat : Catalog) (hw : w.Acyclic) {cells : List Ref}
    (hcells : w.Within cells v) {levels : Nat} (hlevels : w.levels cells v ≤ levels) :
    (∀ more, cat.itemWithin w (levels + more) v = cat.itemWithin w levels v) ∧
      ErrsIn IsDisplayError (cat.itemWithin w levels v) := by
  induction levels generalizing v cells with
  | zero => exact absurd hlevels (by simp [World.levels])
  | succ levels ih =>
      have hcontents : ∀ u ∈ w.contents v,
          (∀ more, cat.itemWithin w (levels + more) u = cat.itemWithin w levels u) ∧
            ErrsIn IsDisplayError (cat.itemWithin w levels u) := by
        intro u hu
        obtain ⟨fewer, hfewer, hlt⟩ := hcells.contents hw hu
        exact ih hfewer (Nat.le_of_lt_succ (Nat.lt_of_lt_of_le hlt hlevels))
      constructor
      · intro more
        rw [Nat.add_right_comm]
        exact cat.itemWithin_congr fun u hu => (hcontents u hu).1 more
      · exact cat.errsIn_itemWithin_of_contents fun u hu => (hcontents u hu).2

theorem itemWithin_of_extent (cat : Catalog) (hw : w.Acyclic) (v : Value) :
    (∀ more, cat.itemWithin w (w.extent v + more) v = cat.itemWithin w (w.extent v) v) ∧
      ErrsIn IsDisplayError (cat.itemWithin w (w.extent v) v) :=
  cat.itemWithin_of_levels hw (w.within_range v) (Nat.le_of_eq (w.extent_eq_levels v).symm)

end Catalog

end ObjectConsole
