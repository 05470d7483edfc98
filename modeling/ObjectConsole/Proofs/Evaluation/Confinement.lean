import ObjectConsole.Proofs.Builtin.Collection
import ObjectConsole.Proofs.World.Whole

/-!
Confinement. Whatever is found on a visit to a value is below that value in the
graph of objects, or was made on the visit; and a cell that changes is the
value's own or is found in this way, and is filled with what was found. Along
with this, a property of worlds may be kept that such changes do not destroy.
-/

namespace ObjectConsole

open Builtin

/-- The cells that a visit may get hold of: those below its context at the
start, and those made since. -/
def Visit.Grasps (f : Visit) (r : Ref) : Prop :=
  f.start.Below f.context r ∨ f.start.cells.size ≤ r

def Visit.Finds (f : Visit) (v : Value) : Prop := ∀ r, v.Refers r → f.Grasps r

structure Confined (cat : Catalog) (J : World → Prop) (f : Visit) (w : World) : Prop where
  grows : f.start.cells.size ≤ w.cells.size
  /-- A cell that is new or has changed is the context's own or was found, and
  holds what was found. -/
  cells : ∀ r c, w.get? r = some c → f.start.get? r = some c ∨
    (f.context.own? = some r ∨ f.Grasps r) ∧ ∀ v ∈ c.values, f.Finds v
  whole : w.Whole cat
  context : f.start.Admits cat f.context
  before : J f.start
  now : J w

def confinement (cat : Catalog) (J : World → Prop) : Discipline where
  holds := Confined cat J
  knows f w v := w.Admits cat v ∧ f.Finds v

variable {cat : Catalog} {J : World → Prop} {f : Visit} {w w' : World} {v u : Value} {r s : Ref}
  {c : Cell}

theorem confined_start (hw : w.Whole cat) (hv : w.Admits cat v) (hJ : J w) :
    Confined cat J ⟨v, w⟩ w :=
  ⟨Nat.le_refl _, fun _ _ h => .inl h, hw, hv, hJ, hJ⟩

namespace Confined

/-- What a cell points to is found if the cell is. -/
theorem grasps_of_points (h : Confined cat J f w) (hr : f.Grasps r) (hrs : w.Points r s) :
    f.Grasps s := by
  obtain ⟨c, hc, v, hv, hs⟩ := hrs
  rcases h.cells r c hc with hsame | ⟨-, hfound⟩
  · rcases hr with hbelow | hnew
    · exact .inl (hbelow.tail ⟨c, hsame, v, hv, hs⟩)
    · exact absurd (World.lt_of_get? hsame) (Nat.not_lt.2 hnew)
  · exact hfound v hv s hs

/-- What a known value or the context holds is found. -/
theorem finds_contents (h : Confined cat J f w) (hv : v = f.context ∨ f.Finds v)
    (hu : u ∈ w.contents v) : f.Finds u := by
  intro s hs
  cases hown : v.own? with
  | none =>
      cases v with
      | tuple vs =>
          rcases hv with hv | hv
          · refine .inl (World.below_of_mem ?_ hs)
            rw [← hv]
            exact hu
          · exact hv s (Value.refers_tuple_iff.2 ⟨u, hu, hs⟩)
      | _ => simp_all [World.contents]
  | some r =>
      cases hc : w.get? r with
      | none => exact absurd hu (by simp [World.contents_of_own_none hown hc])
      | some c =>
          rw [World.contents_of_own hown hc] at hu
          rcases hv with hv | hv
          · rcases h.cells r c hc with hsame | ⟨-, hfound⟩
            · refine .inl (World.below_of_mem ?_ hs)
              rw [World.contents_of_own (hv ▸ hown) hsame]
              exact hu
            · exact hfound u hu s hs
          · exact h.grasps_of_points (hv r (Value.refers_of_own hown)) ⟨c, hc, u, hu, hs⟩

theorem admits_context (h : Confined cat J f w) : w.Admits cat f.context :=
  h.context.mono h.grows

/-- What is below a known value or the context is found. -/
theorem grasps_of_below (h : Confined cat J f w) (hv : v = f.context ∨ f.Finds v)
    (hs : w.Below v s) : f.Grasps s := by
  obtain ⟨u, hu, hus⟩ := hs
  exact hus.of_closed (fun _ _ => h.grasps_of_points) (h.finds_contents hv hu)

theorem leads (h : Confined cat J f w') (hsize : w.cells.size ≤ w'.cells.size) :
    (confinement cat J).Leads f w w' :=
  ⟨h, fun _ hu => ⟨hu.1.mono hsize, hu.2⟩⟩

theorem leads_alloc (h : Confined cat J f w)
    (hc : ∀ v ∈ c.values, (confinement cat J).knows f w v) (hJ : J (w.alloc c).2) :
    (confinement cat J).Leads f w (w.alloc c).2 := by
  have hsize : w.cells.size ≤ (w.alloc c).2.cells.size := by rw [World.size_alloc]; omega
  refine Confined.leads { h with
    grows := Nat.le_trans h.grows hsize
    cells := fun r d hd => ?_
    whole := h.whole.alloc fun v hv => (hc v hv).1
    now := hJ } hsize
  rcases World.get?_alloc hd with hd | ⟨rfl, rfl⟩
  · exact h.cells r d hd
  · exact .inr ⟨.inr (.inr h.grows), fun v hv => (hc v hv).2⟩

/-- A value whose own cell is new is known. -/
theorem knows_alloc (h : Confined cat J f w) (c : Cell) (hv : v.own? = some w.cells.size) :
    (confinement cat J).knows f (w.alloc c).2 v := by
  refine ⟨World.admits_of_atom (Value.ne_tuple_of_own hv) (fun r hr => ?_) ?_, fun r hr => ?_⟩
  · rw [World.size_alloc, ← Option.some.inj (hv.symm.trans hr)]
    exact Nat.lt_succ_self _
  · rintro c s rfl
    exact absurd hv (by simp [Value.own?])
  · have hr := (Value.refers_iff_own (Value.ne_tuple_of_own hv)).1 hr
    rw [← Option.some.inj (hv.symm.trans hr)]
    exact .inr h.grows

theorem leads_set (h : Confined cat J f w) (hr : f.context.own? = some r ∨ f.Grasps r)
    (hc : ∀ v ∈ c.values, (confinement cat J).knows f w v) (hJ : J (w.set r c)) :
    (confinement cat J).Leads f w (w.set r c) := by
  have hsize : w.cells.size ≤ (w.set r c).cells.size :=
    Nat.le_of_eq (World.size_set ..).symm
  refine Confined.leads { h with
    grows := Nat.le_trans h.grows hsize
    cells := fun s d hd => ?_
    whole := h.whole.set fun v hv => (hc v hv).1
    now := hJ } hsize
  rcases World.get?_set hd with ⟨-, hd⟩ | ⟨rfl, rfl⟩
  · exact h.cells s d hd
  · exact .inr ⟨hr, fun v hv => (hc v hv).2⟩

end Confined

/-- The property `J` is not destroyed by the changes that built-in classes make:
by a new cell that is no instance but of the integers of a width, and by a new
content for the context's own cell, if such cells hold what is known. -/
structure Upheld (cat : Catalog) (J : World → Prop) : Prop where
  alloc : ∀ {f w c}, Confined cat J f w →
    (∀ v ∈ c.values, (confinement cat J).knows f w v) →
    (∀ cls as, c = .record cls as → ∃ width, cls = .ofWidth width) → J (w.alloc c).2
  set : ∀ {f w r c c'}, Confined cat J f w → f.context.own? = some r → w.get? r = some c →
    Cell.SameKind c c' → (∀ v ∈ c'.values, (confinement cat J).knows f w v) → J (w.set r c')

theorem knows_adopt (hJ : Upheld cat J) (h : Confined cat J f w)
    (hv : (confinement cat J).knows f w v) :
    (confinement cat J).Leads f w (w.adopt v).2 ∧
      (confinement cat J).knows f (w.adopt v).2 (w.adopt v).1 := by
  rcases w.adopt_cases v with hsame | ⟨width, n, rfl, hnew⟩
  · rw [hsame]
    exact ⟨.refl h, hv⟩
  · rw [hnew]
    have hempty : ∀ v ∈ (Cell.record (.ofWidth width) []).values,
        (confinement cat J).knows f w v := by simp [Cell.values]
    exact ⟨h.leads_alloc hempty (hJ.alloc h hempty fun cls as hc =>
      ⟨width, (Cell.record.inj hc).1.symm⟩), h.knows_alloc _ rfl⟩

theorem confinement_lawful (hJ : Upheld cat J) : (confinement cat J).Lawful cat where
  plain _ hv := ⟨World.admits_of_plain hv, fun _ hr => absurd hr (Value.not_refers_of_plain hv)⟩
  choice _ hs := by
    refine ⟨World.admits_of_atom (by simp) (by simp [Value.own?]) fun c' s' hc => ?_, ?_⟩
    · obtain ⟨rfl, rfl⟩ := Value.choice.inj hc
      exact hs
    · exact fun r hr => absurd hr (Value.not_refers_choice _ _ r)
  tuple _ hvs := ⟨World.admits_tuple_iff.2 fun v hv => (hvs v hv).1, fun r hr => by
    obtain ⟨v, hv, hr⟩ := Value.refers_tuple_iff.1 hr
    exact (hvs v hv).2 r hr⟩
  contents h hv hu :=
    ⟨h.whole.admits_contents (hv.elim (fun hv => hv ▸ h.admits_context) (·.1)) hu,
      h.finds_contents (hv.imp_right (·.2)) hu⟩
  adopt := knows_adopt hJ
  enter h hv :=
    confined_start h.whole (hv.elim (fun hv => hv ▸ h.admits_context) (·.1)) h.now
  leave {f w w' v} h hv hleads := by
    have hstart := h.grows
    have hinner := hleads.holds
    have hgrasps : ∀ s, Visit.Grasps ⟨v, w⟩ s → f.Grasps s := by
      rintro s (hbelow | hnew)
      · exact h.grasps_of_below (hv.imp_right (·.2)) hbelow
      · exact .inr (Nat.le_trans hstart hnew)
    have hfinds : ∀ u, Visit.Finds ⟨v, w⟩ u → f.Finds u := fun u hu s hs =>
      hgrasps s (hu s hs)
    have hown : ∀ s, v.own? = some s → f.context.own? = some s ∨ f.Grasps s := by
      intro s hs
      rcases hv with rfl | hv
      · exact .inl hs
      · exact .inr (hv.2 s (Value.refers_of_own hs))
    refine ⟨Confined.leads { h with
      grows := Nat.le_trans hstart hinner.grows
      cells := fun s d hd => ?_
      whole := hinner.whole
      now := hinner.now } hinner.grows, fun u hu => ⟨hu.1, hfinds u hu.2⟩⟩
    rcases hinner.cells s d hd with hsame | ⟨hs, hfound⟩
    · exact h.cells s d hsame
    · exact .inr ⟨hs.elim (hown s) fun hs => .inr (hgrasps s hs), fun u hu =>
        hfinds u (hfound u hu)⟩

/-- The context may get a known value for an attribute. -/
theorem leads_setOwn (hJ : Upheld cat J) (h : Confined cat J f w)
    (hv : (confinement cat J).knows f w v) (name : String) :
    (confinement cat J).Leads f w (w.setOwn f.context name v) := by
  rcases w.setOwn_cases f.context name v with hsame | ⟨r, cls, as, hr, hcontext, hset⟩
  · rw [hsame]
    exact .refl h
  · have hown : f.context.own? = some r := by
      rcases hcontext with hcontext | ⟨width, n, hcontext⟩ <;> rw [hcontext] <;> rfl
    have hattributes : ∀ u ∈ (Cell.record cls as).values, (confinement cat J).knows f w u := by
      rw [← World.contents_of_own hown hr]
      exact fun u hu =>
        ⟨h.whole.admits_contents h.admits_context hu, h.finds_contents (.inl rfl) hu⟩
    have hvalues := Cell.forall_values_setAttribute hattributes hv name
    rw [hset]
    exact h.leads_set (.inl hown) hvalues (hJ.set h hown hr (.record ..) hvalues)

theorem confinement_builds (hJ : Upheld cat J) : (confinement cat J).Builds where
  makesLists h hitems :=
    ⟨h.leads_alloc hitems (hJ.alloc h hitems (by simp)), h.knows_alloc _ rfl⟩
  makesTable {f w entries} h hentries := by
    have hvalues := Cell.forall_values_table false hentries
    exact ⟨h.leads_alloc hvalues (hJ.alloc h hvalues (by simp)), h.knows_alloc _ rfl⟩
  fillsList h hcontext hr hitems :=
    have hown := by rw [hcontext]; rfl
    h.leads_set (.inl hown) hitems (hJ.set h hown hr (.list ..) hitems)
  fillsTable {f w r old entries} h hcontext hr hentries := by
    have hvalues := Cell.forall_values_table false hentries
    have hown : f.context.own? = some r := by rw [hcontext]; rfl
    exact h.leads_set (.inl hown) hvalues (hJ.set h hown hr (.table ..) hvalues)
  marks h _ hv := leads_setOwn hJ h hv _

end ObjectConsole
