import ObjectConsole.Proofs.World.Change
import ObjectConsole.Proofs.World.Graph
import Mathlib.Algebra.BigOperators.Group.List.Basic
import Mathlib.Algebra.GroupWithZero.Nat

/-!
Graphs without cycles. A cell may be given new contents if nothing in them leads
back to it. Where no cell is below itself, a walk down the graph visits no cell
twice, so that the nesting of a value is bounded by that of all cells together.
-/

namespace ObjectConsole

open Relation (ReflTransGen TransGen)

namespace World

variable {w w' : World} {v u : Value} {r : Ref}

/-! ### Changes that close no cycle -/

/-- Only the ways from `r` on may be new, and they lead into a set of cells that
is closed under pointing and does not contain `r`. -/
theorem Acyclic.redirect (h : w.Acyclic) {K : Ref → Prop}
    (hsame : ∀ a b, a ≠ r → w'.Points a b → w.Points a b)
    (hnew : ∀ b, w'.Points r b → K b) (hclosed : ∀ a b, K a → w'.Points a b → K b)
    (hr : ¬ K r) : w'.Acyclic := by
  have hreturn : ¬ TransGen w'.Points r r := by
    intro hcycle
    obtain ⟨b, hrb, hbr⟩ := TransGen.head'_iff.1 hcycle
    have hall : ∀ {c}, ReflTransGen w'.Points b c → K c := by
      intro c hbc
      induction hbc with
      | refl => exact hnew b hrb
      | tail _ hstep ih => exact hclosed _ _ ih hstep
    exact hr (hall hbr)
  -- a way is one of the ways from before, or leads through the changed cell
  have hcases : ∀ {a b}, TransGen w'.Points a b →
      TransGen w.Points a b ∨ ReflTransGen w'.Points a r ∧ TransGen w'.Points r b := by
    intro a b hab
    induction hab with
    | single hstep =>
        by_cases ha : a = r
        · subst ha
          exact .inr ⟨.refl, .single hstep⟩
        · exact .inl (.single (hsame _ _ ha hstep))
    | @tail b c hab hstep ih =>
        by_cases hb : b = r
        · subst hb
          exact .inr ⟨hab.to_reflTransGen, .single hstep⟩
        · rcases ih with hold | ⟨har, hrb⟩
          · exact .inl (hold.tail (hsame _ _ hb hstep))
          · exact .inr ⟨har, hrb.tail hstep⟩
  intro a ha
  rcases hcases ha with hold | ⟨har, hra⟩
  · exact h a hold
  · exact hreturn (hra.trans_left har)

theorem points_set {c : Cell} {a b : Ref} (ha : a ≠ r) (h : (w.set r c).Points a b) :
    w.Points a b := by
  obtain ⟨d, hd, hrefers⟩ := h
  rcases get?_set hd with ⟨-, hd⟩ | ⟨hself, -⟩
  · exact ⟨d, hd, hrefers⟩
  · exact absurd hself ha

theorem points_set_self {c : Cell} {b : Ref} (h : (w.set r c).Points r b) :
    ∃ v ∈ c.values, v.Refers b := by
  obtain ⟨d, hd, hrefers⟩ := h
  rcases get?_set hd with ⟨hne, -⟩ | ⟨-, rfl⟩
  · exact absurd rfl hne
  · exact hrefers

theorem points_alloc {c : Cell} {a b : Ref} (ha : a ≠ w.cells.size)
    (h : (w.alloc c).2.Points a b) : w.Points a b := by
  obtain ⟨d, hd, hrefers⟩ := h
  rcases get?_alloc hd with hd | ⟨hself, -⟩
  · exact ⟨d, hd, hrefers⟩
  · exact absurd hself ha

theorem points_alloc_self {c : Cell} {b : Ref} (h : (w.alloc c).2.Points w.cells.size b) :
    ∃ v ∈ c.values, v.Refers b := by
  obtain ⟨d, hd, hrefers⟩ := h
  rcases get?_alloc hd with hd | ⟨-, rfl⟩
  · exact absurd (lt_of_get? hd) (Nat.lt_irrefl _)
  · exact hrefers

/-! ### Nesting -/

def nesting (w : World) (r : Ref) : Nat :=
  (w.get? r).elim 0 fun c => Value.depthAll c.values + 1

/-- The levels of a value over the given cells, each of which is visited once. -/
def levels (w : World) (cells : List Ref) (v : Value) : Nat :=
  v.depth + 1 + (cells.map w.nesting).sum

theorem extent_eq_levels (w : World) (v : Value) :
    w.extent v = w.levels (List.range w.cells.size) v := by
  have hfold : ∀ (cells : List Cell) (n : Nat),
      cells.foldl (fun n c => n + 1 + Value.depthAll c.values) n =
        n + (cells.map fun c => Value.depthAll c.values + 1).sum := by
    intro cells
    induction cells with
    | nil => exact fun n => rfl
    | cons c cells ih =>
        intro n
        rw [List.foldl_cons, ih, List.map_cons, List.sum_cons]
        omega
  have hcells : (List.range w.cells.size).map w.nesting =
      w.cells.toList.map fun c => Value.depthAll c.values + 1 := by
    refine List.ext_getElem (by simp) fun i hi _ => ?_
    have hlt : i < w.cells.size := by simpa using hi
    simp [nesting, get?, hlt]
  rw [extent, levels, hcells, ← Array.foldl_toList, hfold]

theorem depth_le_depthAll {vs : List Value} (hu : u ∈ vs) :
    u.depth ≤ Value.depthAll vs := by
  induction vs with
  | nil => exact absurd hu (by simp)
  | cons v vs ih =>
      rw [Value.depthAll]
      rcases List.mem_cons.1 hu with rfl | hu
      · exact Nat.le_max_left ..
      · exact Nat.le_trans (ih hu) (Nat.le_max_right ..)

theorem levels_item {items : List Value} (hu : u ∈ items) (cells : List Ref) :
    w.levels cells u < w.levels cells (.tuple items) := by
  have hdepth := depth_le_depthAll hu
  simp only [levels, Value.depth]
  omega

/-- What stands in a cell has fewer levels, over the other cells, than the cell
has over all. -/
theorem levels_content {cells : List Ref} {c : Cell} (hc : w.get? r = some c)
    (hr : r ∈ cells) (hu : u ∈ c.values) :
    w.levels (cells.erase r) u < w.levels cells v := by
  have hdepth := depth_le_depthAll hu
  have hsum := List.sum_map_erase w.nesting hr
  have hnesting : w.nesting r = Value.depthAll c.values + 1 := by rw [nesting, hc]; rfl
  simp only [levels]
  omega

/-- The cells that are reachable from a value are among the given ones. -/
def Within (w : World) (cells : List Ref) (v : Value) : Prop :=
  ∀ s, w.Reaches v s → s < w.cells.size → s ∈ cells

theorem within_range (w : World) (v : Value) : w.Within (List.range w.cells.size) v :=
  fun _ _ hs => List.mem_range.2 hs

theorem Within.item {items : List Value} {cells : List Ref}
    (h : w.Within cells (.tuple items)) (hu : u ∈ items) : w.Within cells u :=
  fun s hs => h s (reaches_iff.2 (.inr ⟨u, hu, hs⟩))

/-- Without cycles, a cell is not among those that are reachable from what
stands in it. -/
theorem Within.content (hw : w.Acyclic) {cells : List Ref} (h : w.Within cells v)
    (hv : v.own? = some r) {c : Cell} (hc : w.get? r = some c) (hu : u ∈ c.values) :
    w.Within (cells.erase r) u := by
  intro s hs hlt
  have hbelow : w.Below v s := ⟨u, by rwa [contents_of_own hv hc], hs⟩
  have hne : s ≠ r := by
    rintro rfl
    exact hw.not_below hv hbelow
  exact (List.mem_erase_of_ne hne).2 (h s (reaches_iff.2 (.inr hbelow)) hlt)

/-- On the way down a graph without cycles the levels grow fewer. -/
theorem Within.contents (hw : w.Acyclic) {cells : List Ref} (h : w.Within cells v)
    (hu : u ∈ w.contents v) :
    ∃ fewer, w.Within fewer u ∧ w.levels fewer u < w.levels cells v := by
  cases hv : v.own? with
  | none =>
      cases v with
      | tuple items => exact ⟨cells, h.item hu, levels_item hu cells⟩
      | _ => simp_all [World.contents]
  | some r =>
      cases hc : w.get? r with
      | none => exact absurd hu (by simp [contents_of_own_none hv hc])
      | some c =>
          rw [contents_of_own hv hc] at hu
          have hr : r ∈ cells := h r (reaches_of_refers (Value.refers_of_own hv)) (lt_of_get? hc)
          exact ⟨cells.erase r, h.content hw hv hc hu, levels_content hc hr hu⟩

end World

end ObjectConsole
