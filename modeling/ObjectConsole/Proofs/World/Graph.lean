import ObjectConsole.World
import Mathlib.Logic.Relation

/-!
The graph of objects. The nodes are the cells of a world; a cell points to the
cells that the values in it refer to. What an expression can get hold of is
told in terms of this graph: the contents of a value, what is reachable from
it, and what is below it, that is, reachable from its contents.
-/

namespace ObjectConsole

open Relation (ReflTransGen TransGen)

namespace Value

/-- The cell that a value has of its own. -/
def own? : Value → Option Ref
  | .object r => some r
  | .sized _ _ own => own
  | _ => none

def isPlain : Value → Bool
  | .null | .bool _ | .int _ | .float _ | .text _ | .bytes _ | .sized _ _ none => true
  | _ => false

inductive Part : Value → Value → Prop
  | self (v : Value) : Part v v
  | item {u v : Value} {vs : List Value} (hv : v ∈ vs) (h : Part u v) : Part u (.tuple vs)

theorem part_tuple_iff {u : Value} {vs : List Value} :
    u.Part (.tuple vs) ↔ u = .tuple vs ∨ ∃ v ∈ vs, u.Part v := by
  constructor
  · intro h
    cases h with
    | self => exact .inl rfl
    | item hv h => exact .inr ⟨_, hv, h⟩
  · rintro (rfl | ⟨v, hv, h⟩)
    · exact .self _
    · exact .item hv h

/-- A value that is no tuple has no other part than itself. -/
theorem Part.eq_self {u v : Value} (h : u.Part v) (hv : ∀ vs, v ≠ .tuple vs) : u = v := by
  cases h with
  | self => rfl
  | item _ _ => exact absurd rfl (hv _)

/-- A value refers to the cells that its parts have of their own. -/
def Refers (v : Value) (r : Ref) : Prop := ∃ u : Value, u.Part v ∧ u.own? = some r

theorem refers_of_own {v : Value} {r : Ref} (h : v.own? = some r) : v.Refers r :=
  ⟨v, .self v, h⟩

theorem refers_tuple_iff {vs : List Value} {r : Ref} :
    (tuple vs).Refers r ↔ ∃ v ∈ vs, v.Refers r := by
  constructor
  · rintro ⟨u, hu, hr⟩
    rcases part_tuple_iff.1 hu with rfl | ⟨v, hv, hu⟩
    · exact absurd hr (by simp [own?])
    · exact ⟨v, hv, u, hu, hr⟩
  · rintro ⟨v, hv, u, hu, hr⟩
    exact ⟨u, .item hv hu, hr⟩

/-- A value that is no tuple refers to its own cell only. -/
theorem refers_iff_own {v : Value} {r : Ref} (hv : ∀ vs, v ≠ .tuple vs) :
    v.Refers r ↔ v.own? = some r := by
  constructor
  · rintro ⟨u, hu, hr⟩
    rwa [hu.eq_self hv] at hr
  · exact refers_of_own

theorem not_refers_choice (c : ClassName) (s : String) (r : Ref) : ¬ (choice c s).Refers r := by
  rw [refers_iff_own (by simp)]
  simp [own?]

theorem ne_tuple_of_own {v : Value} {r : Ref} (h : v.own? = some r) (vs : List Value) :
    v ≠ .tuple vs := by
  rintro rfl
  exact absurd h (by simp [own?])

theorem ne_tuple_of_plain {v : Value} (hv : v.isPlain = true) (vs : List Value) :
    v ≠ .tuple vs := by
  rintro rfl
  exact absurd hv (by simp [isPlain])

theorem not_refers_of_plain {v : Value} {r : Ref} (hv : v.isPlain = true) : ¬ v.Refers r := by
  rw [refers_iff_own (ne_tuple_of_plain hv)]
  cases v with
  | sized width n own => cases own <;> simp_all [own?, isPlain]
  | _ => simp_all [own?, isPlain]

end Value

/-! ### Contents -/

namespace World

variable {w w' : World} {u v : Value} {r s : Ref}

/-- What a value holds: the items of a tuple, or the values in its cell. -/
def contents (w : World) : Value → List Value
  | .tuple items => items
  | v => (v.own?.bind w.get?).elim [] Cell.values

theorem contents_of_own {c : Cell} (hv : v.own? = some r) (hc : w.get? r = some c) :
    w.contents v = c.values := by
  cases v <;> simp_all [contents, Value.own?]

theorem contents_of_own_none (hv : v.own? = some r) (hc : w.get? r = none) :
    w.contents v = [] := by
  cases v <;> simp_all [contents, Value.own?]

theorem contents_of_items {items : List Value} (h : w.items? v = some items) :
    w.contents v = items := by
  cases v with
  | tuple vs => simpa [items?, contents] using h
  | object r =>
      simp only [items?] at h
      split at h
      · next hc =>
          rw [contents_of_own rfl hc]
          simpa [Cell.values] using h
      · exact absurd h (by simp)
  | _ => exact absurd h (by simp [items?])

theorem table?_eq_some {frozen : Bool} {entries : List (Value × Value)}
    (h : w.table? v = some (frozen, entries)) :
    ∃ r, v = .object r ∧ w.get? r = some (.table frozen entries) := by
  unfold table? at h
  split at h
  · next r =>
      split at h
      · next hc =>
          obtain ⟨rfl, rfl⟩ : _ ∧ _ := by simpa using h
          exact ⟨r, rfl, hc⟩
      · exact absurd h (by simp)
  · exact absurd h (by simp)

theorem mem_contents_of_table {frozen : Bool} {entries : List (Value × Value)}
    {e : Value × Value} (h : w.table? v = some (frozen, entries)) (he : e ∈ entries) :
    e.1 ∈ w.contents v ∧ e.2 ∈ w.contents v := by
  obtain ⟨r, rfl, hc⟩ := table?_eq_some h
  rw [contents_of_own rfl hc]
  simp only [Cell.values, List.mem_flatMap]
  exact ⟨⟨e, he, by simp⟩, ⟨e, he, by simp⟩⟩

theorem mem_contents_of_attribute {a : String × Value} (h : a ∈ w.attributes v) :
    a.2 ∈ w.contents v := by
  have hrecord : ∃ r cls as, v.own? = some r ∧ w.get? r = some (.record cls as) ∧ a ∈ as := by
    unfold attributes at h
    split at h
    · next r =>
        split at h
        · next cls as hc => exact ⟨r, cls, as, rfl, hc, h⟩
        · exact absurd h (by simp)
    · next r =>
        split at h
        · next cls as hc => exact ⟨r, cls, as, rfl, hc, h⟩
        · exact absurd h (by simp)
    · exact absurd h (by simp)
  obtain ⟨r, cls, as, hr, hc, ha⟩ := hrecord
  rw [contents_of_own hr hc]
  exact List.mem_map_of_mem ha

/-! ### Ways through the graph -/

def Points (w : World) (r s : Ref) : Prop :=
  ∃ c, w.get? r = some c ∧ ∃ v ∈ c.values, v.Refers s

def Reaches (w : World) (v : Value) (s : Ref) : Prop :=
  ∃ r, v.Refers r ∧ ReflTransGen w.Points r s

/-- A cell is below a value if it is reachable from the contents of it. -/
def Below (w : World) (v : Value) (s : Ref) : Prop := ∃ u ∈ w.contents v, w.Reaches u s

def Acyclic (w : World) : Prop := ∀ r, ¬ TransGen w.Points r r

theorem reaches_of_refers (h : v.Refers r) : w.Reaches v r := ⟨r, h, .refl⟩

theorem Reaches.tail (h : w.Reaches v r) (hrs : w.Points r s) : w.Reaches v s := by
  obtain ⟨q, hq, hqr⟩ := h
  exact ⟨q, hq, hqr.tail hrs⟩

theorem Below.tail (h : w.Below v r) (hrs : w.Points r s) : w.Below v s := by
  obtain ⟨u, hu, hur⟩ := h
  exact ⟨u, hu, hur.tail hrs⟩

theorem below_of_mem (hu : u ∈ w.contents v) (hr : u.Refers r) : w.Below v r :=
  ⟨u, hu, reaches_of_refers hr⟩

/-- From a cell, what is below it is what a way of at least one step leads to. -/
theorem below_iff_transGen (hv : v.own? = some r) : w.Below v s ↔ TransGen w.Points r s := by
  constructor
  · rintro ⟨u, hu, q, hq, hqs⟩
    cases hc : w.get? r with
    | none => exact absurd hu (by simp [contents_of_own_none hv hc])
    | some c =>
        rw [contents_of_own hv hc] at hu
        exact .head' ⟨c, hc, u, hu, hq⟩ hqs
  · intro h
    obtain ⟨q, hrq, hqs⟩ := TransGen.head'_iff.1 h
    obtain ⟨c, hc, u, hu, hq⟩ := hrq
    exact ⟨u, by rwa [contents_of_own hv hc], q, hq, hqs⟩

/-- What is reachable is the value's own cell or below it. -/
theorem reaches_iff : w.Reaches v s ↔ v.own? = some s ∨ w.Below v s := by
  constructor
  · rintro ⟨r, ⟨u, hu, hr⟩, hrs⟩
    cases hu with
    | self =>
        rcases Relation.reflTransGen_iff_eq_or_transGen.1 hrs with rfl | hrs
        · exact .inl hr
        · exact .inr ((below_iff_transGen hr).2 hrs)
    | item hv hu => exact .inr ⟨_, hv, r, ⟨u, hu, hr⟩, hrs⟩
  · rintro (hs | ⟨u, hu, r, hr, hrs⟩)
    · exact reaches_of_refers (Value.refers_of_own hs)
    · cases hv : v.own? with
      | some q =>
          have hbelow : w.Below v s := ⟨u, hu, r, hr, hrs⟩
          exact ⟨q, Value.refers_of_own hv, ((below_iff_transGen hv).1 hbelow).to_reflTransGen⟩
      | none =>
          cases v with
          | tuple vs => exact ⟨r, Value.refers_tuple_iff.2 ⟨u, hu, hr⟩, hrs⟩
          | _ => simp_all [contents]

theorem Acyclic.not_below (h : w.Acyclic) (hv : v.own? = some r) : ¬ w.Below v r := by
  rw [below_iff_transGen hv]
  exact h r

/-- A set of cells that is closed under pointing contains all that is reachable
from a value that refers only to cells in it. -/
theorem Reaches.of_closed {K : Ref → Prop} (hK : ∀ r s, K r → w.Points r s → K s)
    (hv : ∀ r, v.Refers r → K r) (h : w.Reaches v s) : K s := by
  obtain ⟨r, hr, hrs⟩ := h
  induction hrs with
  | refl => exact hv r hr
  | tail _ hst ih => exact hK _ _ ih hst

end World

end ObjectConsole
