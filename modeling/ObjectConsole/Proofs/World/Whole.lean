import ObjectConsole.Class
import ObjectConsole.Proofs.World.Change
import ObjectConsole.Proofs.World.Graph

/-!
Whole worlds. In a whole world no reference leads to a cell that is not there,
and no choice is one that its enumeration does not have. A world stays whole
when a cell is added or replaced, if the values in it are of that kind.
-/

namespace ObjectConsole

/-- What a value is in a whole world: its references are to cells, and its
choices are members of enumerations. -/
structure World.Admits (cat : Catalog) (w : World) (v : Value) : Prop where
  refs : ∀ r, v.Refers r → r < w.cells.size
  choice : ∀ c s, (Value.choice c s).Part v → ((cat.find c).choices.lookup s).isSome

def World.Whole (cat : Catalog) (w : World) : Prop :=
  ∀ r c, w.get? r = some c → ∀ v ∈ c.values, w.Admits cat v

namespace World

variable {cat : Catalog} {w w' : World} {v : Value} {c d : Cell} {r : Ref}

theorem Admits.mono (h : w.Admits cat v) (hsize : w.cells.size ≤ w'.cells.size) :
    w'.Admits cat v :=
  ⟨fun r hr => Nat.lt_of_lt_of_le (h.refs r hr) hsize, h.choice⟩

theorem admits_tuple_iff {vs : List Value} :
    w.Admits cat (.tuple vs) ↔ ∀ v ∈ vs, w.Admits cat v := by
  constructor
  · intro h v hv
    exact ⟨fun r hr => h.refs r (Value.refers_tuple_iff.2 ⟨v, hv, hr⟩),
      fun c s hs => h.choice c s (.item hv hs)⟩
  · intro h
    refine ⟨fun r hr => ?_, fun c s hs => ?_⟩
    · obtain ⟨v, hv, hr⟩ := Value.refers_tuple_iff.1 hr
      exact (h v hv).refs r hr
    · obtain ⟨v, hv, hs⟩ := (Value.part_tuple_iff.1 hs).resolve_left (by simp)
      exact (h v hv).choice c s hs

/-- A value without parts is admitted for its own reference and choice. -/
theorem admits_of_atom (hv : ∀ vs, v ≠ .tuple vs) (hown : ∀ r, v.own? = some r → r < w.cells.size)
    (hchoice : ∀ c s, v = .choice c s → ((cat.find c).choices.lookup s).isSome) :
    w.Admits cat v :=
  ⟨fun r hr => hown r ((Value.refers_iff_own hv).1 hr),
    fun c s hs => hchoice c s (hs.eq_self hv).symm⟩

theorem admits_of_plain (hv : v.isPlain = true) : w.Admits cat v := by
  refine ⟨fun r hr => absurd hr (Value.not_refers_of_plain hv), fun c s hs => ?_⟩
  rw [← hs.eq_self (Value.ne_tuple_of_plain hv)] at hv
  exact absurd hv (by simp [Value.isPlain])

theorem admits_object (hr : r < w.cells.size) : w.Admits cat (.object r) :=
  admits_of_atom (by simp) (fun s hs => Option.some.inj hs ▸ hr) (by simp)

theorem Whole.alloc (h : w.Whole cat) (hc : ∀ v ∈ c.values, w.Admits cat v) :
    (w.alloc c).2.Whole cat := by
  have hsize : w.cells.size ≤ (w.alloc c).2.cells.size := by rw [size_alloc]; omega
  intro r d hd v hv
  rcases get?_alloc hd with hd | ⟨-, rfl⟩
  · exact (h r d hd v hv).mono hsize
  · exact (hc v hv).mono hsize

theorem Whole.set (h : w.Whole cat) (hc : ∀ v ∈ c.values, w.Admits cat v) :
    (w.set r c).Whole cat := by
  have hsize : w.cells.size ≤ (w.set r c).cells.size := Nat.le_of_eq (size_set ..).symm
  intro s d hd v hv
  rcases get?_set hd with ⟨-, hd⟩ | ⟨-, rfl⟩
  · exact (h s d hd v hv).mono hsize
  · exact (hc v hv).mono hsize

theorem Whole.admits_contents (h : w.Whole cat) (hv : w.Admits cat v) {u : Value}
    (hu : u ∈ w.contents v) : w.Admits cat u := by
  cases hown : v.own? with
  | none =>
      cases v with
      | tuple vs => exact admits_tuple_iff.1 hv u hu
      | _ => simp_all [World.contents]
  | some r =>
      cases hc : w.get? r with
      | none => exact absurd hu (by simp [contents_of_own_none hown hc])
      | some c =>
          rw [contents_of_own hown hc] at hu
          exact h r c hc u hu

end World

end ObjectConsole
