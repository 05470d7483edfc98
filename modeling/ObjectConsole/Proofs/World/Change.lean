import ObjectConsole.World

/-!
How worlds change. New cells come at the end, where no cell was before, and
all others stay as they are. Most changes of a cell leave it a cell of its
kind.
-/

namespace ObjectConsole

inductive Cell.SameKind : Cell → Cell → Prop
  | list (items items' : List Value) : SameKind (.list items) (.list items')
  | table (frozen : Bool) (entries entries' : List (Value × Value)) :
      SameKind (.table frozen entries) (.table frozen entries')
  | record (cls : ClassName) (as as' : List (String × Value)) :
      SameKind (.record cls as) (.record cls as')

theorem Cell.SameKind.refl (c : Cell) : SameKind c c := by
  cases c <;> constructor

namespace World

variable {w w' w'' : World} {r s : Ref} {c d : Cell} {v : Value}

theorem lt_of_get? (h : w.get? r = some c) : r < w.cells.size :=
  (Array.getElem?_eq_some_iff.1 h).1

theorem get?_of_lt (h : r < w.cells.size) : ∃ c, w.get? r = some c :=
  ⟨w.cells[r], Array.getElem?_eq_getElem h⟩

/-- All cells of `w` are in `w'` as they are in `w`. -/
def Extends (w w' : World) : Prop := ∀ r c, w.get? r = some c → w'.get? r = some c

theorem Extends.refl (w : World) : w.Extends w := fun _ _ h => h

theorem Extends.trans (h : w.Extends w') (h' : w'.Extends w'') : w.Extends w'' :=
  fun r c hc => h' r c (h r c hc)

theorem extends_alloc (w : World) (c : Cell) : w.Extends (w.alloc c).2 :=
  fun _ _ h => (get?_alloc_of_lt (lt_of_get? h) c).trans h

@[simp] theorem size_alloc (w : World) (c : Cell) :
    (w.alloc c).2.cells.size = w.cells.size + 1 := by
  simp [alloc]

@[simp] theorem size_set (w : World) (r : Ref) (c : Cell) :
    (w.set r c).cells.size = w.cells.size := by
  simp [set]

/-- A cell of the world with one more cell is a cell from before, or the new
one. -/
theorem get?_alloc (h : (w.alloc c).2.get? r = some d) :
    w.get? r = some d ∨ r = w.cells.size ∧ d = c := by
  rcases Nat.lt_trichotomy r w.cells.size with hlt | rfl | hgt
  · exact .inl ((get?_alloc_of_lt hlt c).symm.trans h)
  · exact .inr ⟨rfl, Option.some.inj (h.symm.trans (get?_alloc_self w c))⟩
  · have hlt := lt_of_get? h
    rw [size_alloc] at hlt
    exact absurd hlt (Nat.not_lt.2 hgt)

/-- A cell of the world with a cell replaced is a cell from before, or the
replacement. -/
theorem get?_set (h : (w.set r c).get? s = some d) :
    s ≠ r ∧ w.get? s = some d ∨ s = r ∧ d = c := by
  by_cases hs : s = r
  · subst hs
    have hlt := lt_of_get? h
    rw [size_set] at hlt
    exact .inr ⟨rfl, Option.some.inj (h.symm.trans (get?_set_self hlt c))⟩
  · exact .inl ⟨hs, (get?_set_of_ne (Ne.symm hs) c).symm.trans h⟩

/-- Only an integer that nothing holds yet is changed by adopting it, and only
then a cell is added. -/
theorem adopt_cases (w : World) (v : Value) :
    w.adopt v = (v, w) ∨ ∃ width n, v = .sized width n none ∧
      w.adopt v = (.sized width n (some w.cells.size),
        (w.alloc (.record (.ofWidth width) [])).2) := by
  unfold adopt
  split
  · exact .inr ⟨_, _, rfl, rfl⟩
  · exact .inl rfl

theorem extends_adopt (w : World) (v : Value) : w.Extends (w.adopt v).2 := by
  rcases adopt_cases w v with h | ⟨width, n, -, h⟩ <;> rw [h]
  · exact .refl w
  · exact extends_alloc w _

@[simp] theorem printed_adopt (w : World) (v : Value) : (w.adopt v).2.printed = w.printed := by
  rcases adopt_cases w v with h | ⟨width, n, -, h⟩
  · rw [h]
  · rw [h]
    rfl

theorem extends_adoptAll (w : World) (vs : List Value) : w.Extends (w.adoptAll vs).2 := by
  induction vs generalizing w with
  | nil => exact .refl w
  | cons v vs ih => exact (extends_adopt w v).trans (ih (w.adopt v).2)

/-- An attribute is set in the record that a value has of its own; without
one, nothing changes. -/
theorem setOwn_cases (w : World) (v : Value) (name : String) (u : Value) :
    w.setOwn v name u = w ∨ ∃ r cls as, w.get? r = some (.record cls as) ∧
      (v = .object r ∨ ∃ width n, v = .sized width n (some r)) ∧
      w.setOwn v name u = w.set r (.record cls (setAttribute name u as)) := by
  unfold setOwn
  split
  · next r =>
      split
      · next cls as hc => exact .inr ⟨r, cls, as, hc, .inl rfl, rfl⟩
      · exact .inl rfl
  · next width n r =>
      split
      · next cls as hc => exact .inr ⟨r, cls, as, hc, .inr ⟨width, n, rfl⟩, rfl⟩
      · exact .inl rfl
  · exact .inl rfl

/-- No cell of `w` has changed its kind in `w'`. -/
def Evolves (w w' : World) : Prop :=
  ∀ r c, w.get? r = some c → ∃ c', w'.get? r = some c' ∧ Cell.SameKind c c'

theorem evolves_of_extends (h : w.Extends w') : w.Evolves w' :=
  fun r c hc => ⟨c, h r c hc, .refl c⟩

theorem evolves_set (hc : w.get? r = some c) (hkind : Cell.SameKind c d) :
    w.Evolves (w.set r d) := by
  intro s e he
  by_cases hs : r = s
  · subst hs
    obtain rfl : c = e := Option.some.inj (hc.symm.trans he)
    exact ⟨d, get?_set_self (lt_of_get? hc) d, hkind⟩
  · exact ⟨e, (get?_set_of_ne hs d).trans he, .refl e⟩

theorem Evolves.record (h : w.Evolves w') {cls : ClassName} {as : List (String × Value)}
    (hr : w.get? r = some (.record cls as)) : ∃ as', w'.get? r = some (.record cls as') := by
  obtain ⟨c', hc', hkind⟩ := h r _ hr
  cases hkind
  exact ⟨_, hc'⟩

theorem Evolves.list (h : w.Evolves w') {items : List Value}
    (hr : w.get? r = some (.list items)) : ∃ items', w'.get? r = some (.list items') := by
  obtain ⟨c', hc', hkind⟩ := h r _ hr
  cases hkind
  exact ⟨_, hc'⟩

theorem mem_setAttribute {name : String} {u : Value} {as : List (String × Value)}
    {a : String × Value} (h : a ∈ setAttribute name u as) : a = (name, u) ∨ a ∈ as := by
  induction as with
  | nil => exact .inl (List.mem_singleton.1 h)
  | cons b rest ih =>
      obtain ⟨n, x⟩ := b
      rw [setAttribute] at h
      split at h
      · next hn =>
          subst hn
          exact (List.mem_cons.1 h).imp_right (List.mem_cons_of_mem _)
      · rcases List.mem_cons.1 h with rfl | h
        · exact .inr (List.mem_cons_self ..)
        · exact (ih h).imp_right (List.mem_cons_of_mem _)

theorem map_fst_setAttribute {name : String} {as : List (String × Value)}
    (h : name ∈ as.map (·.1)) (v : Value) :
    (setAttribute name v as).map (·.1) = as.map (·.1) := by
  induction as with
  | nil => exact absurd h (by simp)
  | cons a as ih =>
      obtain ⟨n, x⟩ := a
      rw [setAttribute]
      split
      · rfl
      · next hn =>
          have hmem : name ∈ as.map (·.1) := (List.mem_cons.1 h).resolve_left (Ne.symm hn)
          rw [List.map_cons, List.map_cons, ih hmem]

theorem map_fst_setAttribute_of_not_mem {name : String} {as : List (String × Value)}
    (h : name ∉ as.map (·.1)) (v : Value) :
    (setAttribute name v as).map (·.1) = as.map (·.1) ++ [name] := by
  induction as with
  | nil => rfl
  | cons a as ih =>
      obtain ⟨n, x⟩ := a
      rw [List.map_cons, List.mem_cons, not_or] at h
      rw [setAttribute, if_neg (Ne.symm h.1), List.map_cons, List.map_cons, ih h.2,
        List.cons_append]

end World

namespace Cell

variable {P : Value → Prop}

theorem forall_values_setAttribute {cls : ClassName} {as : List (String × Value)} {v : Value}
    (h : ∀ u ∈ (record cls as).values, P u) (hv : P v) (name : String) :
    ∀ u ∈ (record cls (setAttribute name v as)).values, P u := by
  intro u hu
  obtain ⟨a, ha, rfl⟩ := List.mem_map.1 hu
  rcases World.mem_setAttribute ha with rfl | ha
  · exact hv
  · exact h _ (List.mem_map_of_mem ha)

theorem forall_values_table (frozen : Bool) {entries : List (Value × Value)}
    (h : ∀ e ∈ entries, P e.1 ∧ P e.2) : ∀ v ∈ (table frozen entries).values, P v := by
  intro v hv
  obtain ⟨e, he, hv⟩ := List.mem_flatMap.1 hv
  simp only [List.mem_cons, List.not_mem_nil, or_false] at hv
  rcases hv with rfl | rfl
  · exact (h e he).1
  · exact (h e he).2

end Cell

end ObjectConsole
