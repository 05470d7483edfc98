import ObjectConsole.Proofs.Sample.Members
import ObjectConsole.Proofs.Session.Visit

/-!
Typed slots of the demonstration. Pets and persons hold in each of their slots
a value of the kind that the slot is declared with, whatever lines are run. No
cell ever changes its kind, so a value that fits into the graph keeps fitting;
and what assigning and adopting put into a slot was fitted to its type before.
-/

namespace ObjectConsole.Sample

open Builtin

variable {w w' : World} {v : Value} {r : Ref}

/-! ### Values that fit into a world -/

/-- A value fits into a world: its references are to cells, those of integers to
the cells of such integers, and its choices are members of species. -/
structure Fits (w : World) (v : Value) : Prop where
  object : ∀ r, (Value.object r).Part v → ∃ c, w.get? r = some c
  sized : ∀ width n r, (Value.sized width n (some r)).Part v →
    ∃ as, w.get? r = some (.record (.ofWidth width) as)
  choice : ∀ c s, (Value.choice c s).Part v →
    c = speciesName ∧ (speciesOutline.choices.lookup s).isSome

theorem Fits.mono (h : Fits w v) (hw : w.Evolves w') : Fits w' v where
  object r hr := by
    obtain ⟨c, hc⟩ := h.object r hr
    obtain ⟨c', hc', -⟩ := hw r c hc
    exact ⟨c', hc'⟩
  sized width n r hr := by
    obtain ⟨as, has⟩ := h.sized width n r hr
    exact hw.record has
  choice := h.choice

/-- A value without parts fits for its own reference and choice. -/
theorem fits_of_atom (hv : ∀ vs, v ≠ .tuple vs)
    (hobject : ∀ r, v = .object r → ∃ c, w.get? r = some c)
    (hsized : ∀ width n r, v = .sized width n (some r) →
      ∃ as, w.get? r = some (.record (.ofWidth width) as))
    (hchoice : ∀ c s, v = .choice c s →
      c = speciesName ∧ (speciesOutline.choices.lookup s).isSome) :
    Fits w v :=
  ⟨fun r hr => hobject r (hr.eq_self hv).symm,
    fun width n r hr => hsized width n r (hr.eq_self hv).symm,
    fun c s hs => hchoice c s (hs.eq_self hv).symm⟩

theorem fits_of_plain (hv : v.isPlain = true) : Fits w v := by
  have hnot {u : Value} (hu : u.isPlain = false) : v ≠ u := by
    rintro rfl
    exact absurd hv (by simp [hu])
  exact fits_of_atom (fun _ => hnot rfl) (fun _ h => absurd h (hnot rfl))
    (fun _ _ _ h => absurd h (hnot rfl)) (fun _ _ h => absurd h (hnot rfl))

theorem fits_species {s : String} (hs : (speciesOutline.choices.lookup s).isSome) :
    Fits w (species s) := by
  refine fits_of_atom (by simp [species]) (by simp [species]) (by simp [species])
    fun c' s' h => ?_
  obtain ⟨rfl, rfl⟩ := Value.choice.inj h
  exact ⟨rfl, hs⟩

theorem fits_object {c : Cell} (hc : w.get? r = some c) : Fits w (.object r) :=
  fits_of_atom (by simp) (fun _ h => Value.object.inj h ▸ ⟨c, hc⟩) (by simp) (by simp)

theorem fits_sized {width : Width} {n : Int} {as : List (String × Value)}
    (hr : w.get? r = some (.record (.ofWidth width) as)) :
    Fits w (.sized width n (some r)) := by
  refine fits_of_atom (by simp) (by simp) (fun width' n' r' h => ?_) (by simp)
  obtain ⟨rfl, -, hown⟩ := Value.sized.inj h
  obtain rfl := Option.some.inj hown
  exact ⟨as, hr⟩

theorem fits_tuple_iff {vs : List Value} : Fits w (.tuple vs) ↔ ∀ v ∈ vs, Fits w v := by
  constructor
  · intro h v hv
    exact ⟨fun r hr => h.object r (.item hv hr),
      fun width n r hr => h.sized width n r (.item hv hr),
      fun c s hs => h.choice c s (.item hv hs)⟩
  · intro h
    refine ⟨fun r hr => ?_, fun width n r hr => ?_, fun c s hs => ?_⟩
    · obtain ⟨v, hv, hr⟩ := (Value.part_tuple_iff.1 hr).resolve_left (by simp)
      exact (h v hv).object r hr
    · obtain ⟨v, hv, hr⟩ := (Value.part_tuple_iff.1 hr).resolve_left (by simp)
      exact (h v hv).sized width n r hr
    · obtain ⟨v, hv, hs⟩ := (Value.part_tuple_iff.1 hs).resolve_left (by simp)
      exact (h v hv).choice c s hs

/-! ### Slots -/

structure Slotted (names : List String) (slot : String → Value → Prop)
    (as : List (String × Value)) : Prop where
  names : as.map (·.1) = names
  values : ∀ a ∈ as, slot a.1 a.2

theorem Slotted.lookup {names : List String} {slot : String → Value → Prop}
    {as : List (String × Value)} (h : Slotted names slot as) {name : String}
    (hname : name ∈ names) : ∃ v, as.lookup name = some v ∧ slot name v := by
  rw [← h.names] at hname
  obtain ⟨a, ha, rfl⟩ := List.mem_map.1 hname
  cases hv : as.lookup a.1 with
  | none =>
      have hne := List.lookup_eq_none_iff.1 hv a ha
      exact absurd hne (by simp)
  | some v =>
      obtain ⟨l₁, l₂, has, -⟩ := List.lookup_eq_some_iff.1 hv
      exact ⟨v, rfl, h.values (a.1, v) (by simp [has])⟩

theorem Slotted.setAttribute {names : List String} {slot : String → Value → Prop}
    {as : List (String × Value)} (h : Slotted names slot as) {name : String} {v : Value}
    (hname : name ∈ names) (hv : slot name v) :
    Slotted names slot (setAttribute name v as) where
  names := (World.map_fst_setAttribute (by rwa [h.names]) v).trans h.names
  values a ha := by
    rcases World.mem_setAttribute ha with rfl | ha
    · exact hv
    · exact h.values a ha

theorem Slotted.imp {names : List String} {slot slot' : String → Value → Prop}
    {as : List (String × Value)} (h : Slotted names slot as)
    (hslot : ∀ n v, slot n v → slot' n v) : Slotted names slot' as :=
  ⟨h.names, fun a ha => hslot _ _ (h.values a ha)⟩

def IsSpecies (v : Value) : Prop :=
  ∃ s, v = species s ∧ (speciesOutline.choices.lookup s).isSome

def petSlot (name : String) (v : Value) : Prop :=
  match name with
  | "name" => ∃ s, v = .text s
  | "species" => IsSpecies v
  | "age" => ∃ n, v = .int n
  | _ => False

/-- A weight is a number that is neither negative nor zero. -/
def IsWeight (v : Value) : Prop :=
  ∃ x, v = .float x ∧ (Number.float x).less (.int 0) = false ∧
    (Number.float x).equal (.int 0) = false

def IsPet (w : World) (v : Value) : Prop :=
  ∃ r as, v = .object r ∧ w.get? r = some (.record petName as)

theorem IsPet.mono (h : IsPet w v) (hw : w.Evolves w') : IsPet w' v := by
  obtain ⟨r, as, rfl, hr⟩ := h
  obtain ⟨as', hr'⟩ := hw.record hr
  exact ⟨r, as', rfl, hr'⟩

def personSlot (w : World) (name : String) (v : Value) : Prop :=
  match name with
  | "_name" => ∃ s, v = .text s
  | "_length" => ∃ x, v = .float x
  | "_weight" => IsWeight v
  | "_pet" => v = .null ∨ IsPet w v
  | "_friends" => ∃ r items, v = .object r ∧ w.get? r = some (.list items)
  | _ => False

theorem personSlot_mono (hw : w.Evolves w') {name : String} (h : personSlot w name v) :
    personSlot w' name v := by
  unfold personSlot at h ⊢
  split at h
  · exact h
  · exact h
  · exact h
  · exact h.imp_right fun hpet => hpet.mono hw
  · obtain ⟨r, items, rfl, hitems⟩ := h
    obtain ⟨items', hitems'⟩ := hw.list hitems
    exact ⟨r, items', rfl, hitems'⟩
  · exact h

def petNames : List String := ["name", "species", "age"]

def personNames : List String := ["_name", "_length", "_weight", "_pet", "_friends"]

/-- The attributes of an instance are those of its class, and its slots are
typed. Only integers of a width have free attributes. -/
def Instance (w : World) (cls : ClassName) (as : List (String × Value)) : Prop :=
  cls = personName ∧ Slotted personNames (personSlot w) as ∨
    cls = petName ∧ Slotted petNames petSlot as ∨ ∃ width, cls = .ofWidth width

structure Typed (w : World) (c : Cell) : Prop where
  fits : ∀ v ∈ c.values, Fits w v
  record : ∀ cls as, c = .record cls as → Instance w cls as

theorem Typed.mono {c : Cell} (h : Typed w c) (hw : w.Evolves w') : Typed w' c where
  fits v hv := (h.fits v hv).mono hw
  record cls as hc := (h.record cls as hc).imp_left fun hperson =>
    hperson.imp_right fun hslots => hslots.imp fun _ _ => personSlot_mono hw

def WellTyped (w : World) : Prop := ∀ r c, w.get? r = some c → Typed w c

theorem WellTyped.alloc (h : WellTyped w) {c : Cell} (hc : Typed w c) :
    WellTyped (w.alloc c).2 := by
  intro r d hd
  have hevolves := World.evolves_of_extends (w.extends_alloc c)
  rcases World.get?_alloc hd with hd | ⟨-, rfl⟩
  · exact (h r d hd).mono hevolves
  · exact hc.mono hevolves

theorem WellTyped.set (h : WellTyped w) {c c' : Cell} (hr : w.get? r = some c)
    (hkind : Cell.SameKind c c') (hc' : Typed w c') : WellTyped (w.set r c') := by
  intro s d hd
  have hevolves := World.evolves_set hr hkind
  rcases World.get?_set hd with ⟨-, hd⟩ | ⟨-, rfl⟩
  · exact (h s d hd).mono hevolves
  · exact hc'.mono hevolves

theorem typed_collection {c : Cell} (hc : ∀ cls as, c ≠ .record cls as)
    (hvalues : ∀ v ∈ c.values, Fits w v) : Typed w c :=
  ⟨hvalues, fun cls as h => absurd h (hc cls as)⟩

theorem WellTyped.person (h : WellTyped w) {as : List (String × Value)}
    (hr : w.get? r = some (.record personName as)) :
    Slotted personNames (personSlot w) as := by
  rcases (h r _ hr).record _ _ rfl with ⟨-, hslots⟩ | ⟨hne, -⟩ | ⟨width, hne⟩
  · exact hslots
  · exact absurd hne (by decide)
  · cases width <;> exact absurd hne (by decide)

theorem WellTyped.pet (h : WellTyped w) {as : List (String × Value)}
    (hr : w.get? r = some (.record petName as)) : Slotted petNames petSlot as := by
  rcases (h r _ hr).record _ _ rfl with ⟨hne, -⟩ | ⟨-, hslots⟩ | ⟨width, hne⟩
  · exact absurd hne (by decide)
  · exact hslots
  · cases width <;> exact absurd hne (by decide)

end ObjectConsole.Sample
