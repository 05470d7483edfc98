import ObjectConsole.Proofs.Sample.Typing

/-!
Evaluation keeps the slots typed. The discipline here knows the values that fit
into the world. What is left to argue about is what enters a slot: a value that
was fitted to the slot's type is of the kind that the slot takes, for the
setter of a weight after its own test.
-/

namespace ObjectConsole.Sample

open Builtin

variable {w w' : World} {v u : Value} {r : Ref} {f : Visit}

/-! ### The discipline -/

/-- The discipline that the world is well typed, and that values fit into it. -/
def typing : Discipline where
  holds f w := WellTyped w ∧ Fits w f.context
  knows _ w v := Fits w v

theorem typing_leads (hw : WellTyped w') (h : typing.holds f w) (hevolves : w.Evolves w') :
    typing.Leads f w w' :=
  ⟨⟨hw, h.2.mono hevolves⟩, fun _ hv => Fits.mono hv hevolves⟩

theorem typing_leads_alloc (h : typing.holds f w) {c : Cell} (hc : Typed w c) :
    typing.Leads f w (w.alloc c).2 :=
  typing_leads (h.1.alloc hc) h (World.evolves_of_extends (w.extends_alloc c))

theorem typing_leads_set (h : typing.holds f w) {c c' : Cell} (hr : w.get? r = some c)
    (hkind : Cell.SameKind c c') (hc' : Typed w c') : typing.Leads f w (w.set r c') :=
  typing_leads (h.1.set hr hkind hc') h (World.evolves_set hr hkind)

theorem WellTyped.fits_contents (hw : WellTyped w) (hv : Fits w v)
    (hu : u ∈ w.contents v) : Fits w u := by
  cases hown : v.own? with
  | none =>
      cases v with
      | tuple vs => exact fits_tuple_iff.1 hv u hu
      | _ => simp_all [World.contents]
  | some r =>
      cases hc : w.get? r with
      | none => exact absurd hu (by simp [World.contents_of_own_none hown hc])
      | some c =>
          rw [World.contents_of_own hown hc] at hu
          exact (hw r c hc).fits u hu

theorem typing_adopt (h : typing.holds f w) (hv : Fits w v) :
    typing.Leads f w (w.adopt v).2 ∧ Fits (w.adopt v).2 (w.adopt v).1 := by
  rcases w.adopt_cases v with hsame | ⟨width, n, rfl, hnew⟩
  · rw [hsame]
    exact ⟨.refl h, hv⟩
  · rw [hnew]
    have hcell : Typed w (.record (.ofWidth width) []) := by
      refine ⟨by simp [Cell.values], fun cls as hcls => .inr (.inr ⟨width, ?_⟩)⟩
      exact (Cell.record.inj hcls).1.symm
    exact ⟨typing_leads_alloc h hcell, fits_sized (World.get?_alloc_self w _)⟩

theorem typing_lawful [Host] : typing.Lawful catalog where
  plain _ hv := fits_of_plain hv
  choice _ hs := by
    obtain ⟨rfl, hs⟩ := species_of_isSome hs
    exact fits_species hs
  tuple _ hvs := fits_tuple_iff.2 hvs
  contents h hv hu := h.1.fits_contents (hv.elim (fun hv => hv ▸ h.2) id) hu
  adopt h hv := typing_adopt h hv
  enter h hv := ⟨h.1, hv.elim (fun hv => hv ▸ h.2) id⟩
  leave h _ hleads :=
    ⟨⟨⟨hleads.holds.1, hleads.keeps _ h.2⟩, hleads.keeps⟩, fun _ hu => hu⟩

theorem typed_list {items : List Value} (h : ∀ v ∈ items, Fits w v) :
    Typed w (.list items) :=
  typed_collection (by simp) h

theorem typed_table {frozen : Bool} {entries : List (Value × Value)}
    (h : ∀ e ∈ entries, Fits w e.1 ∧ Fits w e.2) : Typed w (.table frozen entries) :=
  typed_collection (by simp) (Cell.forall_values_table _ h)

/-- An attribute may be set if the instance is still typed then. -/
theorem typing_leads_attribute (h : typing.holds f w) {cls : ClassName}
    {as : List (String × Value)} (hr : w.get? r = some (.record cls as)) {name : String}
    (hv : Fits w v) (hinstance : Instance w cls (setAttribute name v as)) :
    typing.Leads f w (w.set r (.record cls (setAttribute name v as))) := by
  refine typing_leads_set h hr (.record ..) ⟨?_, fun cls' as' hc => ?_⟩
  · exact Cell.forall_values_setAttribute (h.1 r _ hr).fits hv name
  · obtain ⟨rfl, rfl⟩ := Cell.record.inj hc
    exact hinstance

theorem typing_builds : typing.Builds where
  makesLists h hitems :=
    ⟨typing_leads_alloc h (typed_list hitems), fits_object (World.get?_alloc_self ..)⟩
  makesTable h hentries :=
    ⟨typing_leads_alloc h (typed_table hentries), fits_object (World.get?_alloc_self ..)⟩
  fillsList h _ hr hitems := typing_leads_set h hr (.list ..) (typed_list hitems)
  fillsTable h _ hr hentries := typing_leads_set h hr (.table ..) (typed_table hentries)
  marks {f w width name v} h hclass hv := by
    rcases w.setOwn_cases f.context name v with hsame | ⟨r, cls, as, hr, hcontext, hset⟩
    · rw [hsame]
      exact .refl h
    · have hcls : ∃ width, cls = .ofWidth width := by
        rcases hcontext with hcontext | ⟨width', n, hcontext⟩
        · rw [hcontext, World.classOf, hr] at hclass
          exact ⟨width, hclass⟩
        · obtain ⟨as', has'⟩ := h.2.sized width' n r (by rw [hcontext]; exact .self _)
          rw [hr] at has'
          exact ⟨width', (Cell.record.inj (Option.some.inj has')).1⟩
      rw [hset]
      exact typing_leads_attribute h hr hv (.inr (.inr hcls))

/-! ### What fitting gives -/

def slotClasses : List ClassName := [.core "str", speciesName, petName]

theorem ofWidth_notMem_slotClasses (width : Width) : .ofWidth width ∉ slotClasses := by
  cases width <;> decide

/-- A value of one of those classes. -/
theorem value_of_class (hw : WellTyped w) (hv : Fits w v) (hclass : w.classOf v ∈ slotClasses) :
    (w.classOf v = .core "str" ∧ ∃ s, v = .text s) ∨
      (w.classOf v = speciesName ∧ IsSpecies v) ∨ (w.classOf v = petName ∧ IsPet w v) := by
  have hnot {d : ClassName} (hd : d ∉ slotClasses) (h : w.classOf v = d) : False :=
    hd (h ▸ hclass)
  cases hvalue : v with
  | text s => exact .inl ⟨rfl, s, rfl⟩
  | choice c s =>
      rw [hvalue] at hv
      obtain ⟨rfl, hs⟩ := hv.choice c s (.self _)
      exact .inr (.inl ⟨rfl, s, rfl, hs⟩)
  | sized width n own =>
      exact absurd (by rw [hvalue]; rfl) (hnot (ofWidth_notMem_slotClasses width))
  | object r =>
      rw [hvalue] at hv hnot
      obtain ⟨c, hc⟩ := hv.object r (.self _)
      cases c with
      | list items =>
          exact absurd (by rw [World.classOf, hc]) (hnot (d := .core "list") (by decide))
      | table frozen entries =>
          cases frozen with
          | true =>
              exact absurd (by rw [World.classOf, hc]; rfl)
                (hnot (d := .core "mappingproxy") (by decide))
          | false =>
              exact absurd (by rw [World.classOf, hc]; rfl)
                (hnot (d := .core "dict") (by decide))
      | record cls as =>
          have hcls : w.classOf (.object r) = cls := by rw [World.classOf, hc]
          rcases (hw r _ hc).record cls as rfl with ⟨rfl, -⟩ | ⟨rfl, -⟩ | ⟨width, rfl⟩
          · exact absurd hcls (hnot (by decide))
          · exact .inr (.inr ⟨hcls, r, as, rfl, hc⟩)
          · exact absurd hcls (hnot (ofWidth_notMem_slotClasses width))
  | null => exact absurd (by rw [hvalue]; rfl) (hnot (d := .core "NoneType") (by decide))
  | bool b => exact absurd (by rw [hvalue]; rfl) (hnot (d := .core "bool") (by decide))
  | int n => exact absurd (by rw [hvalue]; rfl) (hnot (d := .core "int") (by decide))
  | float x => exact absurd (by rw [hvalue]; rfl) (hnot (d := .core "float") (by decide))
  | bytes data => exact absurd (by rw [hvalue]; rfl) (hnot (d := .core "bytes") (by decide))
  | tuple vs => exact absurd (by rw [hvalue]; rfl) (hnot (d := .core "tuple") (by decide))

section

variable [Host]

theorem kind_of_coerceClass (hw : WellTyped w) (hv : Fits w v) {c : ClassName}
    (hc : c ∈ slotClasses)
    (h : catalog.coerceClass w v c = .ok u) :
    (c = .core "str" ∧ ∃ s, u = .text s) ∨ (c = speciesName ∧ IsSpecies u) ∨
      (c = petName ∧ IsPet w u) := by
  unfold Outlines.coerceClass at h
  split at h
  · next s _ _ =>
      split at h
      · next hs =>
          obtain ⟨rfl, hs⟩ := species_of_isSome hs
          exact .inr (.inl ⟨rfl, s, (Except.ok.inj h).symm, hs⟩)
      · exact absurd h Outlines.refuse_ne_ok
  · unfold Outlines.coerceInstance at h
    split at h
    · next hinstance =>
        obtain rfl := Except.ok.inj h
        obtain rfl := eq_of_descendsFrom hinstance hc
        exact value_of_class hw hv hc
    · exact absurd h Outlines.refuse_ne_ok

theorem kind_of_coerce_cls (hw : WellTyped w) (hv : Fits w v) {c : ClassName}
    (hc : c ∈ slotClasses)
    (h : catalog.coerce w v (.cls c) = .ok u) :
    (c = .core "str" ∧ ∃ s, u = .text s) ∨ (c = speciesName ∧ IsSpecies u) ∨
      (c = petName ∧ IsPet w u) := by
  rw [Outlines.coerce] at h
  split at h
  · exact absurd h Outlines.refuse_ne_ok
  · exact kind_of_coerceClass hw hv hc h

theorem text_of_coerce (hw : WellTyped w) (hv : Fits w v)
    (h : catalog.coerce w v .text = .ok u) : ∃ s, u = .text s := by
  rcases kind_of_coerce_cls hw hv (by decide) h with ⟨-, hs⟩ | ⟨hne, -⟩ | ⟨hne, -⟩
  · exact hs
  · exact absurd hne (by decide)
  · exact absurd hne (by decide)

theorem species_of_coerce (hw : WellTyped w) (hv : Fits w v)
    (h : catalog.coerce w v (.cls speciesName) = .ok u) : IsSpecies u := by
  rcases kind_of_coerce_cls hw hv (by decide) h with ⟨hne, -⟩ | ⟨-, hs⟩ | ⟨hne, -⟩
  · exact absurd hne (by decide)
  · exact hs
  · exact absurd hne (by decide)

theorem pet_of_coerce (hw : WellTyped w) (hv : Fits w v)
    (h : catalog.coerce w v (.union .spelled [.cls petName, .nullType]) = .ok u) :
    u = .null ∨ IsPet w u := by
  rw [Outlines.coerce] at h
  split at h
  · next hnull =>
      obtain rfl : v = u := by simpa [SlotType.isNullable, SlotType.isNullType] using h
      cases v <;> simp_all [Value.isNull]
  · rw [Outlines.coerceArms, if_neg (by simp [SlotType.isNullType])] at h
    split at h
    · next hpet =>
        obtain rfl := Except.ok.inj h
        rcases kind_of_coerce_cls hw hv (by decide) hpet with ⟨hne, -⟩ | ⟨hne, -⟩ | ⟨-, hpet⟩
        · exact absurd hne (by decide)
        · exact absurd hne (by decide)
        · exact .inr hpet
    · exact absurd h (by simp)
    · rw [Outlines.coerceArms, if_pos (by rfl), Outlines.coerceArms] at h
      exact absurd h Outlines.refuse_ne_ok

theorem float_of_coerce (h : catalog.coerce w v .float = .ok u) : ∃ x, u = .float x := by
  rw [Outlines.coerce] at h
  unfold Outlines.coerceFloat at h
  split at h
  · exact ⟨_, (Except.ok.inj h).symm⟩
  · split at h
    · exact ⟨_, (Except.ok.inj h).symm⟩
    · exact absurd h (by simp)
  · split at h
    · exact ⟨_, (Except.ok.inj h).symm⟩
    · exact absurd h (by simp)
  · exact absurd h Outlines.refuse_ne_ok

theorem int_of_coerce (h : catalog.coerce w v .int = .ok u) : ∃ n, u = .int n := by
  rw [Outlines.coerce, Outlines.coerceInt] at h
  split at h
  · exact ⟨_, (Except.ok.inj h).symm⟩
  · exact absurd h Outlines.refuse_ne_ok

end

/-! ### Instances -/

/-- An attribute of a person is set to a value that its slot takes. -/
theorem typing_leads_person (h : typing.holds f w) (hcontext : f.context = .object r)
    {as : List (String × Value)} (hr : w.get? r = some (.record personName as)) {name : String}
    (hname : name ∈ personNames) (hv : Fits w v) (hslot : personSlot w name v) :
    typing.Leads f w (w.setOwn f.context name v) := by
  rw [hcontext, World.setOwn, hr]
  exact typing_leads_attribute h hr hv (.inl ⟨rfl, (h.1.person hr).setAttribute hname hslot⟩)

/-- An attribute of a pet is set to a value that its slot takes. -/
theorem typing_leads_pet (h : typing.holds f w) (hcontext : f.context = .object r)
    {as : List (String × Value)} (hr : w.get? r = some (.record petName as)) {name : String}
    (hname : name ∈ petNames) (hv : Fits w v) (hslot : petSlot name v) :
    typing.Leads f w (w.setOwn f.context name v) := by
  rw [hcontext, World.setOwn, hr]
  exact typing_leads_attribute h hr hv
    (.inr (.inl ⟨rfl, (h.1.pet hr).setAttribute hname hslot⟩))

section

variable [Host]

theorem properties_person {as : List (String × Value)}
    (hr : w.get? r = some (.record personName as)) (hnames : as.map (·.1) = personNames) :
    (catalog.properties w (.object r)).map (fun p => (p.name, p.type)) =
      [("name", .text), ("weight", .float), ("length", .float),
        ("pet", .union .spelled [.cls petName, .nullType]),
        ("friends", .generic .capital (.core "list") [.cls personName])] := by
  have htable : w.table? (.object r) = none := by rw [World.table?, hr]
  have hclass : catalog.classOf w (.object r) = ⟨personOutline, [personBody]⟩ := by
    rw [Catalog.classOf, World.classOf, hr]
    rfl
  have hattributes : w.attributes (.object r) = as := by rw [World.attributes, hr]
  rw [Catalog.properties, htable, Catalog.subject, hclass, hattributes, hnames]
  rfl

theorem properties_pet {as : List (String × Value)}
    (hr : w.get? r = some (.record petName as)) (hnames : as.map (·.1) = petNames) :
    (catalog.properties w (.object r)).map (fun p => (p.name, p.type)) =
      [("name", .text), ("species", .cls speciesName), ("age", .int)] := by
  have htable : w.table? (.object r) = none := by rw [World.table?, hr]
  have hclass : catalog.classOf w (.object r) = ⟨petOutline, [petBody]⟩ := by
    rw [Catalog.classOf, World.classOf, hr]
    rfl
  have hattributes : w.attributes (.object r) = as := by rw [World.attributes, hr]
  rw [Catalog.properties, htable, Catalog.subject, hclass, hattributes, hnames]
  rfl

theorem mem_of_findProperty? {label : String} {p : PropertyInfo}
    (h : catalog.findProperty? w v label = some p) :
    (p.name, p.type) ∈ (catalog.properties w v).map fun p => (p.name, p.type) :=
  List.mem_map_of_mem (f := fun p : PropertyInfo => (p.name, p.type))
    (List.mem_of_find?_eq_some h)

/-- A person is assigned to through an accessor. -/
theorem typing_assign_accessor (h : typing.holds f w) (hcontext : f.context = .object r)
    {as : List (String × Value)} (hr : w.get? r = some (.record personName as)) {name : String}
    {a : Accessor}
    (hmember : ClassDef.member? ⟨personOutline, [personBody]⟩ name = some (.accessor a))
    (hcached : a.cached = false)
    (hset : ∀ setter, a.set = some setter →
      typing.Keeps f (fun _ => True) (fun _ _ => True) (setter f.context v) w) :
    typing.Keeps f (fun _ => True) (fun _ _ => True) (catalog.assign f.context name v) w := by
  have hclass : catalog.classOf w f.context = ⟨personOutline, [personBody]⟩ := by
    rw [hcontext, Catalog.classOf, World.classOf, hr]
    rfl
  refine Discipline.keeps_assign h (fun m hm => ?_) fun hall => ?_
  · rw [hclass, hmember] at hm
    obtain rfl := Option.some.inj hm
    exact hset
  · have htrue := hall a (by rw [hclass, hmember])
    exact absurd htrue (by simp [hcached])

omit [Host] in
theorem typing_setWeight (h : typing.holds f w) (hcontext : f.context = .object r)
    {as : List (String × Value)} (hr : w.get? r = some (.record personName as)) (x : Float) :
    typing.Keeps f (fun _ => True) (fun _ _ => True) (setWeight f.context (.float x)) w := by
  simp only [setWeight, Value.number?]
  split
  · exact Discipline.keeps_throw h trivial
  · next hpositive =>
      simp only [Bool.or_eq_true, not_or, Bool.not_eq_true] at hpositive
      exact Discipline.keeps_modify (typing_leads_person h hcontext hr (by decide)
        (fits_of_plain rfl) ⟨x, rfl, hpositive⟩) trivial

/-- Assigning to a property of a person puts into a slot what the slot takes. -/
theorem typing_assign_person (h : typing.holds f w) (hcontext : f.context = .object r)
    {as : List (String × Value)} (hr : w.get? r = some (.record personName as)) {label : String}
    {p : PropertyInfo} (hp : catalog.findProperty? w f.context label = some p) (hv : Fits w v)
    (hu : catalog.coerce w v p.type = .ok u) :
    typing.Keeps f (fun _ => True) (fun _ _ => True)
      (catalog.assign f.context p.name (w.adopt u).1) (w.adopt u).2 := by
  have hmem := mem_of_findProperty? hp
  rw [hcontext, properties_person hr (h.1.person hr).names] at hmem
  have hslot {name : String} {u : Value} (hname : name ∈ personNames) (hu : Fits w u)
      (hslot : personSlot w name u) :
      typing.Keeps f (fun _ => True) (fun _ _ => True) (Act.assign f.context name u) w :=
    Discipline.keeps_modify (typing_leads_person h hcontext hr hname hu hslot) trivial
  simp only [List.mem_cons, List.not_mem_nil, or_false] at hmem
  rcases hmem with hmem | hmem | hmem | hmem | hmem <;>
    obtain ⟨hname, htype⟩ := Prod.mk.inj hmem <;> rw [hname] <;> rw [htype] at hu
  · obtain ⟨s, rfl⟩ := text_of_coerce h.1 hv hu
    refine typing_assign_accessor h hcontext hr rfl rfl fun setter hsetter => ?_
    obtain rfl := Option.some.inj hsetter
    exact hslot (by decide) (fits_of_plain rfl) ⟨s, rfl⟩
  · obtain ⟨x, rfl⟩ := float_of_coerce hu
    refine typing_assign_accessor h hcontext hr rfl rfl fun setter hsetter => ?_
    obtain rfl := Option.some.inj hsetter
    exact typing_setWeight h hcontext hr x
  · obtain ⟨x, rfl⟩ := float_of_coerce hu
    refine typing_assign_accessor h hcontext hr rfl rfl fun setter hsetter => ?_
    obtain rfl := Option.some.inj hsetter
    exact hslot (by decide) (fits_of_plain rfl) ⟨x, rfl⟩
  · rcases pet_of_coerce h.1 hv hu with rfl | ⟨r', as', rfl, hpet⟩
    · refine typing_assign_accessor h hcontext hr rfl rfl fun setter hsetter => ?_
      obtain rfl := Option.some.inj hsetter
      exact hslot (by decide) (fits_of_plain rfl) (.inl rfl)
    · refine typing_assign_accessor h hcontext hr rfl rfl fun setter hsetter => ?_
      obtain rfl := Option.some.inj hsetter
      exact hslot (by decide) (fits_object hpet) (.inr ⟨r', as', rfl, hpet⟩)
  · -- the friends have no setter
    have hfits := typing_lawful.knows_of_fittedFrom h hv (Outlines.fittedFrom_coerce _ hu)
    exact typing_assign_accessor (typing_adopt h hfits).1.holds hcontext
      (w.extends_adopt u r _ hr) rfl rfl fun setter hsetter => absurd hsetter (by simp)

/-- Assigning to a property of a pet puts into a slot what the slot takes. -/
theorem typing_assign_pet (h : typing.holds f w) (hcontext : f.context = .object r)
    {as : List (String × Value)} (hr : w.get? r = some (.record petName as)) {label : String}
    {p : PropertyInfo} (hp : catalog.findProperty? w f.context label = some p) (hv : Fits w v)
    (hu : catalog.coerce w v p.type = .ok u) :
    typing.Keeps f (fun _ => True) (fun _ _ => True)
      (catalog.assign f.context p.name (w.adopt u).1) (w.adopt u).2 := by
  have hmem := mem_of_findProperty? hp
  rw [hcontext, properties_pet hr (h.1.pet hr).names] at hmem
  have hclass : catalog.classOf w f.context = ⟨petOutline, [petBody]⟩ := by
    rw [hcontext, Catalog.classOf, World.classOf, hr]
    rfl
  have hslot {name : String} {u : Value} (hname : name ∈ petNames)
      (hu : Fits w u) (hslot : petSlot name u) :
      typing.Keeps f (fun _ => True) (fun _ _ => True) (catalog.assign f.context name u) w := by
    refine Discipline.keeps_assign h (fun m hm => ?_) fun _ =>
      typing_leads_pet h hcontext hr hname hu hslot
    have hmember := Catalog.mem_of_member? hm
    cases m with
    | accessor a =>
        exact absurd hmember (by simp [Subject.members, Catalog.subject, hclass, petBody])
    | _ => trivial
  simp only [List.mem_cons, List.not_mem_nil, or_false] at hmem
  rcases hmem with hmem | hmem | hmem <;>
    obtain ⟨hname, htype⟩ := Prod.mk.inj hmem <;> rw [hname] <;> rw [htype] at hu
  · obtain ⟨s, rfl⟩ := text_of_coerce h.1 hv hu
    exact hslot (by decide) (fits_of_plain rfl) ⟨s, rfl⟩
  · obtain ⟨s, rfl, hs⟩ := species_of_coerce h.1 hv hu
    exact hslot (by decide) (fits_species hs) ⟨s, rfl, hs⟩
  · obtain ⟨n, rfl⟩ := int_of_coerce hu
    exact hslot (by decide) (fits_of_plain rfl) ⟨n, rfl⟩

end

end ObjectConsole.Sample
