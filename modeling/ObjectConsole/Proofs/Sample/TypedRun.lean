import ObjectConsole.Proofs.Sample.Slots

/-!
Typed slots in every run. Adopting a pet and adding a friend keep the world well
typed, and so does all else that members do. The demonstration is built well
typed, and it stays so whatever lines are run.
-/

namespace ObjectConsole.Sample

open Builtin

variable {w w' : World} {v u : Value} {r : Ref} {f : Visit}

/-! ### Methods of persons -/

def IsPerson (w : World) (v : Value) : Prop :=
  ∃ r as, v = .object r ∧ w.get? r = some (.record personName as)

theorem IsPerson.mono (h : IsPerson w v) (hw : w.Evolves w') : IsPerson w' v := by
  obtain ⟨r, as, rfl, hr⟩ := h
  obtain ⟨as', hr'⟩ := hw.record hr
  exact ⟨r, as', rfl, hr'⟩

theorem IsPerson.fits (h : IsPerson w v) : Fits w v := by
  obtain ⟨r, as, rfl, hr⟩ := h
  exact fits_object hr

/-- Adding a friend makes the list of friends longer, and changes nothing
else. -/
theorem appendOwn_friends (hw : WellTyped w) (hv : IsPerson w v) (hu : Fits w u) :
    ∃ n w', appendOwn v "_friends" u w = .ok (.int n) w' ∧ WellTyped w' ∧ w.Evolves w' := by
  obtain ⟨r, as, rfl, hr⟩ := hv
  obtain ⟨list, hlookup, s, items, rfl, hs⟩ :=
    (hw.person hr).lookup (show "_friends" ∈ personNames by decide)
  have hall : ∀ x ∈ items ++ [u], Fits w x := by
    intro x hx
    rcases List.mem_append.1 hx with hx | hx
    · exact (hw s _ hs).fits x hx
    · rwa [List.mem_singleton.1 hx]
  refine ⟨items.length + 1, w.set s (.list (items ++ [u])), ?_, hw.set hs (.list ..)
    (typed_list hall), World.evolves_set hs (.list ..)⟩
  have hown : Act.own (.object r) "_friends" w = .ok (.object s) w := by
    change EStateM.Result.ok (((w.attributes (.object r)).lookup "_friends").getD .null) w = _
    rw [World.attributes, hr, hlookup]
    rfl
  have hitems : itemsOf (.object s) w = .ok items w := by
    change EStateM.Result.ok ((w.items? (.object s)).getD []) w = _
    rw [World.items?, hs]
    rfl
  simp only [appendOwn, bind, EStateM.bind, hown, hitems]
  rfl

theorem typed_newPet {name kind : Value} (hname : ∃ s, name = .text s) (hkind : IsSpecies kind)
    (age : Int) :
    Typed w (.record petName [("name", name), ("species", kind), ("age", .int age)]) := by
  obtain ⟨s, rfl⟩ := hname
  obtain ⟨k, rfl, hk⟩ := hkind
  refine ⟨?_, ?_⟩
  · simp only [Cell.values, List.map_cons, List.map_nil, List.forall_mem_cons]
    exact ⟨fits_of_plain rfl, fits_species hk, fits_of_plain rfl, by simp⟩
  · intro cls as hc
    obtain ⟨rfl, rfl⟩ := Cell.record.inj hc
    refine .inr (.inl ⟨rfl, rfl, ?_⟩)
    simp only [List.forall_mem_cons]
    exact ⟨⟨s, rfl⟩, ⟨k, rfl, hk⟩, ⟨age, rfl⟩, by simp⟩

/-- Adopting makes a typed pet, which the person then has. -/
theorem typing_adoptPet (h : typing.holds f w) (hcontext : f.context = .object r)
    {as : List (String × Value)} (hr : w.get? r = some (.record personName as)) {m : Method}
    (hm : personBody.members.lookup "adopt" = some (.method m)) {name kind : Value}
    (hname : ∃ s, name = .text s) (hkind : IsSpecies kind) :
    typing.Keeps f (fun _ => True) (typing.knows f) (m.run f.context [name, kind]) w := by
  obtain rfl := Member.method.inj (Option.some.inj hm)
  have hleads := typing_leads_alloc h (typed_newPet hname hkind 0)
  have hpet := World.get?_alloc_self w
    (.record petName [("name", name), ("species", kind), ("age", .int 0)])
  have halloc : typing.Keeps f (fun _ => True)
      (fun w' pet => IsPet w' pet ∧ w'.get? r = some (.record personName as))
      (Act.alloc (.record petName [("name", name), ("species", kind), ("age", .int 0)])) w :=
    ⟨hleads, ⟨_, _, rfl, hpet⟩, w.extends_alloc _ r _ hr⟩
  refine halloc.bind ?_
  rintro _ w₁ hw₁ ⟨⟨p, as', rfl, hp⟩, hr₁⟩
  have hassign := typing_leads_person hw₁.holds hcontext hr₁
    (show "_pet" ∈ personNames by decide) (fits_object hp) (.inr ⟨p, as', rfl, hp⟩)
  exact (Discipline.keeps_modify (Q := fun w' _ => typing.knows f w' (.object p)) hassign
    (hassign.keeps _ (fits_object hp))).bind
    fun _ _ hw₂ hu => Discipline.keeps_pure hw₂.holds hu

/-! ### All members -/

theorem typing_print (h : typing.holds f w) (line : String) :
    typing.Leads f w (w.print line) := by
  have hevolves : w.Evolves (w.print line) := World.evolves_of_extends fun r c hc => hc
  exact typing_leads (fun r c hc => (h.1 r c hc).mono hevolves) h hevolves

theorem coerce_of_fitArgument [Host] {p : ParamInfo} (hnull : p.nullable = false)
    (h : catalog.fitArgument w v p = .ok u) : catalog.coerce w v p.type = .ok u := by
  rw [Catalog.fitArgument, hnull] at h
  split at h
  · exact absurd h (by simp)
  · exact h

/-- The pet's name and kind are fitted to the parameters, before they are given
to the method. -/
theorem typing_obeys_adopt [Host] (h : typing.holds f w) (hcontext : f.context = .object r)
    {as : List (String × Value)} (hr : w.get? r = some (.record personName as)) {m : Member}
    (hm : personBody.members.lookup "adopt" = some m) : typing.Obeys catalog f w m := by
  obtain ⟨method, rfl⟩ : ∃ method, m = .method method := ⟨_, (Option.some.inj hm).symm⟩
  intro params given fitted hparams hcount hgiven hfit
  have hboth : params = [{ name := "name", type := .text },
      { name := "species", type := .cls speciesName, default := some (species "DOG") }] := by
    obtain rfl := Member.method.inj (Option.some.inj hm)
    exact (Option.some.inj hparams).symm
  subst hboth
  cases given with
  | nil => exact absurd hcount (by simp [Param.isOptional])
  | cons name given =>
      obtain ⟨u, us, rfl, hname, hrest⟩ := Catalog.fitArguments_cons hfit
      obtain ⟨s, rfl⟩ := text_of_coerce h.1 (hgiven name (by simp))
        (coerce_of_fitArgument rfl hname)
      cases given with
      | nil =>
          obtain rfl := Catalog.fitArguments_eq_nil hrest (.inl rfl)
          exact typing_adoptPet h hcontext hr hm ⟨s, rfl⟩ ⟨"DOG", rfl, rfl⟩
      | cons kind given =>
          obtain ⟨u, us, rfl, hkind, hnone⟩ := Catalog.fitArguments_cons hrest
          obtain ⟨k, rfl, hk⟩ := species_of_coerce h.1 (hgiven kind (by simp))
            (coerce_of_fitArgument rfl hkind)
          obtain rfl := Catalog.fitArguments_eq_nil hnone (.inr rfl)
          exact typing_adoptPet h hcontext hr hm ⟨s, rfl⟩ ⟨k, rfl, hk⟩

theorem typing_value_cases (h : typing.holds f w) :
    IsBuiltin w f.context ∨ (∃ s, f.context = species s) ∨
      (∃ r as, f.context = .object r ∧ w.get? r = some (.record personName as)) ∨
      ∃ r as, f.context = .object r ∧ w.get? r = some (.record petName as) := by
  refine value_cases (fun c s hc => ?_) fun r cls as _ hr => ?_
  · exact (h.2.choice c s (hc ▸ .self _)).1
  · rcases (h.1 r _ hr).record cls as rfl with ⟨hcls, -⟩ | ⟨hcls, -⟩ | hcls
    · exact .inl hcls
    · exact .inr (.inl hcls)
    · exact .inr (.inr hcls)

theorem typing_conduct [Host] : typing.Conduct catalog where
  obeys {f w name m} h hm := by
    rcases typing_value_cases h with hbuiltin | ⟨s, hs⟩ | ⟨r, as, hcontext, hr⟩ |
      ⟨r, as, hcontext, hr⟩
    · exact typing_lawful.obeys_builtin typing_builds h hbuiltin hm
    · exact typing_lawful.obeys_species h hs hm
    · rw [hcontext, members_person hr] at hm
      refine typing_lawful.obeys_personBody (fun h line => typing_print h line) h ?_ ?_ _ hm
      · intro m hm
        obtain rfl := Option.some.inj hm
        refine typing_lawful.obeys_plainMethod h (fun w' args hw' hext hargs => ?_) rfl
        obtain ⟨n, w'', happend, hw'', hevolves⟩ := appendOwn_friends hw'.holds.1
          ⟨r, as, hcontext, hext r _ hr⟩ (typing_lawful.knows_arg hw'.holds hargs 0)
        simp only [Discipline.Keeps, happend]
        exact ⟨typing_leads hw'' hw'.holds hevolves, fits_of_plain rfl⟩
      · exact fun m hm => typing_obeys_adopt h hcontext hr hm
    · rw [hcontext, members_pet hr] at hm
      exact typing_lawful.obeys_petBody h _ hm
  assign {f w label p v u} h _ hp hv hu := by
    have hfits := typing_lawful.knows_of_fittedFrom h hv (Outlines.fittedFrom_coerce _ hu)
    obtain ⟨hleads, hstored⟩ := typing_adopt h hfits
    rcases typing_value_cases h with hbuiltin | ⟨s, hs⟩ | ⟨r, as, hcontext, hr⟩ |
      ⟨r, as, hcontext, hr⟩
    · have hvalid : ∀ r, f.context = .object r → ∃ c, w.get? r = some c := fun r hr =>
        h.2.object r (hr ▸ .self _)
      exact typing_builds.keeps_assign hleads.holds (hbuiltin.mono hvalid (w.extends_adopt u))
        hstored
    · exact Discipline.keeps_assign_species hleads.holds hs
    · exact typing_assign_person h hcontext hr hp hv hu
    · exact typing_assign_pet h hcontext hr hp hv hu
  insert h hcontext hr hentries := typing_builds.fillsTable h hcontext hr hentries

/-! ### The demonstration -/

theorem newPet_spec (hw : WellTyped w) (name : String) {kind : String}
    (hkind : (speciesOutline.choices.lookup kind).isSome) (age : Int) :
    ∃ pet w', newPet name kind age w = .ok pet w' ∧ WellTyped w' ∧ w.Extends w' ∧
      IsPet w' pet :=
  have hcell := typed_newPet ⟨name, rfl⟩ ⟨kind, rfl, hkind⟩ age
  ⟨_, _, rfl, hw.alloc hcell, w.extends_alloc _, _, _, rfl, World.get?_alloc_self w _⟩

theorem newPerson_spec (hw : WellTyped w) (name : String) (length weight : Float)
    (hweight : IsWeight (.float weight)) {pet : Value} (hpet : pet = .null ∨ IsPet w pet) :
    ∃ person w', newPerson name length weight pet w = .ok person w' ∧ WellTyped w' ∧
      w.Extends w' ∧ IsPerson w' person := by
  have hlist := hw.alloc (typed_list (show ∀ v ∈ [], Fits w v by simp))
  have hext := w.extends_alloc (.list [])
  have hfriends := World.get?_alloc_self w (.list [])
  have hpetFits : Fits (w.alloc (.list [])).2 pet := by
    rcases hpet with rfl | ⟨r, as, rfl, hr⟩
    · exact fits_of_plain rfl
    · exact fits_object (hext r _ hr)
  have hpet' := hpet.imp_right fun hpet => hpet.mono (World.evolves_of_extends hext)
  have hcell : Typed (w.alloc (.list [])).2 (.record personName
      [("_name", .text name), ("_length", .float length), ("_weight", .float weight),
        ("_pet", pet), ("_friends", .object (w.alloc (.list [])).1)]) := by
    refine ⟨?_, ?_⟩
    · simp only [Cell.values, List.map_cons, List.map_nil, List.forall_mem_cons]
      exact ⟨fits_of_plain rfl, fits_of_plain rfl, fits_of_plain rfl, hpetFits,
        fits_object hfriends, by simp⟩
    · intro cls as hc
      obtain ⟨rfl, rfl⟩ := Cell.record.inj hc
      refine .inl ⟨rfl, rfl, ?_⟩
      simp only [List.forall_mem_cons]
      exact ⟨⟨name, rfl⟩, ⟨length, rfl⟩, hweight, hpet', ⟨_, _, rfl, hfriends⟩, by simp⟩
  exact ⟨_, _, rfl, hlist.alloc hcell, hext.trans (World.extends_alloc _ _), _, _, rfl,
    World.get?_alloc_self _ _⟩

/-- The demonstration person can be made in every well typed world, which stays
well typed. -/
theorem demoPerson_person (hw : WellTyped w) :
    ∃ bart w', demoPerson w = .ok bart w' ∧ WellTyped w' ∧ IsPerson w' bart := by
  obtain ⟨rex, w₁, hrex, hw₁, -, hrexPet⟩ := newPet_spec hw "Rex"
    (show (speciesOutline.choices.lookup "DOG").isSome from rfl) 4
  obtain ⟨bart, w₂, hbart, hw₂, -, hbartPerson⟩ := newPerson_spec hw₁ "Bart" 1.8 83.2
    ⟨83.2, rfl, by decide⟩ (.inr hrexPet)
  obtain ⟨snowball, w₃, hsnowball, hw₃, hext₃, hsnowballPet⟩ :=
    newPet_spec hw₂ "Snowball" (show (speciesOutline.choices.lookup "CAT").isSome from rfl) 2
  obtain ⟨lisa, w₄, hlisa, hw₄, hext₄, hlisaPerson⟩ := newPerson_spec hw₃ "Lisa" 1.4 35
    ⟨35, rfl, by decide⟩ (.inr hsnowballPet)
  have hbart₄ := hbartPerson.mono (World.evolves_of_extends (hext₃.trans hext₄))
  obtain ⟨m, w₅, hadd₅, hw₅, hevolves₅⟩ := appendOwn_friends hw₄ hbart₄ hlisaPerson.fits
  obtain ⟨milhouse, w₆, hmilhouse, hw₆, hext₆, hmilhousePerson⟩ :=
    newPerson_spec hw₅ "Milhouse" 1.45 38.5 ⟨38.5, rfl, by decide⟩ (.inl rfl)
  have hbart₆ := (hbart₄.mono hevolves₅).mono (World.evolves_of_extends hext₆)
  obtain ⟨n, w₇, hadd₇, hw₇, hevolves₇⟩ := appendOwn_friends hw₆ hbart₆ hmilhousePerson.fits
  refine ⟨bart, w₇, ?_, hw₇, hbart₆.mono hevolves₇⟩
  simp only [demoPerson, bind, EStateM.bind, hrex, hbart, hsnowball, hlisa, hadd₅, hmilhouse,
    hadd₇]
  rfl

theorem demoPerson_spec (hw : WellTyped w) :
    ∃ bart w', demoPerson w = .ok bart w' ∧ WellTyped w' ∧ Fits w' bart := by
  obtain ⟨bart, w', hbart, hw', hperson⟩ := demoPerson_person hw
  exact ⟨bart, w', hbart, hw', hperson.fits⟩

structure PersonSlots (w : World) (as : List (String × Value)) : Prop where
  name : ∃ s, as.lookup "_name" = some (.text s)
  length : ∃ x, as.lookup "_length" = some (.float x)
  /-- The weight is a double that is neither less than zero nor equal to it. -/
  weight : ∃ x, as.lookup "_weight" = some (.float x) ∧
    (Number.float x).less (.int 0) = false ∧ (Number.float x).equal (.int 0) = false
  pet : as.lookup "_pet" = some .null ∨
    ∃ r as', as.lookup "_pet" = some (.object r) ∧ w.get? r = some (.record petName as')

structure PetSlots (as : List (String × Value)) : Prop where
  name : ∃ s, as.lookup "name" = some (.text s)
  species : ∃ s ∈ ["DOG", "CAT", "FISH"], as.lookup "species" = some (species s)
  age : ∃ n, as.lookup "age" = some (.int n)

structure SlotsTyped (w : World) : Prop where
  person : ∀ r as, w.get? r = some (.record personName as) → PersonSlots w as
  pet : ∀ r as, w.get? r = some (.record petName as) → PetSlots as

theorem WellTyped.slotsTyped (hw : WellTyped w) : SlotsTyped w where
  person r as hr := by
    have hslots := hw.person hr
    have hlookup {name : String} (hname : name ∈ personNames) := hslots.lookup hname
    obtain ⟨_, hname, s, rfl⟩ := hlookup (show "_name" ∈ personNames by decide)
    obtain ⟨_, hlength, x, rfl⟩ := hlookup (show "_length" ∈ personNames by decide)
    obtain ⟨_, hweight, y, rfl, hpositive⟩ := hlookup (show "_weight" ∈ personNames by decide)
    obtain ⟨_, hpet, hslot⟩ := hlookup (show "_pet" ∈ personNames by decide)
    refine ⟨⟨s, hname⟩, ⟨x, hlength⟩, ⟨y, hweight, hpositive⟩, ?_⟩
    rcases hslot with rfl | ⟨r', as', rfl, hr'⟩
    · exact .inl hpet
    · exact .inr ⟨r', as', hpet, hr'⟩
  pet r as hr := by
    have hslots := hw.pet hr
    obtain ⟨_, hname, s, rfl⟩ := hslots.lookup (show "name" ∈ petNames by decide)
    obtain ⟨_, hspecies, k, rfl, hk⟩ := hslots.lookup (show "species" ∈ petNames by decide)
    obtain ⟨_, hage, n, rfl⟩ := hslots.lookup (show "age" ∈ petNames by decide)
    refine ⟨⟨s, hname⟩, ⟨k, ?_, hspecies⟩, ⟨n, hage⟩⟩
    obtain ⟨v, hv⟩ := Option.isSome_iff_exists.1 hk
    obtain ⟨l₁, l₂, hchoices, -⟩ := List.lookup_eq_some_iff.1 hv
    have hmem : k ∈ speciesOutline.choices.map (·.1) := by simp [hchoices]
    exact hmem

theorem wellTyped_empty : WellTyped World.empty :=
  fun r c hr => absurd hr (by simp [World.empty, World.get?])

theorem wellTyped_initialWorld : WellTyped initialWorld := by
  have hinteger : Typed World.empty (.record (.ofWidth .w8) []) :=
    ⟨by simp [Cell.values], fun cls as hc => .inr (.inr ⟨.w8, (Cell.record.inj hc).1.symm⟩)⟩
  exact wellTyped_empty.alloc hinteger

theorem wellTyped_demonstration : WellTyped demonstration.2 := by
  obtain ⟨bart, w, hbart, hw, -⟩ := demoPerson_spec wellTyped_empty
  rwa [demonstration, hbart]

/-- Whatever lines are run on the demonstration person, whether they succeed,
fail or navigate, all slots of persons and pets stay typed. -/
theorem slotsTyped_of_lines [Host] (lines : List (List Char)) :
    ∃ bart w, demoPerson initialWorld = .ok bart w ∧
      SlotsTyped ((Session.start bart w).runLines catalog lines).world := by
  obtain ⟨bart, w, hbart, hw, hfits⟩ := demoPerson_spec wellTyped_initialWorld
  have hA : typing.Access catalog fun _ => True :=
    typing_conduct.access typing_lawful Discipline.allowsSteps_all
  have hrun := (typing_lawful.runLines_start hA ⟨hw, hfits⟩ lines).1
  exact ⟨bart, w, hbart, hrun.holds.1.slotsTyped⟩

end ObjectConsole.Sample
