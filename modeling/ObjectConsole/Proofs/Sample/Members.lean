import ObjectConsole.Proofs.Builtin.Collection
import ObjectConsole.Sample.Catalog
import Mathlib.Tactic.ByContra

/-!
The conduct of the members of the sample classes. What the members of pets and
persons do is argued about here as far as it is the same under all disciplines:
all but adopting a pet and adding a friend, which change what a person holds.
-/

namespace ObjectConsole

open Builtin

namespace Sample

variable [Host] {w : World} {v : Value}

/-! ### Classes -/

def allOutlines : List Outline := Builtin.outlines ++ demoOutlines ++ exhibitOutlines

/-- A class of the catalog is found by its name; any other class has no more
than its name. -/
theorem find_cases (c : ClassName) :
    catalog.find c = { name := c, ancestors := [c] } ∨
      catalog.find c ∈ allOutlines ∧ (catalog.find c).name = c := by
  have hfind : catalog.find c = (allOutlines.find? fun o => o.name == c).getD
      { name := c, ancestors := [c] } := rfl
  cases ho : allOutlines.find? fun o => o.name == c with
  | none =>
      rw [hfind, ho]
      exact .inl rfl
  | some o =>
      rw [hfind, ho]
      exact .inr ⟨List.mem_of_find?_eq_some ho, by simpa using List.find?_some ho⟩

/-- Species is the only enumeration. -/
theorem choices_find (c : ClassName) :
    (catalog.find c).choices = [] ∨ c = speciesName := by
  have hall : (allOutlines.all fun o => o.choices.isEmpty || o.name == speciesName) = true := by
    decide
  rcases find_cases c with hc | ⟨hmem, hname⟩
  · rw [hc]
    exact .inl rfl
  · simpa [hname] using List.all_eq_true.1 hall _ hmem

/-- No other class descends from one of those that the slots of pets and
persons are declared with. -/
theorem eq_of_descendsFrom {c d : ClassName} (h : (catalog.find c).descendsFrom d = true)
    (hd : d ∈ [.core "str", speciesName, petName]) : c = d := by
  have hall : ([ClassName.core "str", speciesName, petName].all fun d =>
      allOutlines.all fun o => !o.descendsFrom d || o.name == d) = true := by
    decide
  rcases find_cases c with hc | ⟨hmem, hname⟩
  · rw [hc] at h
    simpa [Outline.descendsFrom, eq_comm] using h
  · have hself := List.all_eq_true.1 (List.all_eq_true.1 hall d hd) _ hmem
    simpa [h, hname] using hself

/-- A member of an enumeration is a member of species. -/
theorem species_of_isSome {c : ClassName} {s : String}
    (h : ((catalog.find c).choices.lookup s).isSome) :
    c = speciesName ∧ (speciesOutline.choices.lookup s).isSome := by
  rcases choices_find c with hnil | rfl
  · exact absurd h (by simp [hnil])
  · exact ⟨rfl, h⟩

theorem isPlain_of_lookup_choices {c : ClassName} {s : String} {v : Value}
    (h : (outlines.find c).choices.lookup s = some v) : v.isPlain = true := by
  obtain ⟨rfl, -⟩ := species_of_isSome (c := c) (s := s) (by
    rw [show catalog.find c = outlines.find c from rfl, h]
    rfl)
  have hall : ∀ e ∈ speciesOutline.choices, e.2.isPlain = true := by
    simp [speciesOutline, Value.isPlain]
  obtain ⟨l₁, l₂, hchoices, -⟩ := List.lookup_eq_some_iff.1 h
  have hmem : (s, v) ∈ speciesOutline.choices := by
    rw [show speciesOutline.choices = (outlines.find speciesName).choices from rfl, hchoices]
    simp
  exact hall _ hmem

structure IsBuiltin (w : World) (v : Value) : Prop where
  not_choice : ∀ c s, v ≠ .choice c s
  record : ∀ r cls as, v = .object r → w.get? r = some (.record cls as) →
    ∃ width, cls = .ofWidth width

omit [Host] in
theorem IsBuiltin.mono (h : IsBuiltin w v) (hv : ∀ r, v = .object r → ∃ c, w.get? r = some c)
    {w' : World} (hw : w.Extends w') : IsBuiltin w' v where
  not_choice := h.not_choice
  record r cls as hr hc := by
    obtain ⟨c, hc'⟩ := hv r hr
    obtain rfl : c = .record cls as := Option.some.inj ((hw r c hc').symm.trans hc)
    exact h.record r cls as hr hc'

inductive BuiltinLineage (w : World) : Value → List ClassBody → Prop
  | none (v : Value) : BuiltinLineage w v []
  | bool (b : Bool) :
      BuiltinLineage w (.bool b) [{ name := .core "bool", members := [] }, integerBody Host.library]
  | int (n : Int) : BuiltinLineage w (.int n) [integerBody Host.library]
  | float (x : Float) : BuiltinLineage w (.float x) [floatBody Host.library]
  | text (s : String) : BuiltinLineage w (.text s) [strBody Host.library]
  | bytes (data : List UInt8) : BuiltinLineage w (.bytes data) [bytesBody Host.library]
  | tuple (vs : List Value) : BuiltinLineage w (.tuple vs) [tupleBody outlines]
  | list {r : Ref} {items : List Value} (hc : w.get? r = some (.list items)) :
      BuiltinLineage w (.object r) [listBody outlines]
  | table {r : Ref} {entries : List (Value × Value)}
      (hc : w.get? r = some (.table false entries)) :
      BuiltinLineage w (.object r) [tableBody outlines]
  | width {v : Value} (width : Width) (hv : w.classOf v = .ofWidth width) :
      BuiltinLineage w v [widthBody width, sizedBody width, integerBody Host.library]

theorem lineage_ofWidth (width : Width) :
    catalog.lineage (.ofWidth width) =
      [widthBody width, sizedBody width, integerBody Host.library] := by
  cases width <;> rfl

theorem IsBuiltin.lineage (h : IsBuiltin w v) :
    BuiltinLineage w v (catalog.lineage (w.classOf v)) := by
  have hwidth {v : Value} {width : Width} (hv : w.classOf v = .ofWidth width) :
      BuiltinLineage w v (catalog.lineage (w.classOf v)) := by
    rw [hv, lineage_ofWidth]
    exact .width width hv
  cases v with
  | null => exact .none _
  | bool b => exact .bool b
  | int n => exact .int n
  | sized width n own => exact hwidth rfl
  | float x => exact .float x
  | text s => exact .text s
  | bytes data => exact .bytes data
  | choice c s => exact absurd rfl (h.not_choice c s)
  | tuple vs => exact .tuple vs
  | object r =>
      cases hc : w.get? r with
      | none =>
          rw [World.classOf, hc]
          exact .none _
      | some c =>
          cases c with
          | list items =>
              rw [World.classOf, hc]
              exact .list hc
          | table frozen entries =>
              rw [World.classOf, hc]
              cases frozen with
              | false => exact .table hc
              | true => exact .none _
          | record cls as =>
              obtain ⟨width, rfl⟩ := h.record r cls as rfl hc
              exact hwidth (by rw [World.classOf, hc])

omit [Host] in
/-- The values of the demonstration: built-in ones, members of species, persons
and pets. -/
theorem value_cases (hchoice : ∀ c s, v = .choice c s → c = speciesName)
    (hrecord : ∀ r cls as, v = .object r → w.get? r = some (.record cls as) →
      cls = personName ∨ cls = petName ∨ ∃ width, cls = .ofWidth width) :
    IsBuiltin w v ∨ (∃ s, v = species s) ∨
      (∃ r as, v = .object r ∧ w.get? r = some (.record personName as)) ∨
      ∃ r as, v = .object r ∧ w.get? r = some (.record petName as) := by
  by_cases hbuiltin : IsBuiltin w v
  · exact .inl hbuiltin
  refine .inr ?_
  by_cases hspecies : ∃ c s, v = .choice c s
  · obtain ⟨c, s, hv⟩ := hspecies
    obtain rfl := hchoice c s hv
    exact .inl ⟨s, hv⟩
  · by_contra hne
    simp only [not_or, not_exists, not_and] at hne hspecies
    refine hbuiltin ⟨hspecies, fun r cls as hr hc => ?_⟩
    rcases hrecord r cls as hr hc with rfl | rfl | hwidth
    · exact absurd hc (hne.2.1 r as hr)
    · exact absurd hc (hne.2.2 r as hr)
    · exact hwidth

theorem members_person {as : List (String × Value)}
    (hr : w.get? r = some (.record personName as)) :
    (catalog.subject w (.object r)).members = personBody.members := by
  rw [Catalog.subject, Catalog.classOf, World.classOf, hr]
  exact List.append_nil _

theorem members_pet {as : List (String × Value)}
    (hr : w.get? r = some (.record petName as)) :
    (catalog.subject w (.object r)).members = petBody.members := by
  rw [Catalog.subject, Catalog.classOf, World.classOf, hr]
  exact List.append_nil _

end Sample

/-! ### Built-in classes -/

def Member.hasNoSetter : Member → Bool
  | .accessor a => a.set.isNone
  | _ => true

namespace Discipline

open Sample

variable [Host] {D : Discipline} {f : Visit} {w : World} {name : String} {m : Member}

theorem Lawful.obeys_builtin (hD : D.Lawful catalog) (hB : D.Builds) (h : D.holds f w)
    (hbuiltin : IsBuiltin w f.context)
    (hm : (name, m) ∈ (catalog.subject w f.context).members) : D.Obeys catalog f w m := by
  obtain ⟨body, hbody, hmember⟩ := List.mem_flatMap.1 hm
  suffices hall : ∀ e ∈ body.members, D.Obeys catalog f w e.2 from hall _ hmember
  have hlineage := hbuiltin.lineage
  revert hbody
  simp only [Catalog.subject, Catalog.classOf]
  generalize hcontext : f.context = v at hlineage
  generalize catalog.lineage (w.classOf v) = bodies at hlineage
  have hinteger := hD.obeys_integerBody hB.makesLists h Host.library
  cases hlineage with
  | none => exact fun hbody => absurd hbody (by simp)
  | bool b =>
      intro hbody
      rcases List.mem_pair.1 hbody with rfl | rfl
      · exact fun e he => absurd he (by simp)
      · exact hinteger
  | int n =>
      intro hbody
      rwa [List.mem_singleton.1 hbody]
  | float x =>
      intro hbody
      rw [List.mem_singleton.1 hbody]
      exact hD.obeys_floatBody hB.makesLists h Host.library (by rw [hcontext]; rfl)
  | text s =>
      intro hbody
      rw [List.mem_singleton.1 hbody]
      exact hD.obeys_strBody hB.makesLists h Host.library
  | bytes data =>
      intro hbody
      rw [List.mem_singleton.1 hbody]
      exact hD.obeys_bytesBody hB.makesLists h Host.library
  | tuple vs =>
      intro hbody
      rw [List.mem_singleton.1 hbody]
      exact hD.obeys_tupleBody h outlines
  | list hc =>
      intro hbody
      rw [List.mem_singleton.1 hbody]
      exact hB.obeys_listBody hD ⟨_, _, hcontext, hc⟩ h outlines
  | table hc =>
      intro hbody
      rw [List.mem_singleton.1 hbody]
      exact hB.obeys_tableBody hD ⟨_, _, hcontext, hc⟩ h outlines
  | width width hv =>
      intro hbody
      simp only [List.mem_cons, List.not_mem_nil, or_false] at hbody
      rcases hbody with rfl | rfl | rfl
      · exact hD.obeys_widthBody h width
      · exact hD.obeys_sizedBody h width
      · exact hinteger

omit [Host] in
theorem accepts_of_hasNoSetter {v : Value} (hm : m.hasNoSetter = true) : D.Accepts f w v m := by
  cases m with
  | accessor a =>
      intro setter hsetter
      rw [Member.hasNoSetter, hsetter] at hm
      exact absurd hm (by simp)
  | _ => trivial

theorem hasNoSetter_of_builtin (hbuiltin : IsBuiltin w f.context)
    (hm : (name, m) ∈ (catalog.subject w f.context).members) : m.hasNoSetter = true := by
  have hall : ∀ v bodies, BuiltinLineage w v bodies →
      (bodies.all fun body => body.members.all fun e => e.2.hasNoSetter) = true := by
    intro v bodies hlineage
    cases hlineage <;> rfl
  obtain ⟨body, hbody, hmember⟩ := List.mem_flatMap.1 hm
  exact List.all_eq_true.1 (List.all_eq_true.1 (hall _ _ hbuiltin.lineage) body hbody) _ hmember

/-- Assigning to a property of a built-in class sets no more than an attribute
of an integer. -/
theorem Builds.keeps_assign (hB : D.Builds) (h : D.holds f w)
    (hbuiltin : IsBuiltin w f.context) {v : Value} (hv : D.knows f w v) :
    D.Keeps f (fun _ => True) (fun _ _ => True) (catalog.assign f.context name v) w := by
  refine Discipline.keeps_assign h ?_ ?_
  · exact fun m hm =>
      accepts_of_hasNoSetter (hasNoSetter_of_builtin hbuiltin (Catalog.mem_of_member? hm))
  · intro _
    rcases w.setOwn_cases f.context name v with hsame | ⟨r, cls, as, hc, hcontext, hset⟩
    · rw [hsame]
      exact .refl h
    · rcases hcontext with hcontext | ⟨width, n, hcontext⟩
      · obtain ⟨width, rfl⟩ := hbuiltin.record r cls as hcontext hc
        exact hB.marks h (by rw [hcontext, World.classOf, hc]) hv
      · have hclass : w.classOf f.context = .ofWidth width := by rw [hcontext]; rfl
        exact hB.marks h hclass hv

/-! ### The demonstration -/

theorem Lawful.obeys_species (hD : D.Lawful catalog) (h : D.holds f w) {s : String}
    (hcontext : f.context = .choice speciesName s)
    (hm : (name, m) ∈ (catalog.subject w f.context).members) : D.Obeys catalog f w m := by
  have hmembers : (catalog.subject w f.context).members =
      [("DOG", .choice), ("CAT", .choice), ("FISH", .choice)] ++
        (enumerationBody outlines).members := by
    rw [hcontext]
    rfl
  rw [hmembers] at hm
  rcases List.mem_append.1 hm with hm | hm
  · have hchoice : (name = "DOG" ∨ name = "CAT" ∨ name = "FISH") ∧ m = .choice := by
      simpa [← or_and_right] using hm
    rw [hchoice.2]
    trivial
  · exact hD.obeys_enumerationBody h (fun _ _ _ hv => isPlain_of_lookup_choices hv) _ hm

/-- Members of species have neither setters nor attributes. -/
theorem keeps_assign_species (h : D.holds f w) {s : String} (hcontext : f.context = species s)
    {v : Value} :
    D.Keeps f (fun _ => True) (fun _ _ => True) (catalog.assign f.context name v) w := by
  refine Discipline.keeps_assign h (fun m hm => ?_) fun _ => ?_
  · have hall : ((catalog.lineage speciesName).all fun body =>
        body.members.all fun e => e.2.hasNoSetter) = true := rfl
    obtain ⟨body, hbody, hmember⟩ := List.mem_flatMap.1 (Catalog.mem_of_member? hm)
    have hlineage : body ∈ catalog.lineage speciesName := by rwa [hcontext] at hbody
    exact accepts_of_hasNoSetter
      (List.all_eq_true.1 (List.all_eq_true.1 hall body hlineage) _ hmember)
  · rw [hcontext]
    exact .refl h

omit [Host] in
theorem keeps_textOwn (h : D.holds f w) {E : Raised → Prop} (v : Value) (name : String) :
    D.Keeps f E (fun w' _ => w' = w) (textOwn v name) w :=
  keeps_get_bind (keeps_pure h rfl)

theorem Lawful.obeys_petBody (hD : D.Lawful catalog) (h : D.holds f w) :
    ∀ e ∈ petBody.members, D.Obeys catalog f w e.2 := by
  simp only [petBody, List.forall_mem_cons, List.not_mem_nil, false_imp_iff, implies_true,
    and_true]
  refine ⟨hD.choice h rfl, hD.plain h rfl, hD.obeys_plainMethod h ?_ rfl⟩
  refine hD.runs_plain fun w' args hw' => ?_
  refine (keeps_textOwn hw' _ _).bind fun _ _ hw₁ _ => ?_
  refine (hD.keeps_own hw₁.holds "species").bind fun _ _ hw₂ _ => ?_
  exact keeps_pure hw₂.holds rfl

omit [Host] in
/-- Persons are assigned to by setting attributes of them. -/
theorem accepts_personBody (h : D.holds f w) {v : Value}
    (hown : ∀ hidden, D.Leads f w (w.setOwn f.context hidden v)) :
    ∀ e ∈ personBody.members, D.Accepts f w v e.2 := by
  have hassign (hidden : String) :
      D.Keeps f (fun _ => True) (fun _ _ => True) (Act.assign f.context hidden v) w :=
    keeps_modify (hown hidden) trivial
  have hset {a : Accessor} {set : Value → Value → Act Unit} (ha : a.set = some set)
      (hrun : D.Keeps f (fun _ => True) (fun _ _ => True) (set f.context v) w) :
      D.Accepts f w v (.accessor a) := by
    intro setter hsetter
    rw [ha] at hsetter
    obtain rfl := Option.some.inj hsetter
    exact hrun
  have hweight :
      D.Keeps f (fun _ => True) (fun _ _ => True) (setWeight f.context v) w := by
    rw [setWeight]
    split
    · split
      · exact keeps_throw h trivial
      · exact hassign "_weight"
    · exact hassign "_weight"
  simp only [personBody, List.forall_mem_cons, List.not_mem_nil, false_imp_iff, implies_true,
    and_true]
  exact ⟨hset rfl (hassign "_name"), hset rfl hweight, hset rfl (hassign "_length"),
    hset rfl (hassign "_pet"), accepts_of_hasNoSetter rfl, trivial, trivial, trivial, trivial,
    trivial, trivial⟩

omit [Host] in
theorem keeps_repeated (h : D.holds f w) (s : String) (times : Int) :
    D.Keeps f (fun _ => True) (fun _ v => v.isPlain = true) (repeated s times) w := by
  rw [repeated]
  split
  · exact keeps_throw h trivial
  · split
    · exact keeps_throw h trivial
    · exact keeps_pure h rfl

/-- The members of a person but for the two that change what the person holds. -/
theorem Lawful.obeys_personBody (hD : D.Lawful catalog)
    (hprint : ∀ {f w}, D.holds f w → ∀ line, D.Leads f w (w.print line)) (h : D.holds f w)
    (hfriend : ∀ m, personBody.members.lookup "add_friend" = some m → D.Obeys catalog f w m)
    (hadopt : ∀ m, personBody.members.lookup "adopt" = some m → D.Obeys catalog f w m) :
    ∀ e ∈ personBody.members, D.Obeys catalog f w e.2 := by
  have hget (hidden : String) {a : Accessor} (hcached : a.cached = false)
      (hget : a.get = some fun v => Act.own v hidden) : D.Obeys catalog f w (.accessor a) := by
    refine ⟨?_, fun h => absurd h (by simp [hcached])⟩
    intro getter hgetter
    rw [hget] at hgetter
    obtain rfl := Option.some.inj hgetter
    exact hD.keeps_own h hidden
  simp only [personBody, List.forall_mem_cons, List.not_mem_nil, false_imp_iff, implies_true,
    and_true]
  refine ⟨hget "_name" rfl rfl, hget "_weight" rfl rfl, hget "_length" rfl rfl,
    hget "_pet" rfl rfl, hget "_friends" rfl rfl, hD.obeys_plainMethod h ?_ rfl,
    hD.obeys_plainMethod h ?_ rfl, hD.obeys_plainMethod h (hD.runs_pure fun _ => rfl) rfl,
    hD.obeys_plainMethod h ?_ rfl, hfriend _ rfl, hadopt _ rfl⟩
  · exact fun w' args hw' _ hargs => keeps_pure hw'.holds (hD.knows_arg hw'.holds hargs 0)
  · refine hD.runs_plain fun w' args hw' => ?_
    exact (keeps_textOwn hw' _ _).bind fun _ _ hw₁ _ => keeps_repeated hw₁.holds _ _
  · refine hD.runs_plain fun w' args hw' => ?_
    refine (keeps_textOwn hw' _ _).bind fun name w₁ hw₁ _ => ?_
    exact Keeps.bind (keeps_modify (Q := fun _ _ => True) (hprint hw₁.holds _) trivial)
      fun _ _ hw₂ _ => keeps_pure hw₂.holds rfl

end Discipline

end ObjectConsole
