import ObjectConsole.Proofs.Member.Property
import ObjectConsole.Proofs.Sample.TypedRun

/-!
Properties in the demonstration graph and in structured data. All classes there
are modest, so a property changes only where a value is stored under its own
name in its own object.
-/

namespace ObjectConsole

open Builtin

/-! ### Modest classes -/

def Member.isAccessor : Member → Bool
  | .accessor _ => true
  | _ => false

/-- The member is a view of an attribute, if it is an accessor. -/
def ShowsView (e : String × Member) : Prop := ∀ a, e.2 = .accessor a → a.IsView e.1

theorem showsView_of_not {e : String × Member} (h : e.2.isAccessor = false) : ShowsView e := by
  intro a ha
  rw [ha] at h
  exact absurd h (by simp [Member.isAccessor])

theorem showsView_of_all {members : List (String × Member)}
    (h : members.all (fun e => !e.2.isAccessor) = true) : ∀ e ∈ members, ShowsView e :=
  fun e he => showsView_of_not (by simpa using List.all_eq_true.1 h e he)

/-- A getter that computes from the value alone looks at no attribute. -/
theorem showsView_readOnly {get : Value → Act Value} (hget : ∀ v, ∃ u, ∀ w, get v w = .ok u w)
    (name : String) : ShowsView (readOnly name get) := by
  rintro _ ⟨rfl⟩
  refine ⟨rfl, ⟨get, rfl, fun v => ?_⟩, fun setter hset => absurd hset (by simp)⟩
  obtain ⟨u, hu⟩ := hget v
  exact ⟨fun _ => u, fun hset => absurd hset (by simp), hu⟩

theorem showsView_pure (result : Value → Value) (name : String) :
    ShowsView (readOnly name fun v => pure (result v)) :=
  showsView_readOnly (fun v => ⟨result v, fun _ => rfl⟩) name

theorem showsView_integerBody (lib : Library) :
    ∀ e ∈ (integerBody lib).members, ShowsView e := by
  simp only [integerBody, List.forall_mem_cons, List.not_mem_nil, false_imp_iff, implies_true,
    and_true]
  exact ⟨showsView_of_not rfl, showsView_of_not rfl, showsView_of_not rfl, showsView_of_not rfl,
    showsView_of_not rfl, showsView_pure _ _, showsView_pure _ _, showsView_pure _ _,
    showsView_pure _ _⟩

theorem showsView_floatBody (lib : Library) :
    ∀ e ∈ (floatBody lib).members, ShowsView e := by
  simp only [floatBody, List.forall_mem_cons, List.not_mem_nil, false_imp_iff, implies_true,
    and_true]
  exact ⟨showsView_of_not rfl, showsView_of_not rfl, showsView_of_not rfl, showsView_of_not rfl,
    showsView_of_not rfl, showsView_pure _ _, showsView_pure _ _⟩

theorem showsView_enumerationBody (o : Outlines) :
    ∀ e ∈ (enumerationBody o).members, ShowsView e := by
  simp only [enumerationBody, List.forall_mem_cons, List.not_mem_nil, false_imp_iff,
    implies_true, and_true]
  refine ⟨showsView_readOnly (fun v => ?_) _, showsView_readOnly (fun v => ?_) _⟩ <;>
    cases v <;> exact ⟨_, fun _ => rfl⟩

namespace Sample

/-- An accessor of a person that stores what it is given. -/
theorem showsView_stored (name label : String) (type : SlotType) (shown : Bool) :
    ShowsView (name, stored label type shown ("_" ++ name)) := by
  rintro _ ⟨rfl⟩
  refine ⟨rfl, ⟨_, rfl, fun v => ⟨fun o => o.getD .null, fun _ _ => rfl, fun _ => rfl⟩⟩, ?_⟩
  rintro _ ⟨rfl⟩ v u w
  exact .inr rfl

theorem setWeight_cases (v u : Value) (w : World) :
    (∃ e, setWeight v u w = .error e w) ∨ setWeight v u w = .ok ⟨⟩ (w.setOwn v "_weight" u) := by
  rw [setWeight]
  cases u.number? with
  | none => exact .inr rfl
  | some n =>
      dsimp only
      generalize (n.less (.int 0) || n.equal (.int 0)) = low
      cases low with
      | true => exact .inl ⟨_, rfl⟩
      | false => exact .inr rfl

theorem showsView_personBody : ∀ e ∈ personBody.members, ShowsView e := by
  simp only [personBody, List.forall_mem_cons, List.not_mem_nil, false_imp_iff, implies_true,
    and_true]
  refine ⟨showsView_stored "name" _ _ _, ?_, showsView_stored "length" _ _ _,
    showsView_stored "pet" _ _ _, ?_, showsView_of_not rfl, showsView_of_not rfl,
    showsView_of_not rfl, showsView_of_not rfl, showsView_of_not rfl, showsView_of_not rfl⟩
  · rintro _ ⟨rfl⟩
    refine ⟨rfl, ⟨_, rfl, fun v => ⟨fun o => o.getD .null, fun _ _ => rfl, fun _ => rfl⟩⟩, ?_⟩
    rintro _ ⟨rfl⟩ v u w
    exact setWeight_cases v u w
  · rintro _ ⟨rfl⟩
    refine ⟨rfl, ⟨_, rfl, fun v => ⟨fun o => o.getD .null, fun _ _ => rfl, fun _ => rfl⟩⟩, ?_⟩
    rintro setter hset
    exact absurd hset (by simp)

variable [Host] {w : World} {v : Value}

theorem showsView_builtin {bodies : List ClassBody} (h : BuiltinLineage w v bodies) :
    ∀ e ∈ bodies.flatMap (·.members), ShowsView e := by
  have hinteger := showsView_integerBody Host.library
  intro e hmem
  obtain ⟨body, hbody, he⟩ := List.mem_flatMap.1 hmem
  cases h with
  | none => exact absurd hbody (by simp)
  | bool b =>
      rcases List.mem_pair.1 hbody with rfl | rfl
      · exact absurd he (by simp)
      · exact hinteger e he
  | int n =>
      rw [List.mem_singleton.1 hbody] at he
      exact hinteger e he
  | float x =>
      rw [List.mem_singleton.1 hbody] at he
      exact showsView_floatBody _ e he
  | text s =>
      rw [List.mem_singleton.1 hbody] at he
      exact showsView_of_all rfl e he
  | bytes data =>
      rw [List.mem_singleton.1 hbody] at he
      exact showsView_of_all rfl e he
  | tuple vs =>
      rw [List.mem_singleton.1 hbody] at he
      exact showsView_of_all rfl e he
  | list hc =>
      rw [List.mem_singleton.1 hbody] at he
      exact showsView_of_all rfl e he
  | table hc =>
      rw [List.mem_singleton.1 hbody] at he
      exact showsView_of_all rfl e he
  | width width hv =>
      simp only [List.mem_cons, List.not_mem_nil, or_false] at hbody
      rcases hbody with rfl | rfl | rfl
      · exact showsView_of_all rfl e he
      · exact showsView_of_all rfl e he
      · exact hinteger e he

/-- All classes of the demonstration and of structured data are modest. -/
theorem modest_of_fits (hw : WellTyped w) (hv : Fits w v) : (catalog.classOf w v).Modest := by
  have h : typing.holds ⟨v, w⟩ w := ⟨hw, hv⟩
  rcases typing_value_cases h with hbuiltin | ⟨s, hs⟩ | ⟨r, as, hcontext, hr⟩ |
    ⟨r, as, hcontext, hr⟩
  · exact showsView_builtin hbuiltin.lineage
  · obtain rfl : v = species s := hs
    intro e he
    have hmembers : (catalog.classOf w (species s)).lineage.flatMap (·.members) =
        [("DOG", .choice), ("CAT", .choice), ("FISH", .choice)] ++
          (enumerationBody outlines).members := rfl
    rw [hmembers] at he
    rcases List.mem_append.1 he with he | he
    · exact @showsView_of_all [("DOG", .choice), ("CAT", .choice), ("FISH", .choice)] rfl e he
    · exact showsView_enumerationBody outlines e he
  · obtain rfl : v = .object r := hcontext
    intro e he
    exact showsView_personBody e (members_person hr ▸ he)
  · obtain rfl : v = .object r := hcontext
    intro e he
    exact @showsView_of_all petBody.members rfl e (members_pet hr ▸ he)

/-! ### Objects -/

variable {label : String} {p : PropertyInfo}

omit [Host] in
theorem Fits.own (h : Fits w v) (hv : v.own? = some r) : ∃ c, w.get? r = some c := by
  cases v with
  | object s =>
      obtain rfl := Option.some.inj hv
      exact h.object s (.self _)
  | sized width n own =>
      obtain rfl : own = some r := hv
      obtain ⟨as, has⟩ := h.sized width n r (.self _)
      exact ⟨_, has⟩
  | _ => exact absurd hv (by simp [Value.own?])

omit [Host] in
/-- An integer of a width looks like its cell. -/
theorem Fits.face_own (h : Fits w v) (hv : v.own? = some r) :
    w.classOf v = w.classOf (.object r) ∧ w.table? v = w.table? (.object r) := by
  cases v with
  | object s =>
      obtain rfl := Option.some.inj hv
      exact ⟨rfl, rfl⟩
  | sized width n own =>
      obtain rfl : own = some r := hv
      obtain ⟨as, has⟩ := h.sized width n r (.self _)
      refine ⟨?_, (World.table?_of_own rfl has).trans (World.table?_of_own rfl has).symm⟩
      rw [World.classOf, World.classOf, has]
  | _ => exact absurd hv (by simp [Value.own?])

theorem fixed_ofWidth {width : Width} (hv : w.classOf v = .ofWidth width) :
    (catalog.classOf w v).Fixed := by
  constructor
  · rw [Catalog.classOf, hv]
    cases width <;> rfl
  · have hall : ((catalog.lineage (.ofWidth width)).flatMap (·.members)).all
        (fun e => e.2.isFixed) = true := by
      rw [lineage_ofWidth]
      cases width <;> rfl
    intro e he
    rw [Catalog.classOf, hv] at he
    exact List.all_eq_true.1 hall e he

/-- A value without attributes has no writable property if all members of its
class are firm. -/
theorem attributes_ne_nil (htable : w.table? v = none)
    (hfields : (catalog.classOf w v).outline.fields = [])
    (hfirm : ((catalog.classOf w v).lineage.flatMap (·.members)).all (·.2.isFirm) = true)
    (hp : catalog.findProperty? w v label = some p) (hwritable : p.writable = true) :
    w.attributes v ≠ [] := by
  have hfirm' : ∀ e ∈ (catalog.classOf w v).lineage.flatMap (·.members),
      e.2.isFirm = true := List.all_eq_true.1 hfirm
  have hfixed : (catalog.classOf w v).Fixed :=
    ⟨hfields, fun e he => (Bool.and_eq_true_iff.1 (hfirm' e he)).1⟩
  rcases (Catalog.eq_plain_of_findProperty? htable hfixed hp hwritable).2 with hmem | ⟨u, hu⟩
  · rintro hnil
    exact absurd hmem (by simp [hnil])
  · exact absurd (hfirm' _ hu) (by simp [Member.isFirm])

/-- What can be written to belongs to a table or a record. -/
theorem record_of_writable (hv : Fits w v) (hheld : v.IsHeld) (htable : w.table? v = none)
    (hp : catalog.findProperty? w v label = some p) (hwritable : p.writable = true) :
    ∃ r cls as, v.own? = some r ∧ w.get? r = some (.record cls as) := by
  cases v with
  | null =>
      rw [Catalog.findProperty?_of_table htable] at hp
      exact absurd hp (by simp [Value.isNull])
  | sized width n own =>
      cases own with
      | none => exact absurd rfl (hheld width n)
      | some r =>
          obtain ⟨as, has⟩ := hv.sized width n r (.self _)
          exact ⟨r, _, as, rfl, has⟩
  | object r =>
      obtain ⟨c, hc⟩ := hv.object r (.self _)
      cases c with
      | record cls as => exact ⟨r, cls, as, rfl, hc⟩
      | table frozen entries =>
          rw [World.table?, hc] at htable
          exact absurd htable (by simp)
      | list items =>
          have hclass : w.classOf (.object r) = .core "list" := by rw [World.classOf, hc]
          refine absurd ?_ (attributes_ne_nil htable ?_ ?_ hp hwritable)
          · rw [World.attributes, hc]
          · rw [Catalog.classOf, hclass]
            rfl
          · rw [Catalog.classOf, hclass]
            rfl
  | choice c s =>
      obtain ⟨rfl, -⟩ := hv.choice c s (.self _)
      exact absurd rfl (attributes_ne_nil htable rfl rfl hp hwritable)
  | _ => exact absurd rfl (attributes_ne_nil htable rfl rfl hp hwritable)

/-! ### Storing -/

variable {u : Value} {w' : World}

/-- What storing a value under a label in an object leaves behind: that value as
the property, and all else as it was. -/
structure Sets (w : World) (v : Value) (label : String) (u : Value) (w' : World) : Prop where
  own : ∃ r, v.own? = some r
  property : ∀ x, Fits w x → ∀ l, catalog.property? w' x l =
    if x.isSameObject v = true ∧ l = label then some u else catalog.property? w x l
  items : ∀ x, Fits w x → w'.items? x = w.items? x
  fits : ∀ x, Fits w x → Fits w' x

theorem Sets.self (h : Sets w v label u w') (hv : Fits w v) :
    catalog.property? w' v label = some u := by
  obtain ⟨r, hr⟩ := h.own
  have hself : v.isSameObject v = true := Value.isSameObject_iff.2 ⟨r, hr, hr⟩
  rw [h.property v hv, if_pos ⟨hself, rfl⟩]

/-- Persons and pets keep their attributes, and integers of a width are of a fixed
class. -/
theorem names_or_fixed (hw : WellTyped w) (hw' : WellTyped w') (hevolves : w.Evolves w')
    (hv : Fits w v) (hr : v.own? = some r) {cls : ClassName} {as : List (String × Value)}
    (hc : w.get? r = some (.record cls as)) :
    (catalog.classOf w v).Fixed ∨
      (w'.attributes v).map (·.1) = (w.attributes v).map (·.1) := by
  obtain ⟨as', hc'⟩ := hevolves.record hc
  rw [World.attributes_of_own hr hc, World.attributes_of_own hr hc']
  rcases (hw r _ hc).record cls as rfl with ⟨rfl, -⟩ | ⟨rfl, -⟩ | ⟨width, rfl⟩
  · exact .inr ((hw'.person hc').names.trans (hw.person hc).names.symm)
  · exact .inr ((hw'.pet hc').names.trans (hw.pet hc).names.symm)
  · have hclass : w.classOf v = .ofWidth width := by rw [(hv.face_own hr).1, World.classOf, hc]
    exact .inl (fixed_ofWidth hclass)

theorem record_of_stores (hv : Fits w v) (hheld : v.IsHeld)
    (h : catalog.Stores w v label u w') (hr : v.own? = some r) (htable : w.table? v = none) :
    ∃ cls as, w.get? r = some (.record cls as) := by
  cases h with
  | inTable hext hv' hs =>
      rw [hv', World.table?, hs] at htable
      exact absurd htable (by simp)
  | inAttribute hext htable' hp hwritable hset =>
      obtain ⟨s, cls, as, hs, hcell⟩ := record_of_writable hv hheld htable hp hwritable
      obtain rfl : r = s := Option.some.inj (hr.symm.trans hs)
      exact ⟨cls, as, hcell⟩

theorem sets_of_stores (hw : WellTyped w) (hw' : WellTyped w') (hv : Fits w v)
    (hheld : v.IsHeld) (h : catalog.Stores w v label u w') : Sets w v label u w' where
  own := by
    cases h with
    | inTable hext hv' hs => exact ⟨_, by rw [hv']; rfl⟩
    | inAttribute hext htable hp hwritable hset =>
        obtain ⟨r, -, -, hr, -⟩ := record_of_writable hv hheld htable hp hwritable
        exact ⟨r, hr⟩
  property x hx l := by
    have hmodest := modest_of_fits hw hx
    -- values with one cell, such as copies of an integer, are one object
    by_cases hsame : x.isSameObject v = true
    · obtain ⟨r, hxr, hvr⟩ := Value.isSameObject_iff.1 hsame
      obtain ⟨hxclass, hxtable⟩ := hx.face_own hxr
      obtain ⟨hvclass, hvtable⟩ := hv.face_own hvr
      have htable := hxtable.trans hvtable.symm
      have hrecord : w.table? x = none → ∃ cls as, w.get? r = some (.record cls as) :=
        fun hnone => record_of_stores hv hheld h hvr (htable ▸ hnone)
      have hnames : w.table? x = none → (catalog.classOf w x).Fixed ∨
          (w'.attributes x).map (·.1) = (w.attributes x).map (·.1) := by
        intro hnone
        obtain ⟨cls, as, hr⟩ := hrecord hnone
        exact names_or_fixed hw hw' h.evolves hx hxr hr
      rw [h.property?_of_eq hvr hxr (hxclass.trans hvclass.symm) htable (fun _ => hmodest)
        hrecord hnames l]
      simp only [hsame, true_and]
    · rw [if_neg fun hboth => hsame hboth.1]
      refine h.property?_of_ne (fun r hr => hx.own hr) (fun _ => hmodest) (fun r hxr hvr => ?_) l
      exact hsame (Value.isSameObject_iff.2 ⟨r, hxr, hvr⟩)
  items x hx := h.items? fun r hr => hx.own hr
  fits x hx := hx.mono h.evolves

/-- New cells are no part of what was there. -/
theorem property?_of_extends (hw : WellTyped w) (hv : Fits w v) (h : w.Extends w')
    (label : String) : catalog.property? w' v label = catalog.property? w v label := by
  refine Catalog.property?_of_get? (fun _ => modest_of_fits hw hv) (fun r hr => ?_) label
  obtain ⟨c, hc⟩ := hv.own hr
  rw [h r c hc, hc]

omit [Host] in
theorem items?_of_extends (hv : Fits w v) (h : w.Extends w') : w'.items? v = w.items? v := by
  cases v with
  | object r =>
      obtain ⟨c, hc⟩ := hv.own rfl
      rw [World.items?, World.items?, hc, h r c hc]
  | _ => rfl

theorem readProperty_typed (hw : WellTyped w) (hv : Fits w v) (label : String) :
    resultWorld (catalog.readProperty v label w) = w :=
  Catalog.readProperty_world (fun _ => modest_of_fits hw hv) label

/-- Writing a property fails, which leaves all as it was, or sets the property. -/
theorem writeProperty_typed (hw : WellTyped w) (hv : Fits w v) (hheld : v.IsHeld)
    {value : Value} (hvalue : Fits w value) (label : String) :
    (∃ e w', catalog.writeProperty v label value w = .error e w' ∧ w.Extends w') ∨
      ∃ u w', catalog.writeProperty v label value w = .ok u w' ∧ WellTyped w' ∧
        Sets w v label u w' := by
  rcases Catalog.writeProperty_cases (fun r hr => hv.own hr) (fun _ => modest_of_fits hw hv) label
    value with hfailed | ⟨u, w', hwrite, hstores⟩
  · exact .inl hfailed
  · have h : typing.holds ⟨v, w⟩ w := ⟨hw, hv⟩
    have hkeeps : typing.Keeps ⟨v, w⟩ (fun _ => True) (typing.knows ⟨v, w⟩)
        (catalog.writeProperty v label value) w :=
      typing_conduct.keeps_write typing_lawful Discipline.allowsSteps_all h hvalue
    rw [Discipline.Keeps, hwrite] at hkeeps
    have hw' : WellTyped w' := hkeeps.1.holds.1
    exact .inr ⟨u, w', hwrite, hw', sets_of_stores hw hw' hv hheld hstores⟩

end Sample

end ObjectConsole
