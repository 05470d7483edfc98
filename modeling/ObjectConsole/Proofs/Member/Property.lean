import ObjectConsole.Proofs.Member.Listing

/-!
What a property is, seen from outside: the value that reading it gives. The
classes here are modest: behind each of their properties stands one attribute
of the value, or an entry of a table, which a getter only looks at and a setter
only replaces. For such classes reading changes nothing, what is stored is what
is read, and all that is stored elsewhere is read as before.
-/

namespace ObjectConsole

variable {ε α : Type}

/-! ### Ends of a run -/

def resultValue? : EStateM.Result ε World α → Option α
  | .ok a _ => some a
  | .error _ _ => none

/-- The world that a run ends in, whether it fails or not. -/
def resultWorld : EStateM.Result ε World α → World
  | .ok _ w => w
  | .error _ w => w

theorem resultValue?_invoke (name : String) (act : Act α) (w : World) :
    resultValue? (Eval.invoke name act w) = resultValue? (act w) := by
  rw [Eval.invoke]
  cases act w <;> rfl

theorem resultWorld_invoke (name : String) (act : Act α) (w : World) :
    resultWorld (Eval.invoke name act w) = resultWorld (act w) := by
  rw [Eval.invoke]
  cases act w <;> rfl

/-! ### Values whose own cell is the same -/

namespace Value

def isSameObject (v u : Value) : Bool := v.own?.isSome && v.own? == u.own?

theorem isSameObject_iff {v u : Value} :
    v.isSameObject u = true ↔ ∃ r, v.own? = some r ∧ u.own? = some r := by
  rw [isSameObject, Bool.and_eq_true, beq_iff_eq, Option.isSome_iff_exists]
  constructor
  · rintro ⟨⟨r, hv⟩, hu⟩
    exact ⟨r, hv, hu ▸ hv⟩
  · rintro ⟨r, hv, hu⟩
    exact ⟨⟨r, hv⟩, hv.trans hu.symm⟩

/-- An integer of a fixed width has a cell of its own, as it has where anything
holds it. -/
def IsHeld (v : Value) : Prop := ∀ width n, v ≠ .sized width n none

end Value

theorem World.isHeld_adopt (w : World) (v : Value) : (w.adopt v).1.IsHeld := by
  intro width n
  cases v with
  | sized width n own => cases own <;> simp [World.adopt]
  | _ => simp [World.adopt]

namespace World

variable {w w' : World} {v : Value}

/-- What a value is described by depends on the cell that it has of its own. -/
theorem face_of_get? (h : ∀ r, v.own? = some r → w'.get? r = w.get? r) :
    w'.classOf v = w.classOf v ∧ w'.attributes v = w.attributes v ∧ w'.table? v = w.table? v := by
  cases v with
  | object r =>
      have hr := h r rfl
      rw [classOf, classOf, attributes, attributes, table?, table?, hr]
      exact ⟨rfl, rfl, rfl⟩
  | sized width n own =>
      cases own with
      | none => exact ⟨rfl, rfl, rfl⟩
      | some r =>
          have hr := h r rfl
          rw [attributes, attributes, hr]
          exact ⟨rfl, rfl, rfl⟩
  | _ => exact ⟨rfl, rfl, rfl⟩

section Record

variable {r : Ref} {cls : ClassName} {as : List (String × Value)}

theorem attributes_of_own (hv : v.own? = some r) (hr : w.get? r = some (.record cls as)) :
    w.attributes v = as := by
  cases v with
  | object s =>
      obtain rfl := Option.some.inj hv
      rw [attributes, hr]
  | sized width n own =>
      obtain rfl : own = some r := hv
      rw [attributes, hr]
  | _ => exact absurd hv (by simp [Value.own?])

theorem setOwn_of_own (hv : v.own? = some r) (hr : w.get? r = some (.record cls as))
    (name : String) (u : Value) :
    w.setOwn v name u = w.set r (.record cls (setAttribute name u as)) := by
  cases v with
  | object s =>
      obtain rfl := Option.some.inj hv
      rw [setOwn, hr]
  | sized width n own =>
      obtain rfl : own = some r := hv
      rw [setOwn, hr]
  | _ => exact absurd hv (by simp [Value.own?])

theorem table?_of_own (hv : v.own? = some r) (hr : w.get? r = some (.record cls as)) :
    w.table? v = none := by
  cases v with
  | object s =>
      obtain rfl := Option.some.inj hv
      rw [table?, hr]
  | _ => rfl

theorem classOf_of_own (hv : v.own? = some r) (hr : w.get? r = some (.record cls as))
    {as' : List (String × Value)} (hr' : w'.get? r = some (.record cls as')) :
    w'.classOf v = w.classOf v := by
  cases v with
  | object s =>
      obtain rfl := Option.some.inj hv
      rw [classOf, classOf, hr, hr']
  | _ => rfl

end Record

end World

/-! ### Modest classes -/

/-- An accessor for the attribute that is named like itself, with an underscore
in front. What its setter puts there is what its getter shows. -/
structure Accessor.IsView (a : Accessor) (name : String) : Prop where
  uncached : a.cached = false
  shows : ∃ getter, a.get = some getter ∧ ∀ v, ∃ view : Option Value → Value,
    (a.set.isSome = true → ∀ u, view (some u) = u) ∧
      ∀ w, getter v w = .ok (view ((w.attributes v).lookup ("_" ++ name))) w
  stores : ∀ setter, a.set = some setter → ∀ v u w,
    (∃ e, setter v u w = .error e w) ∨ setter v u w = .ok ⟨⟩ (w.setOwn v ("_" ++ name) u)

namespace ClassDef

variable {c : ClassDef}

/-- All accessors of the class and its ancestors are views of attributes. -/
def Modest (c : ClassDef) : Prop :=
  ∀ e ∈ c.lineage.flatMap (·.members), ∀ a, e.2 = .accessor a → a.IsView e.1

/-- The attribute that a property is kept in. -/
def place (c : ClassDef) (name : String) : String :=
  match c.member? name with
  | some (.accessor _) => "_" ++ name
  | _ => name

/-- No accessor without a setter stands in front of the attribute. -/
def Settable (c : ClassDef) (name : String) : Prop :=
  ∀ a, c.member? name = some (.accessor a) → a.set.isSome = true

theorem place_of_accessor {name : String} {a : Accessor}
    (h : c.member? name = some (.accessor a)) : c.place name = "_" ++ name := by
  rw [place, h]

theorem place_of_not_accessor {name : String} (h : ∀ a, c.member? name ≠ some (.accessor a)) :
    c.place name = name := by
  rw [place]
  split
  · next a ha => exact absurd ha (h a)
  · rfl

/-- A fixed class has no reserved places. -/
theorem Fixed.isSlot_eq_false (hc : c.Fixed) (name : String) : c.isSlot name = false := by
  rw [isSlot]
  split
  · next hm => exact absurd (hc.members _ (mem_of_member? hm)) (by simp [Member.isFixed])
  · rfl

theorem Fixed.place_of_settable {name : String} (hc : c.Fixed) (hset : c.Settable name) :
    c.place name = name := by
  apply place_of_not_accessor
  intro a ha
  have hfixed := hc.members _ (mem_of_member? ha)
  have hsetter := hset a ha
  simp_all [Member.isFixed]

theorem isPublic_underscore (name : String) : isPublic ("_" ++ name) = false := by
  simp [isPublic, String.toList_append]

/-- Properties with different names are kept in different attributes. -/
theorem place_injective {n m : String} (hn : isPublic n = true) (hm : isPublic m = true)
    (h : c.place n = c.place m) : n = m := by
  have hcases (name : String) : c.place name = "_" ++ name ∨ c.place name = name := by
    by_cases ha : ∃ a, c.member? name = some (.accessor a)
    · exact ha.elim fun a ha => .inl (place_of_accessor ha)
    · exact .inr (place_of_not_accessor (not_exists.1 ha))
  rcases hcases n with hn' | hn' <;> rcases hcases m with hm' | hm' <;> rw [hn', hm'] at h
  · exact (String.append_right_inj _).1 h
  · rw [← h, isPublic_underscore] at hm
    exact absurd hm (by decide)
  · rw [h, isPublic_underscore] at hn
    exact absurd hn (by decide)
  · exact h

end ClassDef

namespace Catalog

variable {cat : Catalog} {w w' : World} {v : Value} {label : String}

theorem classOf_congr {x : Value} (h : w'.classOf x = w.classOf v) :
    cat.classOf w' x = cat.classOf w v := by
  rw [classOf, classOf, h]

/-- Fetching changes nothing, and gives what a view shows of one attribute: the
attribute itself if the property can be assigned to. -/
theorem fetch_of_modest (cat : Catalog) {c : ClassDef} (hc : c.Modest) (v : Value) (name : String) :
    ∃ view : Option Value → Option Value,
      (c.Settable name → ∀ u, view (some u) = some u) ∧
      ∀ w, cat.classOf w v = c → resultWorld (cat.fetch v name w) = w ∧
        resultValue? (cat.fetch v name w) = view ((w.attributes v).lookup (c.place name)) := by
  cases hm : c.member? name with
  | none =>
      refine ⟨id, fun _ _ => rfl, fun w hw => ?_⟩
      rw [ClassDef.place_of_not_accessor (by simp [hm]), fetch, Eval.get_bind_apply, hw, hm]
      cases (w.attributes v).lookup name <;> exact ⟨rfl, rfl⟩
  | some m =>
      cases m with
      | accessor a =>
          have hview := hc _ (ClassDef.mem_of_member? hm) a rfl
          obtain ⟨getter, hget, hshows⟩ := hview.shows
          obtain ⟨view, hkeeps, hgetter⟩ := hshows v
          refine ⟨fun o => some (view o), fun hset u => ?_, fun w hw => ?_⟩
          · exact congrArg some (hkeeps (hset a hm) u)
          · rw [ClassDef.place_of_accessor hm, fetch, Eval.get_bind_apply, hw, hm]
            simp only [hview.uncached, hget, hgetter]
            exact ⟨rfl, rfl⟩
      | constant u =>
          refine ⟨fun o => some (o.getD u), fun _ _ => rfl, fun w hw => ?_⟩
          rw [ClassDef.place_of_not_accessor (by simp [hm]), fetch, Eval.get_bind_apply, hw, hm]
          exact ⟨rfl, rfl⟩
      | _ =>
          refine ⟨id, fun _ _ => rfl, fun w hw => ?_⟩
          rw [ClassDef.place_of_not_accessor (by simp [hm]), fetch, Eval.get_bind_apply, hw, hm]
          cases (w.attributes v).lookup name <;> exact ⟨rfl, rfl⟩

/-- Assigning fails without a change, or replaces the attribute that the property
is kept in. -/
theorem assign_of_modest (hc : (cat.classOf w v).Modest) (name : String) (u : Value) :
    (∃ e, cat.assign v name u w = .error e w) ∨ (cat.classOf w v).Settable name ∧
      cat.assign v name u w = .ok ⟨⟩ (w.setOwn v ((cat.classOf w v).place name) u) := by
  rw [assign, Eval.get_bind_apply]
  dsimp only
  split
  · exact .inl ⟨_, rfl⟩
  by_cases hm : ∃ a, (cat.classOf w v).member? name = some (.accessor a)
  · obtain ⟨a, ha⟩ := hm
    have hview := hc _ (ClassDef.mem_of_member? ha) a rfl
    rw [ClassDef.place_of_accessor ha, ha]
    simp only [hview.uncached]
    cases hset : a.set with
    | none => exact .inl ⟨_, rfl⟩
    | some setter =>
        refine (hview.stores setter hset v u w).imp_right fun hstores => ⟨fun b hb => ?_, hstores⟩
        obtain rfl : a = b := by simpa using ha.symm.trans hb
        rw [hset]
        rfl
  · rw [not_exists] at hm
    refine .inr ⟨fun a ha => absurd ha (hm a), ?_⟩
    rw [ClassDef.place_of_not_accessor hm]
    generalize (cat.classOf w v).member? name = m at hm ⊢
    cases m with
    | none => rfl
    | some m =>
        cases m with
        | accessor a => exact absurd rfl (hm a)
        | _ => rfl

end Catalog

namespace Catalog

variable {cat : Catalog} {w w' : World} {v : Value} {label : String} {p : PropertyInfo}

/-! ### Properties -/

def property? (cat : Catalog) (w : World) (v : Value) (label : String) : Option Value :=
  resultValue? (cat.readProperty v label w)

theorem findProperty?_table {frozen : Bool} {entries : List (Value × Value)}
    (h : w.table? v = some (frozen, entries)) (label : String) :
    cat.findProperty? w v label = (textEntry label entries).map fun _ =>
      { name := label, label, type := .undeclared, readable := true, writable := !frozen } := by
  rw [findProperty?, properties, h]
  exact find?_keyProperties frozen entries label

theorem property?_table {frozen : Bool} {entries : List (Value × Value)}
    (h : w.table? v = some (frozen, entries)) (label : String) :
    cat.property? w v label = textEntry label entries := by
  rw [property?, readProperty, Eval.get_bind_apply, findProperty?_table h]
  cases hentry : textEntry label entries with
  | none => rfl
  | some u =>
      simp only [Option.map_some, h, Outlines.lookup_text, hentry]
      rfl

theorem mem_of_findProperty? (htable : w.table? v = none)
    (h : cat.findProperty? w v label = some p) :
    p ∈ (cat.subject w v).properties ∧ p.label = label := by
  have hlabel : p.label = label := by simpa using List.find?_some h
  have hmem := List.mem_of_find?_eq_some h
  rw [properties, htable] at hmem
  simp only at hmem
  split at hmem
  · exact absurd hmem (by simp)
  · exact ⟨hmem, hlabel⟩

theorem findProperty?_of_table (htable : w.table? v = none) (label : String) :
    cat.findProperty? w v label =
      if v.isNull then none else
        (cat.subject w v).properties.find? fun p => p.label == label := by
  rw [findProperty?, properties, htable]
  dsimp only
  split <;> rfl

/-- What is found depends on the names of the attributes, and not on their
values. -/
theorem findProperty?_of_names (htable : w.table? v = none) (htable' : w'.table? v = none)
    (hclass : cat.classOf w' v = cat.classOf w v)
    (hnames : (w'.attributes v).map (·.1) = (w.attributes v).map (·.1)) (label : String) :
    cat.findProperty? w' v label = cat.findProperty? w v label := by
  rw [findProperty?_of_table htable, findProperty?_of_table htable', subject, subject, hclass,
    hnames]

/-- What can be written to in a value of a fixed class is an attribute, or a plain
value of the class, and shown under its own name. -/
theorem eq_plain_of_findProperty? (htable : w.table? v = none) (hc : (cat.classOf w v).Fixed)
    (hp : cat.findProperty? w v label = some p) (hwritable : p.writable = true) :
    p = Subject.plain label ((cat.classOf w v).hint label) ∧
      (label ∈ (w.attributes v).map (·.1) ∨
        ∃ u, (label, .constant u) ∈ (cat.classOf w v).lineage.flatMap (·.members)) := by
  obtain ⟨hmem, hlabel⟩ := mem_of_findProperty? htable hp
  obtain ⟨hplain, hsource⟩ := Subject.eq_plain_of_fixed (s := cat.subject w v) hc hmem hwritable
  have hname : p.name = label := by
    rw [← hlabel, hplain]
    rfl
  rw [hname] at hplain hsource
  exact ⟨hplain, hsource.imp_left List.mem_of_mem_filter⟩

/-- Assigning to a property of a fixed class leaves what is found as it is. -/
theorem findProperty?_of_fixed (htable : w.table? v = none) (htable' : w'.table? v = none)
    (hclass : cat.classOf w' v = cat.classOf w v) (hc : (cat.classOf w v).Fixed)
    (hp : cat.findProperty? w v label = some p) (hwritable : p.writable = true) {u : Value}
    (hattributes : w'.attributes v = setAttribute label u (w.attributes v)) (l : String) :
    cat.findProperty? w' v l = cat.findProperty? w v l := by
  by_cases hmem : label ∈ (w.attributes v).map (·.1)
  · refine findProperty?_of_names htable htable' hclass ?_ l
    rw [hattributes, World.map_fst_setAttribute hmem]
  · have hslot : (!(cat.classOf w v).isSlot label) = true := by rw [hc.isSlot_eq_false]; rfl
    have hnull : v.isNull = false := by
      by_contra hnull
      rw [findProperty?_of_table htable, if_pos (by simpa using hnull)] at hp
      exact absurd hp (by simp)
    have hplain := (eq_plain_of_findProperty? htable hc hp hwritable).1
    rw [findProperty?_of_table htable, hnull] at hp
    rw [findProperty?_of_table htable, findProperty?_of_table htable', hnull, subject, subject,
      hclass, hattributes, World.map_fst_setAttribute_of_not_mem hmem, List.filter_append,
      List.filter_singleton, hslot]
    exact Subject.find?_properties_append hc (hplain ▸ hp) l

/-- Properties that are shown under different names have different names. -/
theorem eq_of_name_eq {q : PropertyInfo} {other : String} (htable : w.table? v = none)
    (hp : cat.findProperty? w v label = some p) (hq : cat.findProperty? w v other = some q)
    (h : p.name = q.name) : label = other := by
  obtain ⟨hpmem, hplabel⟩ := mem_of_findProperty? htable hp
  obtain ⟨hqmem, hqlabel⟩ := mem_of_findProperty? htable hq
  have hsame := List.inj_on_of_nodup_map (cat.subject w v).nodup_names_properties hpmem hqmem h
  rw [← hplabel, ← hqlabel, hsame]

/-- All properties of a modest class can be read. -/
theorem readable_of_modest (hc : (cat.classOf w v).Modest) (htable : w.table? v = none)
    (hp : cat.findProperty? w v label = some p) : p.readable = true := by
  have hmem := (Subject.mem_of_mem_properties (mem_of_findProperty? htable hp).1).2
  rcases Subject.mem_propertyCandidates hmem with ⟨f, -, h⟩ | ⟨name, -, h⟩ | ⟨name, m, hm, h⟩
  · rw [Option.some.inj (Prod.mk.inj h).2]
    rfl
  · rw [Option.some.inj (Prod.mk.inj h).2]
    rfl
  · have hinfo := (Prod.mk.inj h).2
    cases m with
    | accessor a =>
        obtain ⟨getter, hget, -⟩ := (hc _ hm a rfl).shows
        rw [Option.some.inj hinfo, Subject.ofAccessor, hget]
        rfl
    | _ => simp_all [Subject.ofMember, Subject.plain]

theorem property?_of_modest (hc : (cat.classOf w v).Modest) (htable : w.table? v = none)
    (label : String) :
    cat.property? w v label =
      (cat.findProperty? w v label).bind fun p => resultValue? (cat.fetch v p.name w) := by
  rw [property?, readProperty, Eval.get_bind_apply]
  cases hp : cat.findProperty? w v label with
  | none => rfl
  | some p =>
      simp only [readable_of_modest hc htable hp, htable]
      exact resultValue?_invoke label _ w

/-- Reading a property of a modest class, or of a table, changes nothing. -/
theorem readProperty_world (hc : w.table? v = none → (cat.classOf w v).Modest) (label : String) :
    resultWorld (cat.readProperty v label w) = w := by
  rw [readProperty, Eval.get_bind_apply]
  cases hp : cat.findProperty? w v label with
  | none => rfl
  | some p =>
      cases hr : p.readable with
      | false =>
          simp only [hr]
          rfl
      | true =>
          simp only [hr]
          cases ht : w.table? v with
          | some t => rfl
          | none =>
              obtain ⟨_, -, hfetch⟩ := cat.fetch_of_modest (hc ht) v p.name
              exact (resultWorld_invoke label _ w).trans (hfetch w rfl).1

/-- Properties with the same attribute behind them have the same value. -/
theorem property?_congr (hc : (cat.classOf w v).Modest) (htable : w.table? v = none)
    (htable' : w'.table? v = none) (hclass : cat.classOf w' v = cat.classOf w v)
    (hfind : cat.findProperty? w' v label = cat.findProperty? w v label)
    (hplace : ∀ p, cat.findProperty? w v label = some p →
      (w'.attributes v).lookup ((cat.classOf w v).place p.name) =
        (w.attributes v).lookup ((cat.classOf w v).place p.name)) :
    cat.property? w' v label = cat.property? w v label := by
  rw [property?_of_modest hc htable, property?_of_modest (hclass ▸ hc) htable', hfind]
  cases hp : cat.findProperty? w v label with
  | none => rfl
  | some p =>
      obtain ⟨view, -, hfetch⟩ := cat.fetch_of_modest hc v p.name
      simp only [Option.bind_some, (hfetch w rfl).2, (hfetch w' hclass).2, hplace p hp]

/-- Values with the same cell and class have the same properties. -/
theorem findProperty?_of_own {x : Value} {r : Ref} {cls : ClassName} {as : List (String × Value)}
    (hx : x.own? = some r) (hv : v.own? = some r) (hr : w.get? r = some (.record cls as))
    (hclass : w.classOf x = w.classOf v) (hxtable : w.table? x = none)
    (hvtable : w.table? v = none) (label : String) :
    cat.findProperty? w x label = cat.findProperty? w v label := by
  have hnull {y : Value} (hy : y.own? = some r) : y.isNull = false := by
    cases y with
    | null => exact absurd hy (by simp [Value.own?])
    | _ => rfl
  rw [findProperty?_of_table hxtable, findProperty?_of_table hvtable, hnull hx, hnull hv, subject,
    subject, classOf_congr hclass, World.attributes_of_own hx hr, World.attributes_of_own hv hr]

/-- A value whose own cell has not changed has the properties that it had. -/
theorem property?_of_get? (hc : w.table? v = none → (cat.classOf w v).Modest)
    (h : ∀ r, v.own? = some r → w'.get? r = w.get? r) (label : String) :
    cat.property? w' v label = cat.property? w v label := by
  obtain ⟨hclass, hattributes, htable⟩ := World.face_of_get? h
  have hdef : cat.classOf w' v = cat.classOf w v := classOf_congr hclass
  cases ht : w.table? v with
  | some t => rw [property?_table (htable.trans ht), property?_table ht]
  | none =>
      refine property?_congr (hc ht) ht (htable.trans ht) hdef ?_ fun p _ => by rw [hattributes]
      rw [findProperty?, findProperty?, properties, properties, htable, subject, subject, hdef,
        hattributes]

/-! ### Writing -/

/-- The ways in which a value comes to be stored under a label: as an entry of a
table, or as the attribute that a property is kept in. Before, the value may
have got a cell of its own. -/
inductive Stores (cat : Catalog) (w : World) (v : Value) (label : String) (u : Value) :
    World → Prop
  | inTable {w₁ : World} {r : Ref} {frozen : Bool} {entries : List (Value × Value)}
      (hext : w.Extends w₁) (hv : v = .object r) (hr : w.get? r = some (.table frozen entries)) :
      Stores cat w v label u (w₁.set r (.table frozen (cat.insert w₁ (.text label) u entries)))
  | inAttribute {w₁ : World} {p : PropertyInfo} (hext : w.Extends w₁) (htable : w.table? v = none)
      (hp : cat.findProperty? w v label = some p) (hwritable : p.writable = true)
      (hset : (cat.classOf w v).Settable p.name) :
      Stores cat w v label u (w₁.setOwn v ((cat.classOf w v).place p.name) u)

/-- A value that fits is adopted and then put into the table. -/
theorem writeProperty_table {r : Ref} {frozen : Bool} {entries : List (Value × Value)}
    (hr : w.get? r = some (.table frozen entries))
    (hp : cat.findProperty? w (.object r) label = some p) (hwritable : p.writable = true)
    {value u : Value} (hu : cat.coerce w value p.type = .ok u) :
    cat.writeProperty (.object r) label value w =
      .ok (w.adopt u).1 ((w.adopt u).2.set r
        (.table frozen (cat.insert (w.adopt u).2 (.text p.name) (w.adopt u).1 entries))) := by
  have hfit : cat.fit w value p.type = pure u := by rw [fit, hu]
  have htable : w.table? (.object r) = some (frozen, entries) := by rw [World.table?, hr]
  rw [writeProperty, Eval.get_bind_apply, hp]
  simp only [hwritable, hfit, pure_bind, htable]
  rfl

/-- A value that fits is adopted and then assigned. -/
theorem writeProperty_attribute (htable : w.table? v = none)
    (hp : cat.findProperty? w v label = some p) (hwritable : p.writable = true)
    {value u : Value} (hu : cat.coerce w value p.type = .ok u) :
    cat.writeProperty v label value w =
      match cat.assign v p.name (w.adopt u).1 (w.adopt u).2 with
      | .ok _ w' => .ok (w.adopt u).1 w'
      | .error e w' => .error (.reported (.invocation label e)) w' := by
  have hfit : cat.fit w value p.type = pure u := by rw [fit, hu]
  have hadopt : adopt u w = .ok (w.adopt u).1 (w.adopt u).2 := rfl
  rw [writeProperty, Eval.get_bind_apply, hp]
  simp only [hwritable, hfit, pure_bind, htable, Bool.not_true, Bool.false_eq_true, if_false]
  rw [Eval.bind_apply, hadopt]
  simp only [Eval.bind_apply, Eval.invoke]
  cases cat.assign v p.name (w.adopt u).1 (w.adopt u).2 <;> rfl

/-- Writing is refused before anything happens, or there is a property to write
to and the value fits. -/
theorem writeProperty_ready (w : World) (v : Value) (label : String) (value : Value) :
    (∃ s, cat.writeProperty v label value w = .error s w) ∨
      ∃ p u, cat.findProperty? w v label = some p ∧ p.writable = true ∧
        cat.coerce w value p.type = .ok u := by
  cases hp : cat.findProperty? w v label with
  | none => exact .inl ⟨_, by rw [writeProperty, Eval.get_bind_apply, hp]; rfl⟩
  | some p =>
  cases hwritable : p.writable with
  | false =>
      refine .inl ⟨.reported (.memberNotFound (w.className v) .writableProperty label), ?_⟩
      rw [writeProperty, Eval.get_bind_apply, hp]
      simp only [hwritable]
      rfl
  | true =>
  cases hu : cat.coerce w value p.type with
  | error e =>
      obtain ⟨s, hfit⟩ : ∃ s, cat.fit w value p.type = throw s := by
        rw [fit, hu]
        cases e <;> exact ⟨_, rfl⟩
      refine .inl ⟨s, ?_⟩
      rw [writeProperty, Eval.get_bind_apply, hp]
      simp only [hwritable, hfit]
      rfl
  | ok u => exact .inr ⟨p, u, rfl, hwritable, hu⟩

/-- Writing a property fails and at most gives an integer a cell of its own, or
it stores the value that it gives. -/
theorem writeProperty_cases (hvalid : ∀ r, v.own? = some r → ∃ c, w.get? r = some c)
    (hc : w.table? v = none → (cat.classOf w v).Modest) (label : String) (value : Value) :
    (∃ e w', cat.writeProperty v label value w = .error e w' ∧ w.Extends w') ∨
      ∃ u w', cat.writeProperty v label value w = .ok u w' ∧ cat.Stores w v label u w' := by
  rcases writeProperty_ready w v label value with ⟨s, hrefused⟩ | ⟨p, u, hp, hwritable, hu⟩
  · exact .inl ⟨s, w, hrefused, .refl w⟩
  have hext := w.extends_adopt u
  cases htable : w.table? v with
  | some t =>
      obtain ⟨frozen, entries⟩ := t
      obtain ⟨r, rfl, hr⟩ := World.table?_eq_some htable
      have hname : p.name = label := by
        rw [findProperty?_table htable] at hp
        obtain ⟨-, -, rfl⟩ := Option.map_eq_some_iff.1 hp
        rfl
      rw [writeProperty_table hr hp hwritable hu, hname]
      exact .inr ⟨_, _, rfl, .inTable hext rfl hr⟩
  | none =>
      -- adopting the value comes between the check and the assignment, and leaves
      -- the class as it was found
      have hcell : ∀ r, v.own? = some r → (w.adopt u).2.get? r = w.get? r := by
        intro r hr
        obtain ⟨c, hcell⟩ := hvalid r hr
        rw [hext r c hcell, hcell]
      have hclass : cat.classOf (w.adopt u).2 v = cat.classOf w v :=
        classOf_congr (World.face_of_get? hcell).1
      have hmodest : (cat.classOf (w.adopt u).2 v).Modest := hclass ▸ hc htable
      rw [writeProperty_attribute htable hp hwritable hu]
      rcases assign_of_modest hmodest p.name (w.adopt u).1 with ⟨e, he⟩ | ⟨hset, hassign⟩
      · rw [he]
        exact .inl ⟨_, _, rfl, hext⟩
      · rw [hassign]
        rw [hclass] at hset ⊢
        exact .inr ⟨_, _, rfl, .inAttribute hext htable hp hwritable hset⟩

/-- Where an entry is replaced or added, its key has the new value, and all other
keys have the value that they had. -/
theorem property?_insert {w₁ : World} {r : Ref} {frozen : Bool} {entries : List (Value × Value)}
    (hr : w.get? r = some (.table frozen entries)) (hext : w.Extends w₁) (label : String)
    (u : Value) (l : String) :
    cat.property? (w₁.set r (.table frozen (cat.insert w₁ (.text label) u entries)))
        (.object r) l =
      if l = label then some u else cat.property? w (.object r) l := by
  have htable : w.table? (.object r) = some (frozen, entries) := by rw [World.table?, hr]
  have htable' : (w₁.set r (.table frozen (cat.insert w₁ (.text label) u entries))).table?
      (.object r) = some (frozen, cat.insert w₁ (.text label) u entries) := by
    rw [World.table?, World.get?_set_self (World.lt_of_get? (hext r _ hr))]
  rw [property?_table htable', property?_table htable, Outlines.textEntry_insert]

/-- Where an attribute is replaced, the property that is kept there has the new
value, and all others have the value that they had. -/
theorem property?_of_setAttribute (hc : (cat.classOf w v).Modest) (htable : w.table? v = none)
    (htable' : w'.table? v = none) (hclass : cat.classOf w' v = cat.classOf w v)
    (hfind : ∀ l, cat.findProperty? w' v l = cat.findProperty? w v l)
    (hp : cat.findProperty? w v label = some p) (hset : (cat.classOf w v).Settable p.name)
    {u : Value} (hattributes : w'.attributes v =
      setAttribute ((cat.classOf w v).place p.name) u (w.attributes v)) (l : String) :
    cat.property? w' v l = if l = label then some u else cat.property? w v l := by
  split
  · next hl =>
      subst hl
      obtain ⟨view, hview, hfetch⟩ := cat.fetch_of_modest hc v p.name
      rw [property?_of_modest (hclass ▸ hc) htable', hfind, hp, Option.bind_some,
        (hfetch w' hclass).2, hattributes, lookup_setAttribute_self, hview hset]
  · next hl =>
      refine property?_congr hc htable htable' hclass (hfind l) fun q hq => ?_
      rw [hattributes]
      apply lookup_setAttribute_of_ne
      intro hplace
      have hpublic {q : PropertyInfo} {l : String} (hq : cat.findProperty? w v l = some q) :
          isPublic q.name = true :=
        (Subject.mem_of_mem_properties (mem_of_findProperty? htable hq).1).1
      -- two properties that are kept in one place are one, by their names
      have hname := ClassDef.place_injective (hpublic hq) (hpublic hp) hplace
      exact hl (eq_of_name_eq htable hq hp hname)

namespace Stores

variable {u x : Value} {r : Ref}

/-- Storing changes at most a table or a record, and at most that of the value. -/
theorem get?_cases (h : cat.Stores w v label u w') {c : Cell} (hr : w.get? r = some c) :
    w'.get? r = some c ∨ v.own? = some r ∧ (∀ items, c ≠ .list items) ∧
      ∃ c', w'.get? r = some c' ∧ c.SameKind c' := by
  have hset {w₁ : World} {s : Ref} {d d' : Cell} (hext : w.Extends w₁) (hs : w₁.get? s = some d)
      (hv : v.own? = some s) (hd : ∀ items, d ≠ .list items) (hkind : d.SameKind d') :
      (w₁.set s d').get? r = some c ∨ v.own? = some r ∧ (∀ items, c ≠ .list items) ∧
        ∃ c', (w₁.set s d').get? r = some c' ∧ c.SameKind c' := by
    by_cases hsr : s = r
    · subst hsr
      obtain rfl : d = c := Option.some.inj (hs.symm.trans (hext s c hr))
      exact .inr ⟨hv, hd, d', World.get?_set_self (World.lt_of_get? hs) d', hkind⟩
    · exact .inl ((World.get?_set_of_ne hsr d').trans (hext r c hr))
  cases h with
  | @inTable w₁ s frozen entries hext hv hs =>
      exact hset hext (hext s _ hs) (by rw [hv]; rfl) (by simp) (.table ..)
  | @inAttribute w₁ p hext htable hp hwritable hsettable =>
      rcases w₁.setOwn_cases v ((cat.classOf w v).place p.name) u with
        hsame | ⟨s, cls, as, hs, hv, hstored⟩
      · rw [hsame]
        exact .inl (hext r c hr)
      · have hown : v.own? = some s := by
          rcases hv with rfl | ⟨width, n, rfl⟩ <;> rfl
        rw [hstored]
        exact hset hext hs hown (by simp) (.record ..)

theorem evolves (h : cat.Stores w v label u w') : w.Evolves w' := by
  intro r c hr
  rcases h.get?_cases hr with hsame | ⟨-, -, hchanged⟩
  · exact ⟨c, hsame, .refl c⟩
  · exact hchanged

/-- No list is changed. -/
theorem items? (h : cat.Stores w v label u w')
    (hx : ∀ r, x.own? = some r → ∃ c, w.get? r = some c) : w'.items? x = w.items? x := by
  cases x with
  | object r =>
      obtain ⟨c, hr⟩ := hx r rfl
      rw [World.items?, World.items?, hr]
      rcases h.get?_cases hr with hsame | ⟨-, hlist, c', hr', hkind⟩
      · rw [hsame]
      · rw [hr']
        cases hkind with
        | list items items' => exact absurd rfl (hlist items)
        | _ => rfl
  | _ => rfl

/-- Values with another cell of their own, or none, keep their properties. -/
theorem property?_of_ne (h : cat.Stores w v label u w')
    (hx : ∀ r, x.own? = some r → ∃ c, w.get? r = some c)
    (hc : w.table? x = none → (cat.classOf w x).Modest)
    (hne : ∀ r, x.own? = some r → v.own? ≠ some r) (l : String) :
    cat.property? w' x l = cat.property? w x l := by
  refine property?_of_get? hc (fun r hr => ?_) l
  obtain ⟨c, hcell⟩ := hx r hr
  rcases h.get?_cases hcell with hsame | ⟨hv, -⟩
  · rw [hsame, hcell]
  · exact absurd hv (hne r hr)

/-- The value itself, and any other with the same cell and class, has the stored
value under the label and else the properties that it had, provided that its
attributes are named as before or its class is fixed. -/
theorem property?_of_eq (h : cat.Stores w v label u w') (hv : v.own? = some r)
    (hx : x.own? = some r) (hclass : w.classOf x = w.classOf v)
    (htable : w.table? x = w.table? v)
    (hc : w.table? x = none → (cat.classOf w x).Modest)
    (hrecord : w.table? x = none → ∃ cls as, w.get? r = some (.record cls as))
    (hnames : w.table? x = none → (cat.classOf w x).Fixed ∨
      (w'.attributes x).map (·.1) = (w.attributes x).map (·.1))
    (l : String) :
    cat.property? w' x l = if l = label then some u else cat.property? w x l := by
  cases h with
  | @inTable w₁ s frozen entries hext hv' hs =>
      subst hv'
      obtain rfl : s = r := Option.some.inj hv
      rw [World.table?, hs] at htable
      obtain ⟨q, rfl, -⟩ := World.table?_eq_some htable
      obtain rfl : q = s := Option.some.inj hx
      exact property?_insert hs hext label u l
  | @inAttribute w₁ p hext htable' hp hwritable hset =>
      have hnone : w.table? x = none := htable.trans htable'
      obtain ⟨cls, as, hr⟩ := hrecord hnone
      have hr₁ := hext r _ hr
      have hdef : cat.classOf w x = cat.classOf w v := classOf_congr hclass
      have hlisted : cat.findProperty? w x label = some p := by
        rw [← hp]
        exact findProperty?_of_own hx hv hr hclass hnone htable' label
      rw [World.setOwn_of_own hv hr₁] at hnames ⊢
      have hr' := World.get?_set_self (World.lt_of_get? hr₁)
        (.record cls (setAttribute ((cat.classOf w v).place p.name) u as))
      generalize w₁.set r _ = w' at hnames hr' ⊢
      have hnone' := World.table?_of_own hx hr'
      have hclass' : cat.classOf w' x = cat.classOf w x :=
        classOf_congr (World.classOf_of_own hx hr hr')
      have hstored : w'.attributes x =
          setAttribute ((cat.classOf w x).place p.name) u (w.attributes x) := by
        rw [World.attributes_of_own hx hr', World.attributes_of_own hx hr, hdef]
      refine property?_of_setAttribute (hc hnone) hnone hnone' hclass' (fun l => ?_) hlisted
        (hdef ▸ hset) hstored l
      -- an attribute may be new only in a fixed class, and is then kept under its label
      rcases hnames hnone with hfixed | hnames
      · have hplace : (cat.classOf w x).place p.name = label := by
          rw [hfixed.place_of_settable (hdef ▸ hset),
            (eq_plain_of_findProperty? hnone hfixed hlisted hwritable).1]
          rfl
        rw [hplace] at hstored
        exact findProperty?_of_fixed hnone hnone' hclass' hfixed hlisted hwritable hstored l
      · exact findProperty?_of_names hnone hnone' hclass' hnames l

end Stores

end Catalog

end ObjectConsole
