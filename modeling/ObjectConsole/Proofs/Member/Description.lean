import ObjectConsole.Proofs.Member.Listing

/-!
Descriptions, name by name. A value is described in one walk over its fields, its
own attributes and the members of its classes, most derived first, which keeps
what it meets first under a name. So no name is described twice, and what
describes it is settled for each name by itself: a field comes before an
attribute, an attribute before the classes, and of the classes the most derived
one that defines the name is the only one asked. Members of an enumeration are
passed over where properties are looked for, and hide nothing; methods are hidden
by definitions of every kind.
-/

namespace ObjectConsole

theorem lookup_flatMap {α β : Type} (f : β → List (String × α)) (bs : List β) (name : String) :
    (bs.flatMap f).lookup name = bs.findSome? fun b => (f b).lookup name := by
  induction bs with
  | nil => rfl
  | cons b rest ih =>
      rw [List.flatMap_cons, List.lookup_append, List.findSome?_cons, ih]
      cases (f b).lookup name <;> rfl

theorem lookup_map_mk {α : Type} (f : String → α) (names : List String) (name : String) :
    (names.map fun n => (n, f n)).lookup name = if name ∈ names then some (f name) else none := by
  split
  · next h => exact List.lookup_graph f h
  · next h => simpa [List.lookup_eq_none_iff] using fun n hn => (ne_of_mem_of_not_mem hn h).symm

namespace ClassDef

/-- The definition of a name by the most derived class that has one, members of an
enumeration apart. -/
def definition? (c : ClassDef) (name : String) : Option Member :=
  c.lineage.findSome? fun body =>
    (body.members.filter fun e => !Subject.isChoice e.2).lookup name

variable (c : ClassDef) (name : String)

theorem lookup_members : (c.lineage.flatMap (·.members)).lookup name = c.member? name :=
  lookup_flatMap ..

theorem lookup_filter_members :
    ((c.lineage.flatMap (·.members)).filter fun e => !Subject.isChoice e.2).lookup name =
      c.definition? name := by
  rw [List.filter_flatMap, lookup_flatMap, definition?]

end ClassDef

namespace Subject

variable {s : Subject} {name : String} {p : PropertyInfo} {info : MethodInfo}

/-! ### Properties -/

def field? (s : Subject) (name : String) : Option Field :=
  s.cls.outline.fields.find? fun f => f.name == name

/-- The description of a name as a property: as a field, else as an attribute of
the value, else as what the most derived class makes of it. -/
def description? (s : Subject) (name : String) : Option PropertyInfo :=
  match s.field? name with
  | some f => some (s.ofField f)
  | none =>
    if name ∈ s.own then some (plain name (s.cls.hint name))
    else (s.cls.definition? name).bind (s.ofMember name)

theorem lookup_fields (s : Subject) (name : String) :
    (s.cls.outline.fields.map fun f => (f.name, some (s.ofField f))).lookup name =
      (s.field? name).map fun f => some (s.ofField f) := by
  rw [field?]
  induction s.cls.outline.fields with
  | nil => rfl
  | cons f rest ih =>
      rw [List.map_cons, List.lookup_cons, List.find?_cons, ih, Bool.beq_comm]
      cases f.name == name <;> rfl

theorem lookup_propertyCandidates (s : Subject) (name : String) :
    s.propertyCandidates.lookup name =
      ((s.field? name).map fun f => some (s.ofField f)).or
        (if name ∈ s.own then some (some (plain name (s.cls.hint name)))
          else (s.cls.definition? name).map (s.ofMember name)) := by
  rw [propertyCandidates, List.append_assoc, List.lookup_append, List.lookup_append, lookup_fields,
    lookup_map_mk fun n => some (plain n (s.cls.hint n)), lookup_map_snd, members,
    ClassDef.lookup_filter_members]
  split <;> rfl

theorem join_lookup_propertyCandidates (s : Subject) (name : String) :
    (s.propertyCandidates.lookup name).join = s.description? name := by
  rw [lookup_propertyCandidates, description?]
  cases s.field? name with
  | some f => rfl
  | none =>
      rw [Option.map_none, Option.none_or]
      split
      · rfl
      · cases s.cls.definition? name <;> rfl

/-- The properties are the descriptions of the public names. -/
theorem mem_properties_iff_description? :
    p ∈ s.properties ↔ isPublic p.name = true ∧ s.description? p.name = some p := by
  rw [mem_properties_iff, ← join_lookup_propertyCandidates, Option.join_eq_some_iff]

/-! ### Methods -/

theorem name_of_methodOf {m : Member} (h : s.methodOf name m = some info) : info.name = name := by
  cases m with
  | method m =>
      rw [methodOf] at h
      split at h
      · exact absurd h (by simp)
      · obtain ⟨params, -, rfl⟩ := Option.map_eq_some_iff.1 h
        rfl
  | _ => exact absurd h (by simp [methodOf])

/-- The methods are what the most derived class makes of the public names. -/
theorem mem_methods_iff :
    info ∈ s.methods ↔ isPublic info.name = true ∧
      (s.cls.member? info.name).bind (s.methodOf info.name) = some info := by
  have hlookup : (s.members.filter fun e => isPublic e.1).lookup info.name =
      if isPublic info.name then s.cls.member? info.name else none := by
    rw [lookup_filter_fst, members, ClassDef.lookup_members]
  rw [methods, firstOfEach, List.mem_filterMap]
  constructor
  · rintro ⟨⟨name, m⟩, hmem, hinfo⟩
    obtain rfl := name_of_methodOf hinfo
    have hfirst := (Catalog.mem_firstUnseen_iff.1 hmem).2
    rw [hlookup] at hfirst
    split at hfirst
    · next hpublic =>
        refine ⟨hpublic, ?_⟩
        rw [hfirst]
        exact hinfo
    · exact absurd hfirst (by simp)
  · rintro ⟨hpublic, hinfo⟩
    obtain ⟨m, hm, hinfo⟩ := Option.bind_eq_some_iff.1 hinfo
    refine ⟨(info.name, m), Catalog.mem_firstUnseen_iff.2 ⟨List.not_mem_nil, ?_⟩, hinfo⟩
    rw [hlookup, if_pos hpublic, hm]

/-- The names of the methods are pairwise distinct. -/
theorem nodup_names_methods (s : Subject) : (s.methods.map (·.name)).Nodup :=
  Catalog.nodup_filterMap_firstUnseen fun _ _ _ hinfo => name_of_methodOf hinfo

end Subject

theorem head?_ne_of_isPublic {name : String} (h : isPublic name = true) :
    name.toList.head? ≠ some '_' := by
  simpa [isPublic] using h

/-! ### The description of a value -/

def stringKeys (entries : List (Value × Value)) : List String :=
  entries.filterMap fun (key, _) =>
    match key with
    | .text name => some name
    | _ => none

namespace Catalog

/-- The description of a value is a proper table. No name is described twice, and
none with an underscore at all; what describes a name is the field, the attribute
or the definition that goes first; and the members are shown under each name
once. -/
structure IsProper (cat : Catalog) (w : World) (v : Value) : Prop where
  nodup_properties : ((cat.properties w v).map (·.name)).Nodup
  nodup_methods : ((cat.methods w v).map (·.name)).Nodup
  public_properties : ∀ p ∈ cat.properties w v, p.name.toList.head? ≠ some '_'
  public_methods : ∀ m ∈ cat.methods w v, m.name.toList.head? ≠ some '_'
  property_iff : ∀ p, p ∈ cat.properties w v ↔
    v.isNull = false ∧ isPublic p.name = true ∧ (cat.subject w v).description? p.name = some p
  method_iff : ∀ m, m ∈ cat.methods w v ↔
    v.isNull = false ∧ isPublic m.name = true ∧
      ((cat.classOf w v).member? m.name).bind ((cat.subject w v).methodOf m.name) = some m
  nodup_names : (cat.memberNames w v).Nodup
  names_eq : cat.memberNames w v =
    ((cat.properties w v).map (·.label) ++ (cat.methods w v).map (·.label)).eraseDups

variable {cat : Catalog} {w : World} {v : Value}

theorem properties_of_table?_eq_none (h : w.table? v = none) :
    cat.properties w v = if v.isNull then [] else (cat.subject w v).properties := by
  rw [properties, h]

/-- Every value but a table has a proper description. -/
theorem isProper (cat : Catalog) (h : w.table? v = none) : cat.IsProper w v := by
  have hproperty (p : PropertyInfo) : p ∈ cat.properties w v ↔ v.isNull = false ∧
      isPublic p.name = true ∧ (cat.subject w v).description? p.name = some p := by
    rw [properties_of_table?_eq_none h]
    cases v.isNull <;> simp [Subject.mem_properties_iff_description?]
  have hmethod (m : MethodInfo) : m ∈ cat.methods w v ↔ v.isNull = false ∧
      isPublic m.name = true ∧
        ((cat.classOf w v).member? m.name).bind ((cat.subject w v).methodOf m.name) = some m := by
    rw [methods]
    cases v.isNull <;> simp [Subject.mem_methods_iff, subject]
  refine ⟨?_, ?_, fun p hp => ?_, fun m hm => ?_, hproperty, hmethod, nodup_memberNames cat w v,
    memberNames_eq_eraseDups cat w v⟩
  · rw [properties_of_table?_eq_none h]
    split
    · exact List.nodup_nil
    · exact Subject.nodup_names_properties _
  · rw [methods]
    split
    · exact List.nodup_nil
    · exact Subject.nodup_names_methods _
  · exact head?_ne_of_isPublic ((hproperty p).1 hp).2.1
  · exact head?_ne_of_isPublic ((hmethod m).1 hm).2.1

theorem isPublic_of_findProperty? {label : String} {p : PropertyInfo} (h : w.table? v = none)
    (hp : cat.findProperty? w v label = some p) : isPublic p.name = true :=
  (((cat.isProper h).property_iff p).1 (List.mem_of_find?_eq_some hp)).2.1

/-- A table has its string keys for properties, shown as they are. -/
theorem properties_of_table {frozen : Bool} {entries : List (Value × Value)}
    (h : w.table? v = some (frozen, entries)) :
    cat.properties w v = (stringKeys entries).map fun key =>
      { name := key
        label := key
        type := .undeclared
        readable := true
        writable := !frozen } := by
  rw [properties, h]
  dsimp only
  rw [keyProperties, stringKeys, List.map_filterMap]
  refine List.filterMap_congr fun e _ => ?_
  obtain ⟨key, value⟩ := e
  cases key <;> rfl

end Catalog

end ObjectConsole
