import ObjectConsole.Proofs.Member.Conduct
import Mathlib.Data.List.Nodup

/-!
Listings of properties. A table lists its string keys, and a text is found there
as itself alone. Any other value lists its properties under names that are
pairwise distinct and do not start with an underscore. If its class is fixed, a
new attribute in front of a plain value of the class makes no difference to what
is found.
-/

namespace ObjectConsole

/-! ### Entries of a table -/

def textEntry (label : String) (entries : List (Value × Value)) : Option Value :=
  (entries.find? fun e => Outlines.identical (.text label) e.1).map (·.2)

theorem identical_text_iff {s : String} {k : Value} :
    Outlines.identical (.text s) k = true ↔ k = .text s := by
  cases k with
  | text t => rw [Outlines.identical, beq_iff_eq, Value.text.injEq, eq_comm]
  | _ => simp [Outlines.identical]

theorem textEntry_cons_self (label : String) (v : Value) (rest : List (Value × Value)) :
    textEntry label ((.text label, v) :: rest) = some v := by
  have hself : Outlines.identical (.text label) (.text label) = true := identical_text_iff.2 rfl
  rw [textEntry, List.find?_cons, hself]
  rfl

theorem textEntry_cons_of_ne {label : String} {k : Value} (hk : k ≠ .text label) (v : Value)
    (rest : List (Value × Value)) :
    textEntry label ((k, v) :: rest) = textEntry label rest := by
  have hother : Outlines.identical (.text label) k = false := by
    rw [Bool.eq_false_iff]
    exact mt identical_text_iff.1 hk
  rw [textEntry, List.find?_cons, hother, textEntry]

namespace Outlines

variable (o : Outlines)

theorem le_extent (w : World) (v : Value) : 0 < w.extent v := by
  have hfold (cells : List Cell) (n : Nat) :
      n ≤ cells.foldl (fun n c => n + 1 + Value.depthAll c.values) n := by
    induction cells generalizing n with
    | nil => exact Nat.le_refl n
    | cons c cells ih =>
        exact (Nat.le_trans (by omega) (Nat.le_add_right (n + 1) _)).trans (ih _)
  rw [World.extent, ← Array.foldl_toList]
  exact (Nat.succ_pos _).trans_le (hfold _ _)

/-- A text equals nothing but itself. -/
theorem equal_text (w : World) (s : String) (k : Value) :
    o.equal w (.text s) k = identical (.text s) k := by
  obtain ⟨n, hn⟩ := Nat.exists_eq_add_of_lt (le_extent w (.text s))
  have hbound : w.extent (.text s) + w.extent k = n + w.extent k + 1 := by omega
  rw [equal, hbound]
  cases k <;> simp [equalWithin, identical, Value.number?]

theorem lookup_text (w : World) (label : String) (entries : List (Value × Value)) :
    o.lookup w (.text label) entries = textEntry label entries := by
  rw [lookup, textEntry]
  simp only [equal_text]

theorem textEntry_insert (w : World) (s label : String) (u : Value)
    (entries : List (Value × Value)) :
    textEntry label (o.insert w (.text s) u entries) =
      if label = s then some u else textEntry label entries := by
  induction entries with
  | nil =>
      rw [insert]
      split
      · next h => rw [h, textEntry_cons_self]
      · next h => rw [textEntry_cons_of_ne (by simpa using Ne.symm h)]
  | cons e rest ih =>
      obtain ⟨k, v⟩ := e
      rw [insert, equal_text]
      by_cases hk : k = .text s
      · rw [if_pos (identical_text_iff.2 hk), hk]
        split
        · next h => rw [h, textEntry_cons_self]
        · next h =>
            have hne : Value.text s ≠ .text label := by simpa using Ne.symm h
            rw [textEntry_cons_of_ne hne, textEntry_cons_of_ne hne]
      · rw [if_neg (mt identical_text_iff.1 hk)]
        by_cases hl : k = .text label
        · have hne : label ≠ s := fun h => hk (by rw [hl, h])
          rw [hl, textEntry_cons_self, textEntry_cons_self, if_neg hne]
        · rw [textEntry_cons_of_ne hl, textEntry_cons_of_ne hl, ih]

end Outlines

theorem keyProperties_cons_text (frozen : Bool) (name : String) (v : Value)
    (rest : List (Value × Value)) :
    keyProperties frozen ((.text name, v) :: rest) =
      { name, label := name, type := .undeclared, readable := true, writable := !frozen } ::
        keyProperties frozen rest :=
  rfl

theorem keyProperties_cons_of_ne (frozen : Bool) {k : Value} (hk : ∀ s, k ≠ .text s) (v : Value)
    (rest : List (Value × Value)) :
    keyProperties frozen ((k, v) :: rest) = keyProperties frozen rest := by
  cases k with
  | text s => exact absurd rfl (hk s)
  | _ => rfl

/-- A table has the properties that it has entries for. -/
theorem find?_keyProperties (frozen : Bool) (entries : List (Value × Value)) (label : String) :
    (keyProperties frozen entries).find? (fun p => p.label == label) =
      (textEntry label entries).map fun _ =>
        { name := label, label, type := .undeclared, readable := true, writable := !frozen } := by
  induction entries with
  | nil => rfl
  | cons e rest ih =>
      obtain ⟨k, v⟩ := e
      by_cases hl : k = .text label
      · rw [hl, keyProperties_cons_text, List.find?_cons_of_pos (by simp), textEntry_cons_self]
        rfl
      · rw [textEntry_cons_of_ne hl, ← ih]
        by_cases hk : ∃ s, k = .text s
        · obtain ⟨s, rfl⟩ := hk
          rw [keyProperties_cons_text, List.find?_cons_of_neg]
          simpa using hl
        · rw [keyProperties_cons_of_ne frozen fun s hs => hk ⟨s, hs⟩]

/-! ### The listing of other values -/

namespace Catalog

/-- An entry is kept if it stands first under a name that was not seen. -/
theorem mem_firstUnseen_iff {α : Type} {seen : List String} {entries : List (String × α)}
    {e : String × α} :
    e ∈ firstUnseen seen entries ↔ e.1 ∉ seen ∧ entries.lookup e.1 = some e.2 := by
  induction entries generalizing seen with
  | nil => simp [firstUnseen]
  | cons a rest ih =>
      obtain ⟨name, x⟩ := a
      rw [firstUnseen, List.lookup_cons]
      by_cases hname : e.1 = name
      · rw [hname, beq_self_eq_true]
        split
        · next hseen =>
            have hmem : name ∈ seen := by simpa using hseen
            simp [ih, hname, hmem]
        · next hseen =>
            have hunseen : name ∉ seen := by simpa using hseen
            rw [List.mem_cons, ih]
            simp [Prod.ext_iff, hname, hunseen, eq_comm]
      · have hne : e ≠ (name, x) := fun h => hname (congrArg Prod.fst h)
        rw [beq_eq_false_iff_ne.2 hname]
        split
        · exact ih
        · rw [List.mem_cons, ih]
          simp [hne, hname]

/-- Of the names of the entries, those that were not seen are kept, each once, in
the order in which they are met. -/
theorem map_fst_firstUnseen {α : Type} (seen : List String) (entries : List (String × α)) :
    (firstUnseen seen entries).map (·.1) =
      ((entries.map (·.1)).filter fun name => !seen.contains name).eraseDups := by
  induction entries generalizing seen with
  | nil => simp [firstUnseen]
  | cons e rest ih =>
      obtain ⟨name, a⟩ := e
      rw [firstUnseen, List.map_cons]
      split
      · next hseen => rw [ih, List.filter_cons_of_neg (by simpa using hseen)]
      · next hseen =>
          rw [List.filter_cons_of_pos (by simpa using hseen), List.eraseDups_cons,
            List.filter_filter, List.map_cons, ih]
          simp only [List.contains_cons, Bool.not_or]

theorem nodup_map_fst_firstUnseen {α : Type} (seen : List String)
    (entries : List (String × α)) : ((firstUnseen seen entries).map (·.1)).Nodup := by
  induction entries generalizing seen with
  | nil => exact List.nodup_nil
  | cons e rest ih =>
      rw [firstUnseen]
      split
      · exact ih seen
      · rw [List.map_cons, List.nodup_cons]
        refine ⟨fun hmem => ?_, ih _⟩
        obtain ⟨e', he', hname⟩ := List.mem_map.1 hmem
        exact (mem_firstUnseen_iff.1 he').1 (hname ▸ List.mem_cons_self ..)

/-- What is made of some entries is named in their order, if it is named like them. -/
theorem sublist_map_filterMap {α β : Type} {f : String × α → Option β} {key : β → String}
    {entries : List (String × α)} (h : ∀ e ∈ entries, ∀ b, f e = some b → key b = e.1) :
    ((entries.filterMap f).map key).Sublist (entries.map (·.1)) := by
  induction entries with
  | nil => exact .slnil
  | cons e rest ih =>
      obtain ⟨he, hrest⟩ := List.forall_mem_cons.1 h
      rw [List.map_cons]
      cases hf : f e with
      | none =>
          rw [List.filterMap_cons_none hf]
          exact (ih hrest).cons _
      | some b =>
          rw [List.filterMap_cons_some hf, List.map_cons, he b hf]
          exact (ih hrest).cons_cons _

/-- What is made of the first entries of all names has distinct names. -/
theorem nodup_filterMap_firstUnseen {α β : Type} {f : String × α → Option β}
    {key : β → String} {seen : List String} {entries : List (String × α)}
    (h : ∀ e ∈ entries, ∀ b, f e = some b → key b = e.1) :
    (((firstUnseen seen entries).filterMap f).map key).Nodup :=
  (nodup_map_fst_firstUnseen seen entries).sublist
    (sublist_map_filterMap fun e he => h e (mem_of_mem_firstUnseen he))

/-- The names that the members of a value are shown under, properties first. -/
def labels (cat : Catalog) (w : World) (v : Value) : List String :=
  (cat.properties w v).map (·.label) ++ (cat.methods w v).map (·.label)

theorem memberNames_eq_eraseDups (cat : Catalog) (w : World) (v : Value) :
    cat.memberNames w v = (cat.labels w v).eraseDups := by
  have hnames (names : List String) : (names.map fun name => (name, ())).map (·.1) = names := by
    rw [List.map_map]
    exact List.map_id names
  rw [memberNames, firstOfEach, map_fst_firstUnseen, hnames, ← labels]
  simp

theorem nodup_memberNames (cat : Catalog) (w : World) (v : Value) :
    (cat.memberNames w v).Nodup := nodup_map_fst_firstUnseen ..

theorem find?_cons_described {name : String} {info : Option PropertyInfo}
    (h : ∀ p, info = some p → p.label = name) (rest : List (String × Option PropertyInfo))
    (label : String) :
    (((name, info) :: rest).filterMap (·.2)).find? (fun p => p.label == label) =
      ((if label = name then info else none).or
        ((rest.filterMap (·.2)).find? fun p => p.label == label)) := by
  cases info with
  | none => rw [List.filterMap_cons_none rfl, ite_self, Option.none_or]
  | some p =>
      rw [List.filterMap_cons]
      dsimp only
      by_cases hlabel : label = name
      · rw [List.find?_cons_of_pos (by simp [h p rfl, hlabel]), if_pos hlabel, Option.some_or]
      · rw [List.find?_cons_of_neg (by simpa [h p rfl] using Ne.symm hlabel), if_neg hlabel,
          Option.none_or]

/-- Where labels are names, a property is found as what stands first under its
name. -/
theorem find?_firstUnseen {seen : List String} {entries : List (String × Option PropertyInfo)}
    (h : ∀ e ∈ entries, ∀ p, e.2 = some p → p.label = e.1) (label : String) :
    ((firstUnseen seen entries).filterMap (·.2)).find? (fun p => p.label == label) =
      if label ∈ seen then none else (entries.lookup label).join := by
  induction entries generalizing seen with
  | nil => simp [firstUnseen]
  | cons e rest ih =>
      obtain ⟨name, info⟩ := e
      have hrest : ∀ e ∈ rest, ∀ p, e.2 = some p → p.label = e.1 := fun e he =>
        h e (List.mem_cons_of_mem _ he)
      rw [firstUnseen, List.lookup_cons]
      split
      · next hseen =>
          have hmem : name ∈ seen := by simpa using hseen
          rw [ih hrest]
          by_cases hlabel : label = name
          · rw [if_pos (hlabel ▸ hmem), if_pos (hlabel ▸ hmem)]
          · rw [beq_eq_false_iff_ne.2 hlabel]
      · next hseen =>
          have hunseen : name ∉ seen := by simpa using hseen
          rw [find?_cons_described (h _ (List.mem_cons_self ..)), ih hrest]
          by_cases hlabel : label = name
          · subst hlabel
            rw [if_pos rfl, if_pos (List.mem_cons_self ..), if_neg hunseen, Option.or_none,
              beq_self_eq_true]
            rfl
          · -- to have seen the other name does not matter for the label
            have hmem : label ∈ name :: seen ↔ label ∈ seen := by simp [hlabel]
            rw [if_neg hlabel, Option.none_or, beq_eq_false_iff_ne.2 hlabel]
            simp only [hmem]

end Catalog

theorem lookup_filter_fst {α : Type} (keep : String → Bool) (entries : List (String × α))
    (name : String) :
    (entries.filter fun e => keep e.1).lookup name =
      if keep name then entries.lookup name else none := by
  induction entries with
  | nil => simp
  | cons e rest ih =>
      obtain ⟨n, a⟩ := e
      rw [List.filter_cons, List.lookup_cons]
      by_cases hname : name = n
      · subst hname
        rw [beq_self_eq_true]
        cases hkeep : keep name with
        | true => simp
        | false => simpa [hkeep] using ih
      · have hother : (name == n) = false := beq_eq_false_iff_ne.2 hname
        split
        · rw [List.lookup_cons, hother, ih]
        · rw [hother, ih]

theorem lookup_map_snd {α β : Type} (f : String → α → β) (entries : List (String × α))
    (name : String) :
    (entries.map fun e => (e.1, f e.1 e.2)).lookup name = (entries.lookup name).map (f name) := by
  induction entries with
  | nil => rfl
  | cons e rest ih =>
      rw [List.map_cons, List.lookup_cons, List.lookup_cons]
      by_cases hname : name = e.1
      · subst hname
        simp
      · rw [beq_eq_false_iff_ne.2 hname]
        exact ih

namespace Subject

variable {s : Subject} {p : PropertyInfo}

/-- What a property is described from: a field, an attribute of the value, or a
member of its classes. -/
theorem mem_propertyCandidates {e : String × Option PropertyInfo}
    (h : e ∈ s.propertyCandidates) :
    (∃ f ∈ s.cls.outline.fields, e = (f.name, some (s.ofField f))) ∨
      (∃ name ∈ s.own, e = (name, some (plain name (s.cls.hint name)))) ∨
      ∃ name m, (name, m) ∈ s.members ∧ e = (name, s.ofMember name m) := by
  rw [propertyCandidates, List.mem_append, List.mem_append] at h
  rcases h with (h | h) | h
  · obtain ⟨f, hf, rfl⟩ := List.mem_map.1 h
    exact .inl ⟨f, hf, rfl⟩
  · obtain ⟨name, hname, rfl⟩ := List.mem_map.1 h
    exact .inr (.inl ⟨name, hname, rfl⟩)
  · obtain ⟨⟨name, m⟩, hm, rfl⟩ := List.mem_map.1 h
    exact .inr (.inr ⟨name, m, List.mem_of_mem_filter hm, rfl⟩)

/-- A property is described under the name that it was found by. -/
theorem name_of_mem_propertyCandidates {e : String × Option PropertyInfo}
    (h : e ∈ s.propertyCandidates) (hp : e.2 = some p) : p.name = e.1 := by
  rcases mem_propertyCandidates h with ⟨f, -, rfl⟩ | ⟨name, -, rfl⟩ | ⟨name, m, -, rfl⟩
  · rw [← Option.some.inj hp]
    rfl
  · rw [← Option.some.inj hp]
    rfl
  · cases m <;> simp_all [ofMember, ofAccessor, plain] <;> rw [← hp]

theorem mem_of_mem_properties (h : p ∈ s.properties) :
    isPublic p.name = true ∧ (p.name, some p) ∈ s.propertyCandidates := by
  obtain ⟨e, he, hp⟩ := List.mem_filterMap.1 h
  obtain ⟨hmem, hpublic⟩ := List.mem_filter.1 (Catalog.mem_of_mem_firstUnseen he)
  have hname := name_of_mem_propertyCandidates hmem hp
  rw [hname, ← hp]
  exact ⟨hpublic, hmem⟩

/-- The properties are what stands first under a name that is no underscored
one. -/
theorem mem_properties_iff :
    p ∈ s.properties ↔
      isPublic p.name = true ∧ s.propertyCandidates.lookup p.name = some (some p) := by
  have hlookup : (s.propertyCandidates.filter fun e => isPublic e.1).lookup p.name =
      some (some p) ↔ isPublic p.name = true ∧
        s.propertyCandidates.lookup p.name = some (some p) := by
    rw [lookup_filter_fst]
    cases isPublic p.name <;> simp
  rw [← hlookup, properties, firstOfEach, List.mem_filterMap]
  constructor
  · rintro ⟨e, he, hp⟩
    have hname := name_of_mem_propertyCandidates
      (List.mem_of_mem_filter (Catalog.mem_of_mem_firstUnseen he)) hp
    rw [hname, ← hp]
    exact (Catalog.mem_firstUnseen_iff.1 he).2
  · intro h
    exact ⟨(p.name, some p), Catalog.mem_firstUnseen_iff.2 ⟨List.not_mem_nil, h⟩, rfl⟩

/-- The names of the properties are pairwise distinct. -/
theorem nodup_names_properties (s : Subject) : (s.properties.map (·.name)).Nodup :=
  Catalog.nodup_filterMap_firstUnseen fun _ he _ hp =>
    name_of_mem_propertyCandidates (List.mem_of_mem_filter he) hp

end Subject

/-! ### Fixed classes -/

/-- The member is shown under its own name, if at all, and to assign to it is to
put an attribute in front of it. -/
def Member.isFixed : Member → Bool
  | .accessor a => a.set.isNone && !a.cached && a.mark.label.isNone
  | .slot => false
  | _ => true

def Member.isFirm (m : Member) : Bool :=
  m.isFixed && match m with
    | .constant _ => false
    | _ => true

structure ClassDef.Fixed (c : ClassDef) : Prop where
  fields : c.outline.fields = []
  members : ∀ e ∈ c.lineage.flatMap (·.members), e.2.isFixed = true

namespace Subject

variable {s : Subject} {p : PropertyInfo}

/-- What can be written to is an attribute, or a plain value of the class. -/
theorem eq_plain_of_fixed (hs : s.cls.Fixed) (hp : p ∈ s.properties)
    (hwritable : p.writable = true) :
    p = plain p.name (s.cls.hint p.name) ∧
      (p.name ∈ s.own ∨ ∃ u, (p.name, .constant u) ∈ s.members) := by
  rcases mem_propertyCandidates (mem_of_mem_properties hp).2 with
    ⟨f, hf, -⟩ | ⟨name, hname, h⟩ | ⟨name, m, hm, h⟩
  · exact absurd hf (by simp [hs.fields])
  · obtain ⟨rfl, h⟩ := Prod.mk.inj h
    exact ⟨Option.some.inj h, .inl hname⟩
  · obtain ⟨rfl, h⟩ := Prod.mk.inj h
    have hfixed := hs.members _ hm
    cases m with
    | constant u => exact ⟨Option.some.inj h, .inr ⟨u, hm⟩⟩
    | accessor a =>
        rw [Option.some.inj h] at hwritable
        simp_all [Member.isFixed, ofAccessor]
    | slot => exact absurd hfixed (by simp [Member.isFixed])
    | _ => exact absurd h (by simp [ofMember])

theorem label_of_fixed (hs : s.cls.Fixed) {e : String × Option PropertyInfo}
    (he : e ∈ s.propertyCandidates) (hp : e.2 = some p) : p.label = e.1 := by
  rcases mem_propertyCandidates he with ⟨f, hf, -⟩ | ⟨name, -, rfl⟩ | ⟨name, m, hm, rfl⟩
  · exact absurd hf (by simp [hs.fields])
  · rw [← Option.some.inj hp]
    rfl
  · have hfixed := hs.members _ hm
    cases m with
    | accessor a =>
        simp only [Member.isFixed, Bool.and_eq_true, Option.isNone_iff_eq_none] at hfixed
        rw [← Option.some.inj hp, ofAccessor]
        simp [Mark.displayName, hfixed.2]
    | constant u =>
        rw [← Option.some.inj hp]
        rfl
    | slot => exact absurd hfixed (by simp [Member.isFixed])
    | _ => exact absurd hp (by simp [ofMember])

/-- A property of a fixed class is what stands first under its name. -/
theorem find?_properties_of_fixed (hs : s.cls.Fixed) (label : String) :
    s.properties.find? (fun p => p.label == label) =
      if isPublic label then (s.propertyCandidates.lookup label).join else none := by
  rw [properties, firstOfEach, Catalog.find?_firstUnseen, lookup_filter_fst]
  · simp only [List.not_mem_nil, if_false]
    split <;> rfl
  · exact fun e he p hp => label_of_fixed hs (List.mem_of_mem_filter he) hp

/-- With an attribute more, the same properties are found as before, if the
attribute stands for a plain property that was found already. -/
theorem find?_properties_append {c : ClassDef} (hc : c.Fixed) {own : List String} {name : String}
    (h : (Subject.mk c own).properties.find? (fun p => p.label == name) =
      some (plain name (c.hint name))) (label : String) :
    (Subject.mk c (own ++ [name])).properties.find? (fun p => p.label == label) =
      (Subject.mk c own).properties.find? (fun p => p.label == label) := by
  rw [find?_properties_of_fixed (by exact hc)] at h
  rw [find?_properties_of_fixed (by exact hc), find?_properties_of_fixed (by exact hc)]
  obtain ⟨before, after, hold, hnew⟩ : ∃ before after,
      (Subject.mk c own).propertyCandidates = before ++ after ∧
      (Subject.mk c (own ++ [name])).propertyCandidates =
        before ++ (name, some (plain name (c.hint name))) :: after := by
    refine ⟨_, _, rfl, ?_⟩
    simp only [propertyCandidates, List.map_append, List.append_assoc]
    rfl
  rw [hold, List.lookup_append] at h
  rw [hold, hnew, List.lookup_append, List.lookup_append, List.lookup_cons]
  cases hbefore : before.lookup label with
  | some info => rfl
  | none =>
      by_cases hlabel : label = name
      · subst hlabel
        rw [hbefore] at h
        rw [beq_self_eq_true]
        split at h
        · next hpublic =>
            rw [if_pos hpublic, if_pos hpublic]
            exact h.symm
        · exact absurd h (by simp)
      · rw [beq_eq_false_iff_ne.2 hlabel]

end Subject

end ObjectConsole
