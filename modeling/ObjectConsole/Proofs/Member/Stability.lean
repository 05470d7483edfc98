import ObjectConsole.Proofs.Member.Description
import ObjectConsole.Proofs.Member.Moves
import ObjectConsole.Sample.Catalog

/-!
What becomes of the typing of a property while its object is used. A property
is described by the first of three sources that has its name: the fields of the
class, the attributes of the object, the members of the class. Only the second
changes. That is not to be seen of a plain value of the class, since an
attribute in front of it is described by the same hint. It is to be seen of a
cached property: its accessor has a label and a type of its own, and once the
value is kept among the attributes, nobody asks the accessor any more.
-/

namespace ObjectConsole

structure PropertyInfo.SameTyping (p q : PropertyInfo) : Prop where
  name : p.name = q.name
  label : p.label = q.label
  type : p.type = q.type
  writable : p.writable = q.writable

namespace PropertyInfo

variable {p q : PropertyInfo}

theorem SameTyping.refl (p : PropertyInfo) : p.SameTyping p := ⟨rfl, rfl, rfl, rfl⟩

theorem SameTyping.symm (h : p.SameTyping q) : q.SameTyping p :=
  ⟨h.name.symm, h.label.symm, h.type.symm, h.writable.symm⟩

theorem sameTyping_comm : p.SameTyping q ↔ q.SameTyping p := ⟨.symm, .symm⟩

end PropertyInfo

/-- For a cached property, the accessor gives another label or another type than
an attribute of the name would have. -/
def ClassDef.RevealsCaching (c : ClassDef) (name : String) : Prop :=
  name ∉ c.outline.fields.map (·.name) ∧
    ∃ a, c.member? name = some (.accessor a) ∧ a.cached = true ∧
      ((Subject.ofAccessor name a).label ≠ name ∨ (Subject.ofAccessor name a).type ≠ c.hint name)

/-! ### The three sources -/

theorem ClassDef.definition?_of_choiceless {c : ClassDef} (hc : c.Choiceless) (name : String) :
    c.definition? name = c.member? name := by
  have hall : ((c.lineage.flatMap (·.members)).filter fun e => !Subject.isChoice e.2) =
      c.lineage.flatMap (·.members) :=
    List.filter_eq_self.2 fun e he => by rw [hc e he]; rfl
  rw [← lookup_filter_members, hall, lookup_members]

def ClassDef.memberInfo? (c : ClassDef) (name : String) : Option (Option PropertyInfo) :=
  (c.member? name).map (Subject.ofMember ⟨c, []⟩ name)

namespace Subject

variable {c : ClassDef} {own own' : List String} {name : String} {p : PropertyInfo}

/-- Where a field has the name, the attributes are not asked. -/
theorem lookup_of_field (hfield : name ∈ c.outline.fields.map (·.name)) (own own' : List String) :
    (Subject.mk c own').propertyCandidates.lookup name =
      (Subject.mk c own).propertyCandidates.lookup name := by
  obtain ⟨f, hf, rfl⟩ := List.mem_map.1 hfield
  rw [lookup_propertyCandidates, lookup_propertyCandidates]
  cases hfound : (Subject.mk c own).field? f.name with
  | some g =>
      have hfound' : (Subject.mk c own').field? f.name = some g := hfound
      rw [hfound']
      rfl
  | none =>
      have hother := List.find?_eq_none.1 hfound f hf
      exact absurd hother (by simp)

theorem lookup_of_not_field (hc : c.Choiceless)
    (hfield : name ∉ c.outline.fields.map (·.name)) :
    (Subject.mk c own).propertyCandidates.lookup name =
      if name ∈ own then some (some (plain name (c.hint name))) else c.memberInfo? name := by
  have hnone : (Subject.mk c own).field? name = none := by
    refine List.find?_eq_none.2 fun f hf => ?_
    simpa using fun h => hfield (List.mem_map.2 ⟨f, hf, h⟩)
  rw [lookup_propertyCandidates, hnone, Option.map_none, Option.none_or,
    ClassDef.definition?_of_choiceless hc]
  rfl

/-- An attribute in front of a member that is no accessor, or a cached one, is
described as the member is, but for what the accessor has of its own. -/
theorem sameTyping_plain_iff (hfield : name ∉ c.outline.fields.map (·.name))
    (hslot : c.isSlot name = false) (hcomputed : c.isComputed name = false)
    (hp : c.memberInfo? name = some (some p)) :
    (plain name (c.hint name)).SameTyping p ↔ ¬ c.RevealsCaching name := by
  obtain ⟨m, hm, hp⟩ := Option.map_eq_some_iff.1 hp
  cases m with
  | accessor a =>
      have hcached : a.cached = true := by simpa [ClassDef.isComputed, hm] using hcomputed
      obtain rfl : ofAccessor name a = p := Option.some.inj hp
      have hreveals : c.RevealsCaching name ↔
          (ofAccessor name a).label ≠ name ∨ (ofAccessor name a).type ≠ c.hint name := by
        refine ⟨?_, fun h => ⟨hfield, a, hm, hcached, h⟩⟩
        rintro ⟨-, b, hb, -, h⟩
        obtain rfl : a = b := by simpa using hm.symm.trans hb
        exact h
      have hwritable : (ofAccessor name a).writable = true := by simp [ofAccessor, hcached]
      rw [hreveals, not_or, not_not, not_not]
      exact ⟨fun h => ⟨h.label.symm, h.type.symm⟩,
        fun h => ⟨rfl, h.1.symm, h.2.symm, hwritable.symm⟩⟩
  | constant u =>
      obtain rfl : plain name (c.hint name) = p := Option.some.inj hp
      refine iff_of_true (.refl _) ?_
      rintro ⟨-, a, ha, -⟩
      exact absurd (hm.symm.trans ha) (by simp)
  | slot => exact absurd hslot (by simp [ClassDef.isSlot, hm])
  | _ => exact absurd hp (by simp [ofMember])

/-- Behind an attribute that may be taken away there is a member. -/
theorem exists_of_isBacked (hfield : name ∉ c.outline.fields.map (·.name))
    (h : c.isBacked name = true) :
    c.isComputed name = false ∧ ∃ p, c.memberInfo? name = some (some p) := by
  rw [ClassDef.isBacked, List.contains_eq_mem, decide_eq_false hfield, Bool.false_or] at h
  cases hm : c.member? name with
  | none => simp [hm] at h
  | some m =>
      cases m with
      | accessor a =>
          have hcached : a.cached = true := by simpa [hm] using h
          refine ⟨by simp [ClassDef.isComputed, hm, hcached], ?_⟩
          exact ⟨_, by rw [ClassDef.memberInfo?, hm]; rfl⟩
      | slot | constant u =>
          refine ⟨by simp [ClassDef.isComputed, hm], ?_⟩
          exact ⟨_, by rw [ClassDef.memberInfo?, hm]; rfl⟩
      | _ => simp [hm] at h

/-! ### One object with different attributes -/

theorem exists_sameTyping_iff_lookup {s s' : Subject} (hp : p ∈ s.properties) :
    (∃ q ∈ s'.properties, p.SameTyping q) ↔
      ∃ q, s'.propertyCandidates.lookup p.name = some (some q) ∧ p.SameTyping q := by
  constructor
  · rintro ⟨q, hq, hsame⟩
    exact ⟨q, hsame.name ▸ (mem_properties_iff.1 hq).2, hsame⟩
  · rintro ⟨q, hlookup, hsame⟩
    have hpublic := (mem_properties_iff.1 hp).1
    rw [hsame.name] at hpublic hlookup
    exact ⟨q, mem_properties_iff.2 ⟨hpublic, hlookup⟩, hsame⟩

/-- A property keeps its typing, unless it is a cached one that came among the
attributes, or went from there, and that the accessor describes in its own way. -/
theorem exists_sameTyping_iff (hc : c.Choiceless)
    (hslot : c.isSlot p.name = true → p.name ∉ own ∧ p.name ∉ own')
    (hgain : p.name ∉ own → p.name ∈ own' → c.isComputed p.name = false)
    (hlose : p.name ∈ own → p.name ∉ own' → c.isBacked p.name = true)
    (hp : p ∈ (Subject.mk c own).properties) :
    (∃ q ∈ (Subject.mk c own').properties, p.SameTyping q) ↔
      ¬ (c.RevealsCaching p.name ∧ (p.name ∈ own ↔ p.name ∉ own')) := by
  have hlookup := (mem_properties_iff.1 hp).2
  have hnoslot (hmove : p.name ∈ own ∨ p.name ∈ own') : c.isSlot p.name = false := by
    by_contra h
    have hnot := hslot (by simpa using h)
    exact hmove.elim hnot.1 hnot.2
  rw [exists_sameTyping_iff_lookup hp]
  by_cases hfield : p.name ∈ c.outline.fields.map (·.name)
  · rw [← lookup_of_field hfield own own'] at hlookup
    exact iff_of_true ⟨p, hlookup, .refl p⟩ fun h => h.1.1 hfield
  · rw [lookup_of_not_field hc hfield] at hlookup ⊢
    by_cases hmem : p.name ∈ own <;> by_cases hmem' : p.name ∈ own'
    · rw [if_pos hmem] at hlookup
      rw [if_pos hmem']
      exact iff_of_true ⟨p, hlookup, .refl p⟩ fun h => h.2.1 hmem hmem'
    · -- the attribute was taken away, and the member behind it is to be seen
      obtain ⟨hcomputed, q, hq⟩ := exists_of_isBacked hfield (hlose hmem hmem')
      have htyping := sameTyping_plain_iff hfield (hnoslot (.inl hmem)) hcomputed hq
      rw [if_pos hmem] at hlookup
      rw [Option.some.inj (Option.some.inj hlookup)] at htyping
      rw [if_neg hmem', hq]
      simp [htyping, hmem, hmem']
    · -- an attribute stands in front of the member that was seen
      rw [if_neg hmem] at hlookup
      have htyping :=
        sameTyping_plain_iff hfield (hnoslot (.inr hmem')) (hgain hmem hmem') hlookup
      rw [if_pos hmem']
      simp [htyping, hmem, hmem', PropertyInfo.sameTyping_comm (p := p)]
    · rw [if_neg hmem] at hlookup
      rw [if_neg hmem']
      exact iff_of_true ⟨p, hlookup, .refl p⟩ fun h => hmem (h.2.2 hmem')

end Subject

theorem World.attributes_of_no_own {w : World} {v : Value} (h : v.own? = none) :
    w.attributes v = [] := by
  cases v with
  | object r => exact absurd h (by simp [Value.own?])
  | sized width n own =>
      obtain rfl : own = none := h
      rfl
  | _ => rfl

namespace Catalog

variable {cat : Catalog} {c : ClassDef} {v : Value} {w w' : World} {p : PropertyInfo}

/-- It is to be seen that a cached property came among the attributes of the
object, or went from there. -/
def Shifts (c : ClassDef) (v : Value) (w w' : World) (name : String) : Prop :=
  c.RevealsCaching name ∧ (name ∈ w.ownNames v ↔ name ∉ w'.ownNames v)

theorem properties_of_isObject (h : cat.IsObject c v w) (hnull : v.isNull = false) :
    cat.properties w v =
      (Subject.mk c ((w.ownNames v).filter fun name => !c.isSlot name)).properties := by
  rw [properties, h.noTable, subject, h.cls, hnull]
  rfl

theorem exists_sameTyping_iff (h : cat.IsObject c v w) (hmoves : Moves c v w w')
    (hp : p ∈ cat.properties w v) :
    (∃ q ∈ cat.properties w' v, p.SameTyping q) ↔ ¬ Shifts c v w w' p.name := by
  have hnull : v.isNull = false := by
    by_contra hnull
    rw [properties, h.noTable] at hp
    simp [hnull] at hp
  have h' := h.moves hmoves
  rw [properties_of_isObject h hnull] at hp
  rw [properties_of_isObject h' hnull]
  have hmem (w : World) : p.name ∈ (w.ownNames v).filter (fun name => !c.isSlot name) ↔
      p.name ∈ w.ownNames v ∧ c.isSlot p.name = false := by
    rw [List.mem_filter, Bool.not_eq_true']
  by_cases hown : v.own?.isSome
  · have hslot (w : World) : c.isSlot p.name = true →
        p.name ∉ (w.ownNames v).filter fun name => !c.isSlot name := by
      intro hslot
      rw [hmem, hslot]
      simp
    have hslots (h : c.isSlot p.name = true) := And.intro (hslot w h) (hslot w' h)
    rw [Subject.exists_sameTyping_iff (h.choiceless hown) hslots ?_ ?_ hp]
    · rw [Shifts, not_iff_not]
      refine and_congr_right fun hreveals => ?_
      obtain ⟨-, a, ha, -⟩ := hreveals
      have hnoslot : c.isSlot p.name = false := by rw [ClassDef.isSlot, ha]
      simp only [hmem, hnoslot, and_true]
    · rw [hmem, hmem]
      exact fun hnot hin => hmoves.gains p.name (fun h => hnot ⟨h, hin.2⟩) hin.1
    · rw [hmem, hmem]
      exact fun hin hnot => hmoves.loses p.name hin.1 fun h => hnot ⟨h, hin.2⟩
  · have hnone (w : World) : w.ownNames v = [] := by
      rw [World.ownNames, World.attributes_of_no_own (by simpa using hown)]
      rfl
    rw [hnone] at hp
    rw [Shifts, hnone, hnone]
    exact iff_of_true ⟨p, hp, .refl p⟩ (by simp)

/-! ### Values that are refused -/

/-- The value is refused for the property, since it does not fit the type, and
nothing happens. -/
def Misfits (cat : Catalog) (w : World) (v : Value) (label : String) (u : Value)
    (type : String) : Prop :=
  ∃ shown, cat.writeProperty v label u w = .error (.reported (.coercion shown type)) w

theorem misfits_iff {label type : String} {u : Value} (htable : w.table? v = none) :
    cat.Misfits w v label u type ↔ ∃ p, cat.findProperty? w v label = some p ∧
      p.writable = true ∧ ∃ shown, cat.coerce w u p.type = .error (.unfit shown type) := by
  constructor
  · rintro ⟨shown, h⟩
    cases hp : cat.findProperty? w v label with
    | none =>
        rw [writeProperty, Eval.get_bind_apply, hp] at h
        cases h
    | some p =>
    cases hwritable : p.writable with
    | false =>
        rw [writeProperty, Eval.get_bind_apply, hp] at h
        simp only [hwritable] at h
        cases h
    | true =>
    cases hu : cat.coerce w u p.type with
    | ok stored =>
        rw [writeProperty_attribute htable hp hwritable hu] at h
        cases hassign : cat.assign v p.name (w.adopt stored).1 (w.adopt stored).2 <;>
          rw [hassign] at h <;> cases h
    | error e =>
        rw [writeProperty, Eval.get_bind_apply, hp] at h
        simp only [hwritable, fit, hu] at h
        cases e with
        | raised e => cases h
        | unfit shown' label' =>
            cases h
            exact ⟨p, rfl, hwritable, shown, hu⟩
  · rintro ⟨p, hp, hwritable, shown, hunfit⟩
    rw [Misfits, writeProperty, Eval.get_bind_apply, hp]
    simp only [hwritable, fit, hunfit]
    exact ⟨_, rfl⟩

/-- The value is refused again, or if it can no longer be displayed, the error of
that escapes. Nothing happens in either case. -/
def StillRefuses (cat : Catalog) (w : World) (v : Value) (label : String) (u : Value)
    (type : String) : Prop :=
  cat.Misfits w v label u type ∨
    ∃ e, cat.display w u = .error e ∧
      cat.writeProperty v label u w = .error (.escaped e) w

theorem stillRefuses_of_sameTyping {q : PropertyInfo} {label type : String} {u : Value}
    (htable : w.table? v = none) (htable' : w'.table? v = none)
    (hp : cat.findProperty? w v label = some p) (hq : cat.findProperty? w' v label = some q)
    (hsame : p.SameTyping q) (hclass : w'.classOf u = w.classOf u)
    (h : cat.Misfits w v label u type) : cat.StillRefuses w' v label u type := by
  obtain ⟨p', hp', hwritable, shown, hunfit⟩ := (misfits_iff htable).1 h
  obtain rfl : p = p' := by simpa using hp.symm.trans hp'
  have hcoerce := Outlines.coerce_of_unfit hclass p.type hunfit
  rw [hsame.type] at hcoerce
  rw [hsame.writable] at hwritable
  cases hd : cat.display w' u with
  | ok text =>
      rw [Outlines.refuse_of_display hd] at hcoerce
      exact .inl ((misfits_iff htable').2 ⟨q, hq, hwritable, text, hcoerce⟩)
  | error e =>
      rw [Outlines.refuse_of_display_error hd] at hcoerce
      refine .inr ⟨e, hd, ?_⟩
      rw [writeProperty, Eval.get_bind_apply, hq]
      simp only [hwritable, fit, hcoerce]
      rfl

theorem nodup_names_of_isObject (h : cat.IsObject c v w) :
    ((cat.properties w v).map (·.name)).Nodup := by
  rw [properties, h.noTable]
  dsimp only
  split
  · exact .nil
  · exact Subject.nodup_names_properties _

/-- If nothing else is shown under the label of a property, the property is what
is found under it. -/
theorem findProperty?_of_mem {q : PropertyInfo} {label : String} (h : cat.IsObject c v w)
    (hq : q ∈ cat.properties w v) (hlabel : q.label = label)
    (halone : ∀ x ∈ cat.properties w v, x.label = label → x.name = q.name) :
    cat.findProperty? w v label = some q := by
  obtain ⟨x, hx⟩ := Option.isSome_iff_exists.1
    (List.find?_isSome.2 ⟨q, hq, beq_iff_eq.2 hlabel⟩ :
      ((cat.properties w v).find? fun p => p.label == label).isSome)
  have hmem := List.mem_of_find?_eq_some hx
  have hname := halone x hmem (by simpa using List.find?_some hx)
  rw [findProperty?, hx]
  exact congrArg some (List.inj_on_of_nodup_map (nodup_names_of_isObject h) hmem hq hname)

/-! ### Sequences of uses -/

/-- Using an object leaves the typing of its properties as it is, except for the
cached properties that come among the attributes, or go from there, and have a
label or a type from their accessor. With its typing, a property keeps refusing
what it refused. -/
theorem typing_after_uses (h : cat.IsObject c v w) (htidy : cat.Tidy c v) (uses : List Use)
    (hp : p ∈ cat.properties w v) :
    ((∃ q ∈ cat.properties (cat.useAll v w uses) v, p.SameTyping q) ↔
        ¬ Shifts c v w (cat.useAll v w uses) p.name) ∧
      ∀ u type, (∀ r, u.own? = some r → ∃ d, w.get? r = some d) →
        cat.findProperty? w v p.label = some p →
        ¬ Shifts c v w (cat.useAll v w uses) p.name →
        (∀ q ∈ cat.properties (cat.useAll v w uses) v, q.label = p.label → q.name = p.name) →
        cat.Misfits w v p.label u type →
        cat.StillRefuses (cat.useAll v w uses) v p.label u type := by
  have hmoves := moves_useAll htidy h uses
  have htyping := exists_sameTyping_iff h hmoves hp
  refine ⟨htyping, fun u type hu hfound hshifts halone hmisfits => ?_⟩
  obtain ⟨q, hq, hsame⟩ := htyping.2 hshifts
  have h' := h.moves hmoves
  have hfound' := findProperty?_of_mem h' hq hsame.label.symm fun x hx hlabel =>
    (halone x hx hlabel).trans hsame.name
  exact stillRefuses_of_sameTyping h.noTable h'.noTable hfound hfound' hsame
    (hmoves.evolves.classOf hu) hmisfits

end Catalog

/-! ### An object with a cached property -/

namespace Sample

theorem resultWorld_incremented (u : Value) (w : World) : resultWorld (incremented u w) = w := by
  rw [incremented, Eval.get_bind_apply]
  cases u with
  | object r =>
      dsimp only
      split <;> rfl
  | bool b => rfl
  | _ => rfl

theorem moves_countCall {c : ClassDef} (hcalls : c.isComputed "calls" = false) (v : Value)
    (w : World) : Moves c v w (resultWorld (countCall v w)) := by
  refine Moves.bind (.refl w) fun calls w₁ hown => ?_
  have hsame : Moves c v w₁ (resultWorld (incremented calls w₁)) := by
    rw [resultWorld_incremented]
    exact .refl w₁
  refine hsame.bind fun next w₂ _ => ?_
  exact Moves.bind (.setOwn hcalls next) fun _ w₃ _ => .refl w₃

def lazyWorld : World := resultWorld (newLazy initialWorld)

def lazyObject : Value := .object 1

def lazyClass : ClassDef := catalog.classOf lazyWorld lazyObject

theorem lineage_lazyClass : lazyClass.lineage = [lazyBody] := by
  rfl

theorem mem_members_lazyClass {e : String × Member}
    (he : e ∈ lazyClass.lineage.flatMap (·.members)) :
    ∃ a getter, e.2 = .accessor a ∧ a.get = some getter ∧ a.set = none ∧
      ∀ v w, Moves lazyClass v w (resultWorld (getter v w)) := by
  have hcount (v : Value) (w : World) : Moves lazyClass v w (resultWorld (countCall v w)) :=
    moves_countCall rfl v w
  rw [lineage_lazyClass, List.flatMap_singleton, lazyBody, List.mem_cons, List.mem_singleton] at he
  rcases he with rfl | rfl
  · exact ⟨_, _, rfl, rfl, rfl, fun v w => (hcount v w).bind fun _ w₁ _ => .refl w₁⟩
  · exact ⟨_, _, rfl, rfl, rfl, hcount⟩

theorem tidy_lazyClass (v : Value) : catalog.Tidy lazyClass v where
  getters ha getter hget w _ := by
    obtain ⟨a, getter', ha', hget', -, hmoves⟩ := mem_members_lazyClass (ClassDef.mem_of_member? ha)
    cases ha'
    obtain rfl : getter' = getter := Option.some.inj (hget'.symm.trans hget)
    exact hmoves v w
  setters ha setter hset u w _ := by
    obtain ⟨a, -, ha', -, hnone, -⟩ := mem_members_lazyClass (ClassDef.mem_of_member? ha)
    cases ha'
    cases hnone.symm.trans hset

theorem isObject_lazyObject : catalog.IsObject lazyClass lazyObject lazyWorld where
  cls := rfl
  valid r hr := by
    cases hr
    exact ⟨_, rfl⟩
  noTable := rfl
  choiceless _ e he := by
    obtain ⟨a, -, ha, -⟩ := mem_members_lazyClass he
    rw [ha]
    rfl

def totalInfo : PropertyInfo :=
  { name := "total", label := "total", type := .int, readable := true, writable := true }

def harmlessUses : List Use :=
  [.write "total" (.text "x"), .read "fresh", .write "calls" (.int 5), .read "other"]

theorem total_still_refuses :
    catalog.Misfits lazyWorld lazyObject "total" (.text "x") "int" ∧
      (∃ q ∈ catalog.properties (catalog.useAll lazyObject lazyWorld harmlessUses) lazyObject,
        totalInfo.SameTyping q) ∧
      catalog.Misfits (catalog.useAll lazyObject lazyWorld harmlessUses) lazyObject "total"
        (.text "x") "int" := by
  have hfound : catalog.findProperty? lazyWorld lazyObject "total" = some totalInfo := rfl
  have hmisfits : catalog.Misfits lazyWorld lazyObject "total" (.text "x") "int" := ⟨_, rfl⟩
  have hown : lazyWorld.ownNames lazyObject = ["calls"] := by decide +kernel
  have hown' : (catalog.useAll lazyObject lazyWorld harmlessUses).ownNames lazyObject =
      ["calls"] := by decide +kernel
  have hshifts : ¬ Catalog.Shifts lazyClass lazyObject lazyWorld
      (catalog.useAll lazyObject lazyWorld harmlessUses) "total" := by
    rw [Catalog.Shifts, hown, hown']
    simp
  have halone : ((catalog.properties (catalog.useAll lazyObject lazyWorld harmlessUses)
      lazyObject).all fun q => q.label != "total" || q.name == "total") = true := by decide +kernel
  have hvalid : ∀ r, (Value.text "x").own? = some r → ∃ d, lazyWorld.get? r = some d := by
    simp [Value.own?]
  obtain ⟨htyping, hrefused⟩ := Catalog.typing_after_uses isObject_lazyObject
    (tidy_lazyClass lazyObject) harmlessUses (List.mem_of_find?_eq_some hfound)
  have hnames : ∀ q ∈ catalog.properties (catalog.useAll lazyObject lazyWorld harmlessUses)
      lazyObject, q.label = "total" → q.name = "total" := by
    intro q hq hlabel
    have hname := List.all_eq_true.1 halone q hq
    simpa [hlabel] using hname
  refine ⟨hmisfits, htyping.2 hshifts,
    (hrefused _ _ hvalid hfound hshifts hnames hmisfits).resolve_right ?_⟩
  rintro ⟨e, hdisplay, -⟩
  cases hdisplay

end Sample

end ObjectConsole
