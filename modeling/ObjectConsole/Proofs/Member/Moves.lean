import ObjectConsole.Proofs.Member.Property
import ObjectConsole.Render

/-!
Reading, writing and listing the properties of one value, over and over. What
these do to the attributes of the value is said once, for each of them: they
may add attributes, but none under the name of an accessor that is not cached,
and they take away only such as another source of properties stands behind.
This is asked of the code of the accessors, and follows for everything else.
-/

namespace ObjectConsole

namespace ClassDef

def isComputed (c : ClassDef) (name : String) : Bool :=
  match c.member? name with
  | some (.accessor a) => !a.cached
  | _ => false

/-- Whether a property stays if the attribute of its name is taken away: a field,
a reserved place, a plain value of the class, or a cached property. -/
def isBacked (c : ClassDef) (name : String) : Bool :=
  (c.outline.fields.map (·.name)).contains name ||
    match c.member? name with
    | some (.accessor a) => a.cached
    | some .slot | some (.constant _) => true
    | _ => false

end ClassDef

def ClassDef.Choiceless (c : ClassDef) : Prop :=
  ∀ e ∈ c.lineage.flatMap (·.members), Subject.isChoice e.2 = false

/-- The names of the attributes that a value carries itself. -/
def World.ownNames (w : World) (v : Value) : List String := (w.attributes v).map (·.1)

/-- The value is an object of the class, and no table. The members of an
enumeration carry no attributes. -/
structure Catalog.IsObject (cat : Catalog) (c : ClassDef) (v : Value) (w : World) : Prop where
  cls : cat.classOf w v = c
  valid : ∀ r, v.own? = some r → ∃ d, w.get? r = some d
  noTable : w.table? v = none
  choiceless : v.own?.isSome → c.Choiceless

structure Moves (c : ClassDef) (v : Value) (w w' : World) : Prop where
  evolves : w.Evolves w'
  gains : ∀ name, name ∉ w.ownNames v → name ∈ w'.ownNames v → c.isComputed name = false
  loses : ∀ name, name ∈ w.ownNames v → name ∉ w'.ownNames v → c.isBacked name = true

namespace World

variable {w w' w'' : World} {v : Value}

theorem Evolves.refl (w : World) : w.Evolves w := fun _ c hc => ⟨c, hc, .refl c⟩

theorem Evolves.trans (h : w.Evolves w') (h' : w'.Evolves w'') : w.Evolves w'' := by
  intro r c hc
  obtain ⟨c', hc', hkind⟩ := h r c hc
  obtain ⟨c'', hc'', hkind'⟩ := h' r c' hc'
  refine ⟨c'', hc'', ?_⟩
  cases hkind <;> cases hkind' <;> constructor

/-- A value whose cell keeps its kind keeps its class. -/
theorem Evolves.classOf (h : w.Evolves w')
    (hv : ∀ r, v.own? = some r → ∃ c, w.get? r = some c) : w'.classOf v = w.classOf v := by
  cases v with
  | object r =>
      obtain ⟨c, hc⟩ := hv r rfl
      obtain ⟨c', hc', hkind⟩ := h r c hc
      rw [World.classOf, World.classOf, hc, hc']
      cases hkind <;> rfl
  | _ => rfl

theorem Evolves.table? (h : w.Evolves w')
    (hv : ∀ r, v.own? = some r → ∃ c, w.get? r = some c) (htable : w.table? v = none) :
    w'.table? v = none := by
  cases v with
  | object r =>
      obtain ⟨c, hc⟩ := hv r rfl
      obtain ⟨c', hc', hkind⟩ := h r c hc
      rw [World.table?, hc] at htable
      rw [World.table?, hc']
      cases hkind with
      | table frozen entries entries' => exact absurd htable (by simp)
      | _ => rfl
  | _ => rfl

theorem evolves_setOwn (w : World) (v : Value) (name : String) (u : Value) :
    w.Evolves (w.setOwn v name u) := by
  rcases w.setOwn_cases v name u with hsame | ⟨r, cls, as, hr, -, hset⟩
  · rw [hsame]
    exact .refl w
  · rw [hset]
    exact evolves_set hr (.record ..)

/-- Setting an attribute adds at most its name. -/
theorem mem_ownNames_setOwn {name n : String} {u : Value} :
    (n ∈ w.ownNames v → n ∈ (w.setOwn v name u).ownNames v) ∧
      (n ∈ (w.setOwn v name u).ownNames v → n = name ∨ n ∈ w.ownNames v) := by
  rcases w.setOwn_cases v name u with hsame | ⟨r, cls, as, hr, hv, hset⟩
  · rw [hsame]
    exact ⟨id, .inr⟩
  · have hown : v.own? = some r := by
      rcases hv with rfl | ⟨width, m, rfl⟩ <;> rfl
    have hr' := get?_set_self (lt_of_get? hr) (.record cls (setAttribute name u as))
    rw [hset, ownNames, ownNames, attributes_of_own hown hr', attributes_of_own hown hr]
    by_cases hmem : name ∈ as.map (·.1)
    · rw [map_fst_setAttribute hmem]
      exact ⟨id, .inr⟩
    · rw [map_fst_setAttribute_of_not_mem hmem, List.mem_append, List.mem_singleton]
      exact ⟨.inl, Or.symm⟩

end World

namespace Moves

variable {c : ClassDef} {v : Value} {w w' w'' : World}

theorem refl (w : World) : Moves c v w w :=
  ⟨.refl w, fun _ hnot hmem => absurd hmem hnot, fun _ hmem hnot => absurd hmem hnot⟩

theorem trans (h : Moves c v w w') (h' : Moves c v w' w'') : Moves c v w w'' := by
  refine ⟨h.evolves.trans h'.evolves, fun name hnot hmem => ?_, fun name hmem hnot => ?_⟩
  · by_cases hmid : name ∈ w'.ownNames v
    · exact h.gains name hnot hmid
    · exact h'.gains name hmid hmem
  · by_cases hmid : name ∈ w'.ownNames v
    · exact h'.loses name hmid hnot
    · exact h.loses name hmem hmid

/-- New cells add no attributes. -/
theorem of_extends (h : w.Extends w') (hv : ∀ r, v.own? = some r → ∃ d, w.get? r = some d) :
    Moves c v w w' := by
  have hsame : w'.ownNames v = w.ownNames v := by
    rw [World.ownNames, World.ownNames, (World.face_of_get? fun r hr => ?_).2.1]
    obtain ⟨d, hd⟩ := hv r hr
    rw [hd, h r d hd]
  refine ⟨World.evolves_of_extends h, fun name hnot hmem => ?_, fun name hmem hnot => ?_⟩
  · exact absurd (hsame ▸ hmem) hnot
  · exact absurd (hsame ▸ hmem) hnot

theorem setOwn {name : String} (hname : c.isComputed name = false) (u : Value) :
    Moves c v w (w.setOwn v name u) := by
  refine ⟨w.evolves_setOwn v name u, fun n hnot hmem => ?_, fun n hmem hnot => ?_⟩
  · obtain rfl := (World.mem_ownNames_setOwn.2 hmem).resolve_right hnot
    exact hname
  · exact absurd (World.mem_ownNames_setOwn.1 hmem) hnot

theorem bind {ε α β : Type} {x : EStateM ε World α} {f : α → EStateM ε World β}
    (hx : Moves c v w (resultWorld (x w)))
    (hf : ∀ a w₁, x w = .ok a w₁ → Moves c v w₁ (resultWorld (f a w₁))) :
    Moves c v w (resultWorld ((x >>= f) w)) := by
  rw [Eval.bind_apply]
  cases hrun : x w with
  | ok a w₁ =>
      rw [hrun] at hx
      exact hx.trans (hf a w₁ hrun)
  | error e w₁ =>
      rw [hrun] at hx
      exact hx

end Moves

namespace Catalog

variable {cat : Catalog} {c : ClassDef} {v : Value} {w w' : World}

theorem IsObject.moves (h : cat.IsObject c v w) (hmoves : Moves c v w w') :
    cat.IsObject c v w' where
  cls := (classOf_congr (hmoves.evolves.classOf h.valid)).trans h.cls
  valid r hr := by
    obtain ⟨d, hd⟩ := h.valid r hr
    obtain ⟨d', hd', -⟩ := hmoves.evolves r d hd
    exact ⟨d', hd'⟩
  noTable := hmoves.evolves.table? h.valid h.noTable
  choiceless := h.choiceless

/-- The code of the accessors of a class is tidy on a value: wherever the value is
an object of the class, a getter or a setter only does what may happen to its
attributes. -/
structure Tidy (cat : Catalog) (c : ClassDef) (v : Value) : Prop where
  getters {name : String} {a : Accessor} (ha : c.member? name = some (.accessor a))
    {getter : Value → Act Value} (hget : a.get = some getter) {w : World}
    (h : cat.IsObject c v w) : Moves c v w (resultWorld (getter v w))
  setters {name : String} {a : Accessor} (ha : c.member? name = some (.accessor a))
    {setter : Value → Value → Act Unit} (hset : a.set = some setter) (u : Value) {w : World}
    (h : cat.IsObject c v w) : Moves c v w (resultWorld (setter v u w))

/-- A cached property is taken from the attributes, or else computed and put
there. -/
theorem fetch_of_cached (hcls : cat.classOf w v = c) {name : String} {a : Accessor}
    (hm : c.member? name = some (.accessor a)) (hcached : a.cached = true) :
    cat.fetch v name w =
      match (w.attributes v).lookup name, a.get with
      | some value, _ => .ok value w
      | none, some getter => (getter v >>= fun value => do Act.assign v name value; return value) w
      | none, none => .error (noAttribute w v name) w := by
  rw [fetch, Eval.get_bind_apply, hcls, hm]
  simp only [hcached]
  cases (w.attributes v).lookup name <;> cases a.get <;> rfl

theorem moves_fetch (htidy : cat.Tidy c v) (h : cat.IsObject c v w) (name : String) :
    Moves c v w (resultWorld (cat.fetch v name w)) := by
  cases hm : c.member? name with
  | none =>
      rw [fetch, Eval.get_bind_apply, h.cls, hm]
      cases (w.attributes v).lookup name <;> exact .refl w
  | some m =>
  cases m with
  | accessor a =>
      cases hcached : a.cached with
      | true =>
          rw [fetch_of_cached h.cls hm hcached]
          cases (w.attributes v).lookup name with
          | some value => exact .refl w
          | none =>
              cases hget : a.get with
              | none => exact .refl w
              | some getter =>
                  have hname : c.isComputed name = false := by
                    simp [ClassDef.isComputed, hm, hcached]
                  exact (htidy.getters hm hget h).bind fun value w₁ _ => .setOwn hname value
      | false =>
          rw [fetch, Eval.get_bind_apply, h.cls, hm]
          cases hget : a.get with
          | none =>
              simp only [hcached, hget]
              exact .refl w
          | some getter =>
              simp only [hcached, hget]
              exact htidy.getters hm hget h
  | constant u =>
      rw [fetch, Eval.get_bind_apply, h.cls, hm]
      exact .refl w
  | _ =>
      rw [fetch, Eval.get_bind_apply, h.cls, hm]
      cases (w.attributes v).lookup name <;> exact .refl w

theorem moves_assign (htidy : cat.Tidy c v) (h : cat.IsObject c v w) (name : String) (u : Value) :
    Moves c v w (resultWorld (cat.assign v name u w)) := by
  have hplain (hname : c.isComputed name = false) :
      Moves c v w (resultWorld (Act.assign v name u w)) := .setOwn hname u
  rw [assign, Eval.get_bind_apply, h.cls]
  dsimp only
  split
  · exact .refl w
  · cases hm : c.member? name with
    | none => exact hplain (by simp [ClassDef.isComputed, hm])
    | some m =>
        cases m with
        | accessor a =>
            cases hcached : a.cached with
            | true =>
                simp only [hcached]
                exact hplain (by simp [ClassDef.isComputed, hm, hcached])
            | false =>
                simp only [hcached]
                cases hset : a.set with
                | none => exact .refl w
                | some setter => exact htidy.setters hm hset u h
        | _ => exact hplain (by simp [ClassDef.isComputed, hm])

theorem moves_readProperty (htidy : cat.Tidy c v) (h : cat.IsObject c v w) (label : String) :
    Moves c v w (resultWorld (cat.readProperty v label w)) := by
  rw [readProperty, Eval.get_bind_apply]
  cases cat.findProperty? w v label with
  | none => exact .refl w
  | some p =>
      cases hreadable : p.readable with
      | false =>
          simp only [hreadable]
          exact .refl w
      | true =>
          simp only [hreadable, h.noTable]
          rw [if_neg (by simp), resultWorld_invoke]
          exact moves_fetch htidy h p.name

theorem moves_writeProperty (htidy : cat.Tidy c v) (h : cat.IsObject c v w) (label : String)
    (value : Value) : Moves c v w (resultWorld (cat.writeProperty v label value w)) := by
  rcases writeProperty_ready w v label value with ⟨s, hrefused⟩ | ⟨p, u, hp, hwritable, hu⟩
  · rw [hrefused]
    exact .refl w
  · have hadopt : Moves c v w (w.adopt u).2 := .of_extends (w.extends_adopt u) h.valid
    have hassign := moves_assign htidy (h.moves hadopt) p.name (w.adopt u).1
    rw [writeProperty_attribute h.noTable hp hwritable hu]
    cases hrun : cat.assign v p.name (w.adopt u).1 (w.adopt u).2 <;> rw [hrun] at hassign <;>
      exact hadopt.trans hassign

theorem resultWorld_shownReading (r : EStateM.Result Stop World Value) :
    resultWorld (cat.shownReading r) = resultWorld r := by
  rw [shownReading.eq_def]
  split
  · split <;> rfl
  · split <;> rfl
  · rfl

theorem moves_propertyLine (htidy : cat.Tidy c v) (h : cat.IsObject c v w) (p : PropertyInfo) :
    Moves c v w (resultWorld (cat.propertyLine v p w)) := by
  have hread := moves_readProperty htidy h p.label
  rw [propertyLine]
  split
  · exact .refl w
  · refine Moves.bind ?_ fun shown w₁ _ => .refl w₁
    rwa [resultWorld_shownReading]

theorem moves_memberLines (htidy : cat.Tidy c v) (h : cat.IsObject c v w) (showAll : Bool) :
    Moves c v w (resultWorld (cat.memberLines v showAll w)) := by
  have hlines (ps : List PropertyInfo) {w : World} (h : cat.IsObject c v w) :
      Moves c v w (resultWorld (ps.mapM (cat.propertyLine v) w)) := by
    induction ps generalizing w with
    | nil => exact .refl w
    | cons p ps ih =>
        have hline := moves_propertyLine htidy h p
        rw [List.mapM_cons]
        refine hline.bind fun text w₁ hrun => ?_
        rw [hrun] at hline
        exact (ih (h.moves hline)).bind fun texts w₂ _ => .refl w₂
  rw [memberLines, Eval.get_bind_apply]
  exact (hlines _ h).bind fun lines w₁ _ => .refl w₁

end Catalog

/-! ### Sequences of uses -/

inductive Use where
  | read (label : String)
  | write (label : String) (value : Value)
  | list (showAll : Bool)

def Use.carryOut (cat : Catalog) (v : Value) (w : World) : Use → World
  | .read label => resultWorld (cat.readProperty v label w)
  | .write label value => resultWorld (cat.writeProperty v label value w)
  | .list showAll => resultWorld (cat.memberLines v showAll w)

def Catalog.useAll (cat : Catalog) (v : Value) (w : World) (uses : List Use) : World :=
  uses.foldl (Use.carryOut cat v) w

namespace Catalog

variable {cat : Catalog} {c : ClassDef} {v : Value} {w : World}

theorem moves_carryOut (htidy : cat.Tidy c v) (h : cat.IsObject c v w) (use : Use) :
    Moves c v w (use.carryOut cat v w) := by
  cases use with
  | read label => exact moves_readProperty htidy h label
  | write label value => exact moves_writeProperty htidy h label value
  | list showAll => exact moves_memberLines htidy h showAll

theorem moves_useAll (htidy : cat.Tidy c v) (h : cat.IsObject c v w) (uses : List Use) :
    Moves c v w (cat.useAll v w uses) := by
  induction uses generalizing w with
  | nil => exact .refl w
  | cons use uses ih =>
      have huse := moves_carryOut htidy h use
      exact huse.trans (ih (h.moves huse))

end Catalog

end ObjectConsole
