import ObjectConsole.Proofs.Member.Listing

/-!
What is independent of the code of methods. In a catalog that has the same
classes with other code for their methods, a value has the same properties, and
methods with the same names; so what only describes a value or reads its
properties cannot have called a method.
-/

namespace ObjectConsole

def Member.withCode (code : Method → Value → List Value → Act Value) : Member → Member
  | .method m => .method { m with run := code m }
  | m => m

def ClassBody.withCode (code : Method → Value → List Value → Act Value) (body : ClassBody) :
    ClassBody :=
  { body with members := body.members.map fun e => (e.1, e.2.withCode code) }

def ClassDef.withCode (code : Method → Value → List Value → Act Value) (c : ClassDef) : ClassDef :=
  { c with lineage := c.lineage.map (·.withCode code) }

/-- A catalog with other code for all methods. -/
def Catalog.withCode (cat : Catalog) (code : Method → Value → List Value → Act Value) : Catalog :=
  { cat with lineage := fun cls => (cat.lineage cls).map (·.withCode code) }

variable {code : Method → Value → List Value → Act Value}

namespace ClassDef

variable (c : ClassDef) (name : String)

@[simp] theorem outline_withCode : (c.withCode code).outline = c.outline := rfl

@[simp] theorem hint_withCode : (c.withCode code).hint name = c.hint name := by
  rw [hint, hint, withCode, List.findSome?_map]
  rfl

theorem member?_withCode :
    (c.withCode code).member? name = (c.member? name).map (·.withCode code) := by
  rw [member?, member?, withCode, List.findSome?_map, List.map_findSome?]
  congr 1
  funext body
  exact lookup_map_snd (fun _ m => m.withCode code) body.members name

@[simp] theorem isSlot_withCode : (c.withCode code).isSlot name = c.isSlot name := by
  rw [isSlot, isSlot, member?_withCode]
  rcases c.member? name with _ | m
  · rfl
  · cases m <;> rfl

end ClassDef

theorem firstUnseen_map_snd {α β : Type} (f : α → β) (seen : List String)
    (entries : List (String × α)) :
    firstUnseen seen (entries.map fun e => (e.1, f e.2)) =
      (firstUnseen seen entries).map fun e => (e.1, f e.2) := by
  induction entries generalizing seen with
  | nil => rfl
  | cons e rest ih =>
      rw [List.map_cons, firstUnseen, firstUnseen]
      split
      · exact ih seen
      · rw [ih, List.map_cons]

namespace Subject

def withCode (code : Method → Value → List Value → Act Value) (s : Subject) : Subject :=
  { s with cls := s.cls.withCode code }

variable (s : Subject)

theorem members_withCode :
    (s.withCode code).members = s.members.map fun e => (e.1, e.2.withCode code) := by
  rw [members, members, List.map_flatMap, withCode, ClassDef.withCode, List.flatMap_map]
  rfl

theorem isChoice_withCode (m : Member) : isChoice (m.withCode code) = isChoice m := by
  cases m <;> rfl

theorem ofMember_withCode (name : String) (m : Member) :
    (s.withCode code).ofMember name (m.withCode code) = s.ofMember name m := by
  cases m with
  | constant v => exact congrArg (fun type => some (plain name type)) (s.cls.hint_withCode name)
  | _ => rfl

theorem properties_withCode : (s.withCode code).properties = s.properties := by
  have hfields : (s.withCode code).ofField = s.ofField := by
    funext f
    simp only [ofField, withCode, ClassDef.hint_withCode, ClassDef.outline_withCode]
  have hmembers : ((s.withCode code).members.filter fun e => !isChoice e.2).map
        (fun e => (e.1, (s.withCode code).ofMember e.1 e.2)) =
      (s.members.filter fun e => !isChoice e.2).map fun e => (e.1, s.ofMember e.1 e.2) := by
    rw [members_withCode, List.filter_map, List.map_map]
    simp only [Function.comp_def, isChoice_withCode, ofMember_withCode]
  have hcandidates : (s.withCode code).propertyCandidates = s.propertyCandidates := by
    rw [propertyCandidates, propertyCandidates, hfields, hmembers]
    simp only [withCode, ClassDef.hint_withCode, ClassDef.outline_withCode]
  rw [properties, properties, hcandidates]

/-- The methods have the same names. -/
theorem labels_methods_withCode :
    (s.withCode code).methods.map (·.label) = s.methods.map (·.label) := by
  have hmethod (name : String) (m : Member) :
      ((s.withCode code).methodOf name (m.withCode code)).map (·.label) =
        (s.methodOf name m).map (·.label) := by
    cases m with
    | method m =>
        rw [Member.withCode, methodOf, methodOf]
        simp only [withCode, Method.callParams?]
        split
        · rfl
        · split <;> rfl
    | _ => rfl
  rw [methods, methods, members_withCode, List.filter_map, firstOfEach, firstOfEach,
    firstUnseen_map_snd, List.filterMap_map, List.map_filterMap, List.map_filterMap]
  simp only [Function.comp_def, hmethod]

end Subject

namespace Catalog

variable (cat : Catalog) (w : World) (v : Value)

theorem classOf_withCode :
    (cat.withCode code).classOf w v = (cat.classOf w v).withCode code := rfl

theorem subject_withCode :
    (cat.withCode code).subject w v = (cat.subject w v).withCode code := by
  rw [subject, subject, classOf_withCode, Subject.withCode]
  simp only [ClassDef.isSlot_withCode]

theorem properties_withCode : (cat.withCode code).properties w v = cat.properties w v := by
  rw [properties, properties, subject_withCode, Subject.properties_withCode]

theorem memberNames_withCode : (cat.withCode code).memberNames w v = cat.memberNames w v := by
  have hmethods : ((cat.withCode code).methods w v).map (·.label) =
      (cat.methods w v).map (·.label) := by
    rw [methods, methods, subject_withCode]
    split
    · rfl
    · exact Subject.labels_methods_withCode _
  rw [memberNames, memberNames, properties_withCode, hmethods]

theorem fetch_withCode (name : String) : (cat.withCode code).fetch v name = cat.fetch v name := by
  funext w
  rw [fetch, fetch, Eval.get_bind_apply, Eval.get_bind_apply, classOf_withCode,
    ClassDef.member?_withCode]
  rcases (cat.classOf w v).member? name with _ | m
  · rfl
  · cases m <;> rfl

/-- Reading a property does not use the code of methods. -/
theorem readProperty_withCode (label : String) :
    (cat.withCode code).readProperty v label = cat.readProperty v label := by
  funext w
  rw [readProperty, readProperty, Eval.get_bind_apply, Eval.get_bind_apply, findProperty?,
    findProperty?, properties_withCode]
  simp only [fetch_withCode]
  rfl

end Catalog

end ObjectConsole
