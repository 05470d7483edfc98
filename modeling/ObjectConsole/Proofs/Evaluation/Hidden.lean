import ObjectConsole.Proofs.Evaluation.Comparison
import ObjectConsole.Proofs.Member.Description
import ObjectConsole.Proofs.Member.Property
import ObjectConsole.Sample.Catalog

/-!
What stands under underscored names. Evaluation finds, reads, writes and calls
members through descriptions, and these know public names only. So it makes no
difference what the classes have under other names. The strongest way to say this
is to put something there: other members in front of all classes, with any code.
An accessor of the class goes before an attribute of the object, so whatever was
to be fetched or assigned under such a name, that code would run; evaluation
never comes to it.
-/

namespace ObjectConsole

open Line (Form)

/-! ### What descriptions are made from -/

namespace Subject

structure SamePublic (s s' : Subject) : Prop where
  outline : s'.cls.outline = s.cls.outline
  hint : s'.cls.hint = s.cls.hint
  own : s'.own.filter isPublic = s.own.filter isPublic
  members : s'.members.filter (fun e => isPublic e.1) = s.members.filter fun e => isPublic e.1

variable {s s' : Subject}

theorem SamePublic.ofField (h : s.SamePublic s') : s'.ofField = s.ofField := by
  funext f
  rw [Subject.ofField, Subject.ofField, h.outline, h.hint]

theorem SamePublic.ofMember (h : s.SamePublic s') : s'.ofMember = s.ofMember := by
  funext name m
  cases m with
  | constant v => rw [Subject.ofMember, Subject.ofMember, h.hint]
  | _ => rfl

theorem filter_propertyCandidates (s : Subject) :
    s.propertyCandidates.filter (fun e => isPublic e.1) =
      (s.cls.outline.fields.map fun f => (f.name, some (s.ofField f))).filter
          (fun e => isPublic e.1) ++
        (s.own.filter isPublic).map (fun name => (name, some (plain name (s.cls.hint name)))) ++
        ((s.members.filter fun e => isPublic e.1).filter fun e => !isChoice e.2).map fun e =>
          (e.1, s.ofMember e.1 e.2) := by
  rw [propertyCandidates, List.filter_append, List.filter_append, List.filter_map (l := s.own),
    List.filter_map (l := s.members.filter _), List.filter_comm]
  rfl

theorem SamePublic.properties (h : s.SamePublic s') : s'.properties = s.properties := by
  rw [Subject.properties, Subject.properties, filter_propertyCandidates, filter_propertyCandidates,
    h.ofField, h.ofMember, h.outline, h.hint, h.own, h.members]

theorem SamePublic.contains_own (h : s.SamePublic s') {name : String}
    (hpublic : isPublic name = true) : s'.own.contains name = s.own.contains name := by
  have hmem (own : List String) : own.contains name = (own.filter isPublic).contains name := by
    rw [Bool.eq_iff_iff]
    simp [hpublic]
  rw [hmem s'.own, hmem s.own, h.own]

theorem SamePublic.methods (h : s.SamePublic s') : s'.methods = s.methods := by
  rw [Subject.methods, Subject.methods, h.members]
  refine List.filterMap_congr fun e he => ?_
  have hpublic : isPublic e.1 = true :=
    (List.mem_filter.1 (Catalog.mem_of_mem_firstUnseen he)).2
  obtain ⟨name, m⟩ := e
  cases m with
  | method m => simp only [methodOf, h.contains_own hpublic]
  | _ => rfl

end Subject

namespace Catalog

variable {cat cat' : Catalog}

/-! ### Catalogs in which evaluation goes alike -/

/-- In both catalogs the members of values are found, read, written and called
alike, and nesting goes as deep. -/
structure ActsLike (cat cat' : Catalog) : Prop where
  limits : cat'.limits = cat.limits
  find : cat'.findProperty? = cat.findProperty?
  read : cat'.readProperty = cat.readProperty
  write : cat'.writeProperty = cat.writeProperty
  call : cat'.callMethod = cat.callMethod

theorem ActsLike.evalForm (h : cat.ActsLike cat') (recur : Value → List Char → Eval Value)
    (context : Value) (form : Form) :
    cat'.evalForm recur context form = cat.evalForm recur context form := by
  cases form with
  | scalar s => rfl
  | overlong digits => rfl
  | word text => rw [Catalog.evalForm, Catalog.evalForm, lookupWord, lookupWord, h.find, h.read]
  | member name rest => rw [Catalog.evalForm, Catalog.evalForm, h.read]
  | call name parts => rw [Catalog.evalForm, Catalog.evalForm, h.call]
  | index name parts => rw [Catalog.evalForm, Catalog.evalForm, indexed, indexed, h.read]
  | assign name right => rw [Catalog.evalForm, Catalog.evalForm, h.find, h.write]

theorem ActsLike.evalExpr (h : cat.ActsLike cat') (levels : Nat) :
    cat'.evalExpr levels = cat.evalExpr levels := by
  induction levels with
  | zero => rfl
  | succ levels ih =>
      funext context text
      rw [Catalog.evalExpr, Catalog.evalExpr, ih, h.evalForm]

/-- Evaluation uses a catalog for the members of values and the levels of nesting, and
for nothing else. -/
theorem ActsLike.evaluate (h : cat.ActsLike cat') (text : List Char) (context : Value)
    (w : World) : cat'.evaluate text context w = cat.evaluate text context w := by
  have hline (expr : List Char) : cat'.evalLine context expr = cat.evalLine context expr := by
    rw [evalLine, evalLine, h.limits, h.evalExpr, h.evalForm]
  rw [Catalog.evaluate, Catalog.evaluate, hline]

/-! ### Members under underscored names -/

/-- The catalog with other members in front of every class, as far as their names
are not public. -/
def withHidden (cat : Catalog) (hidden : ClassName → List (String × Member)) : Catalog :=
  { cat with
    lineage := fun c =>
      { name := c, members := (hidden c).filter fun e => !isPublic e.1 } :: cat.lineage c }

variable {hidden : ClassName → List (String × Member)} {w : World} {v : Value} {name : String}

theorem lookup_hidden (members : List (String × Member)) (name : String) :
    (members.filter fun e => !isPublic e.1).lookup name =
      if isPublic name then none else members.lookup name := by
  rw [lookup_filter_fst fun name => !isPublic name]
  cases isPublic name <;> rfl

theorem member?_withHidden (hpublic : isPublic name = true) :
    ((cat.withHidden hidden).classOf w v).member? name = (cat.classOf w v).member? name := by
  rw [ClassDef.member?, classOf, withHidden]
  dsimp only
  rw [List.findSome?_cons, lookup_hidden, if_pos hpublic]
  rfl

/-- Under a name that is not public, a hidden member is what the name means. -/
theorem member?_hidden {m : Member} (hpublic : isPublic name = false)
    (hm : (hidden (w.classOf v)).lookup name = some m) :
    ((cat.withHidden hidden).classOf w v).member? name = some m := by
  rw [ClassDef.member?, classOf, withHidden]
  dsimp only
  rw [List.findSome?_cons, lookup_hidden, hpublic, if_neg (by simp), hm]

/-- To fetch under the name of a hidden accessor is to run its getter, whatever
attributes the object has. -/
theorem fetch_hidden {a : Accessor} {getter : Value → Act Value} (hpublic : isPublic name = false)
    (hm : (hidden (w.classOf v)).lookup name = some (.accessor a)) (hcached : a.cached = false)
    (hget : a.get = some getter) : (cat.withHidden hidden).fetch v name w = getter v w := by
  rw [fetch, Eval.get_bind_apply, member?_hidden hpublic hm]
  simp only [hcached, hget]

/-- To assign under the name of a hidden accessor is to run its setter. -/
theorem assign_hidden {a : Accessor} {setter : Value → Value → Act Unit} (u : Value)
    (hpublic : isPublic name = false)
    (hm : (hidden (w.classOf v)).lookup name = some (.accessor a)) (hcached : a.cached = false)
    (hset : a.set = some setter) (hfrozen : (cat.find (w.classOf v)).isFrozen = false) :
    (cat.withHidden hidden).assign v name u w = setter v u w := by
  have hopen : ((cat.withHidden hidden).classOf w v).outline.isFrozen = false := hfrozen
  rw [assign, Eval.get_bind_apply, hopen]
  simp only [member?_hidden hpublic hm, hcached, hset]
  rfl

/-! ### Descriptions -/

theorem isSlot_withHidden (hpublic : isPublic name = true) :
    ((cat.withHidden hidden).classOf w v).isSlot name = (cat.classOf w v).isSlot name := by
  rw [ClassDef.isSlot, ClassDef.isSlot, member?_withHidden hpublic]

theorem samePublic_subject_withHidden :
    (cat.subject w v).SamePublic ((cat.withHidden hidden).subject w v) where
  outline := rfl
  hint := rfl
  own := by
    rw [subject, subject, List.filter_filter, List.filter_filter]
    refine List.filter_congr fun name _ => ?_
    cases hpublic : isPublic name with
    | false => rfl
    | true => rw [isSlot_withHidden hpublic]
  members := by
    have hmembers : ((cat.withHidden hidden).subject w v).members =
        ((hidden (w.classOf v)).filter fun e => !isPublic e.1) ++ (cat.subject w v).members := rfl
    rw [hmembers, List.filter_append, List.filter_filter]
    simp

theorem properties_withHidden :
    (cat.withHidden hidden).properties w v = cat.properties w v := by
  rw [properties, properties, samePublic_subject_withHidden.properties]

theorem methods_withHidden : (cat.withHidden hidden).methods w v = cat.methods w v := by
  rw [methods, methods, samePublic_subject_withHidden.methods]

/-! ### Reading, writing and calling -/

theorem fetch_withHidden (hpublic : isPublic name = true) (v : Value) :
    (cat.withHidden hidden).fetch v name = cat.fetch v name := by
  funext w
  rw [fetch, fetch, Eval.get_bind_apply, Eval.get_bind_apply, member?_withHidden hpublic]

theorem assign_withHidden (hpublic : isPublic name = true) (v u : Value) :
    (cat.withHidden hidden).assign v name u = cat.assign v name u := by
  funext w
  rw [assign, assign, Eval.get_bind_apply, Eval.get_bind_apply]
  dsimp only
  rw [member?_withHidden hpublic]
  rfl

theorem findProperty?_withHidden :
    (cat.withHidden hidden).findProperty? = cat.findProperty? := by
  funext w v label
  rw [findProperty?, findProperty?, properties_withHidden]

theorem readProperty_withHidden :
    (cat.withHidden hidden).readProperty = cat.readProperty := by
  funext v label w
  rw [readProperty, readProperty, Eval.get_bind_apply, Eval.get_bind_apply,
    findProperty?_withHidden]
  cases hp : cat.findProperty? w v label with
  | none => rfl
  | some p =>
      cases htable : w.table? v with
      | some entry => rfl
      | none =>
          dsimp only
          rw [fetch_withHidden (isPublic_of_findProperty? htable hp)]

theorem writeProperty_withHidden :
    (cat.withHidden hidden).writeProperty = cat.writeProperty := by
  funext v label u w
  rw [writeProperty, writeProperty, Eval.get_bind_apply, Eval.get_bind_apply,
    findProperty?_withHidden]
  cases hp : cat.findProperty? w v label with
  | none => rfl
  | some p =>
      cases htable : w.table? v with
      | some entry => rfl
      | none =>
          dsimp only
          simp only [assign_withHidden (isPublic_of_findProperty? htable hp)]
          rfl

theorem fitArguments_withHidden (args : List Value) (params : List ParamInfo) :
    (cat.withHidden hidden).fitArguments w args params = cat.fitArguments w args params := by
  induction args generalizing params with
  | nil => rfl
  | cons a args ih =>
      cases params with
      | nil => rfl
      | cons p params =>
          rw [fitArguments, fitArguments, ih]
          rfl

theorem firstFitting_withHidden (args : List Value) (ms : List MethodInfo) :
    (cat.withHidden hidden).firstFitting w args ms = cat.firstFitting w args ms := by
  induction ms with
  | nil => rfl
  | cons m ms ih => rw [firstFitting, firstFitting, fitArguments_withHidden, ih]

theorem callMethod_withHidden :
    (cat.withHidden hidden).callMethod = cat.callMethod := by
  have hrefused (w : World) (args : List Value) :
      (cat.withHidden hidden).refusedArguments w args = cat.refusedArguments w args := by
    rcases args with _ | ⟨a, _ | ⟨b, args⟩⟩ <;> rfl
  have hresolve : (cat.withHidden hidden).resolve = cat.resolve := by
    funext w v label args
    rw [resolve, resolve, methods_withHidden]
    simp only [firstFitting_withHidden, hrefused]
  funext v label args
  rw [callMethod, callMethod, hresolve]

/-- Whatever stands under names that are not public, the members of values are
found, read, written and called as without it. -/
theorem actsLike_withHidden (cat : Catalog) (hidden : ClassName → List (String × Member)) :
    cat.ActsLike (cat.withHidden hidden) where
  limits := rfl
  find := findProperty?_withHidden
  read := readProperty_withHidden
  write := writeProperty_withHidden
  call := callMethod_withHidden

/-! ### Proper descriptions, and what expressions reach by them -/

end Catalog

namespace Sample

def derivedWorld : World := resultWorld (newBase "Derived" initialWorld)

def derivedObject : Value := .object 4

def alarm : Accessor where
  get := some fun _ => Act.raise "RuntimeError" "read"
  set := some fun _ _ => Act.raise "RuntimeError" "written"

def alarmed : Catalog := catalog.withHidden fun _ => [("_secret", .accessor alarm)]

def keyWorld : World := ⟨#[.table false [(.text "_x", .int 1), (.int 2, .null)]], ""⟩

/-- A class derived from a record class, and a property of it with a label and a type
of its own, under the name of the field. -/
def wideBoxName : ClassName := ⟨"sample", "WideBox"⟩

/-- An enumeration, one of whose members is named like a property that the members
of all enumerations have. -/
def kindName : ClassName := ⟨"sample", "Kind"⟩

def overridingOutlines : Outlines := .ofList Host.limits [
  { name := wideBoxName
    ancestors := [wideBoxName, ⟨"sample", "Box"⟩]
    record := some { fields := [{ name := "width" }] } },
  { name := kindName
    ancestors := [kindName, ⟨"enum", "Enum"⟩]
    choices := [("name", .int 1)] }]

def wideBoxBody : ClassBody where
  name := wideBoxName
  members := [("width", stored "Width" .text false "_width")]

def boxBody : ClassBody where
  name := ⟨"sample", "Box"⟩
  members := [("width", .constant (.int 0))]
  hints := [("width", .int)]

def kindBody : ClassBody where
  name := kindName
  members := [("name", .choice)]

def overriding : Catalog := .ofList overridingOutlines [
  (wideBoxName, [wideBoxBody, boxBody]),
  (kindName, [kindBody, Builtin.enumerationBody overridingOutlines])]

def boxWorld : World := ⟨#[.record wideBoxName [("_width", .int 0)]], ""⟩

def widthInfo : PropertyInfo :=
  { name := "width", label := "width", type := .int, readable := true, writable := true }

def kindInfo (name : String) : PropertyInfo :=
  { name, label := name, type := .undeclared, readable := true, writable := false }

/-- A name that a class and one of its ancestors define is described by the
definition of the class, unless it is exempt. -/
def DerivedDescribes (exempt : Subject → String → Bool) : Prop :=
  ∀ (cat : Catalog) (w : World) (v : Value) (body : ClassBody) (ancestors : List ClassBody)
    (m : Member) (p : PropertyInfo),
    w.table? v = none → (cat.classOf w v).lineage = body :: ancestors →
    body.members.lookup p.name = some m → (∃ b ∈ ancestors, p.name ∈ b.members.map (·.1)) →
    exempt (cat.subject w v) p.name = false → p ∈ cat.properties w v →
    (cat.subject w v).ofMember p.name m = some p

def textOf? : Value → Option String
  | .text s => some s
  | _ => none

end Sample

end ObjectConsole
