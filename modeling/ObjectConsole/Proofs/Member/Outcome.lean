import ObjectConsole.Builtin.Classes
import ObjectConsole.Proofs.Member.Property

/-!
What reading a property comes to, errors included. For a modest class this
depends on nothing but the cell that the value has of its own. For an integer
that carries no attributes it depends on no cell at all, and it gives an integer
again. So it makes no difference there whether an integer of a fixed width has
a cell, nor which.
-/

namespace ObjectConsole

open Builtin (integerOf)

variable {ε α : Type}

/-- The value that a run gives, or else the error that it ends with. -/
def resultOutcome : EStateM.Result ε World α → Except ε α
  | .ok a _ => .ok a
  | .error e _ => .error e

theorem resultOutcome_eq_ok_iff {r : EStateM.Result ε World α} {a : α} :
    resultOutcome r = .ok a ↔ r = .ok a (resultWorld r) := by
  cases r <;> simp [resultOutcome, resultWorld]

theorem resultOutcome_eq_error_iff {r : EStateM.Result ε World α} {e : ε} :
    resultOutcome r = .error e ↔ r = .error e (resultWorld r) := by
  cases r <;> simp [resultOutcome, resultWorld]

theorem resultOutcome_invoke_congr {name : String} {act : Act α} {w w' : World}
    (h : resultOutcome (act w') = resultOutcome (act w)) :
    resultOutcome (Eval.invoke name act w') = resultOutcome (Eval.invoke name act w) := by
  rw [Eval.invoke, Eval.invoke]
  cases hrun : act w <;> cases hrun' : act w' <;> simp_all [resultOutcome]

namespace Catalog

variable {cat : Catalog} {w w' : World} {v : Value}

theorem properties_of_get? (h : ∀ r, v.own? = some r → w'.get? r = w.get? r) :
    cat.properties w' v = cat.properties w v := by
  obtain ⟨hclass, hattributes, htable⟩ := World.face_of_get? h
  rw [properties, properties, htable, subject, subject, classOf_congr hclass, hattributes]

/-! ### Modest classes -/

theorem outcome_fetch (hc : (cat.classOf w v).Modest) (hclass : w'.classOf v = w.classOf v)
    (hattributes : w'.attributes v = w.attributes v) (name : String) :
    resultOutcome (cat.fetch v name w') = resultOutcome (cat.fetch v name w) := by
  have hdef : cat.classOf w' v = cat.classOf w v := classOf_congr hclass
  have hmissing : noAttribute w' v name = noAttribute w v name := by
    rw [noAttribute, noAttribute, World.className, World.className, hclass]
  rw [fetch, Eval.get_bind_apply, Eval.get_bind_apply, hdef, hattributes, hmissing]
  cases hm : (cat.classOf w v).member? name with
  | none => cases (w.attributes v).lookup name <;> rfl
  | some m =>
      cases m with
      | accessor a =>
          have hview := hc _ (ClassDef.mem_of_member? hm) a rfl
          obtain ⟨getter, hget, hshows⟩ := hview.shows
          obtain ⟨view, -, hgetter⟩ := hshows v
          simp only [hview.uncached, hget, hgetter, hattributes]
          rfl
      | constant u => rfl
      | _ => cases (w.attributes v).lookup name <;> rfl

/-- Reading a property comes to the same wherever the value's own cell is the same. -/
theorem outcome_readProperty (hc : w.table? v = none → (cat.classOf w v).Modest)
    (h : ∀ r, v.own? = some r → w'.get? r = w.get? r) (label : String) :
    resultOutcome (cat.readProperty v label w') = resultOutcome (cat.readProperty v label w) := by
  obtain ⟨hclass, hattributes, htable⟩ := World.face_of_get? h
  have hname : w'.className v = w.className v := congrArg ClassName.name hclass
  rw [readProperty, Eval.get_bind_apply, Eval.get_bind_apply, findProperty?, findProperty?,
    properties_of_get? h, hname, htable]
  cases (cat.properties w v).find? fun p => p.label == label with
  | none => rfl
  | some p =>
      cases hp : p.readable with
      | false =>
          simp only [hp]
          rfl
      | true =>
          simp only [hp]
          cases ht : w.table? v with
          | some t =>
              simp only [Outlines.lookup_text]
              rfl
          | none => exact resultOutcome_invoke_congr (outcome_fetch (hc ht) hclass hattributes _)

end Catalog

/-! ### Integers -/

def Member.ShowsInteger : Member → Prop
  | .accessor a =>
    a.cached = false ∧ ∃ f : Int → Int, a.get = some fun v => pure (.int (f (integerOf v)))
  | .constant u => ∃ m, u = .int m
  | _ => True

def ClassDef.OfIntegers (c : ClassDef) : Prop :=
  ∀ e ∈ c.lineage.flatMap (·.members), e.2.ShowsInteger

/-- The classes of integers show nothing but integers, as those of the language do. -/
structure Catalog.PlainIntegers (cat : Catalog) : Prop where
  core : ClassDef.OfIntegers ⟨cat.find (.core "int"), cat.lineage (.core "int")⟩
  ofWidth : ∀ width, ClassDef.OfIntegers ⟨cat.find (.ofWidth width), cat.lineage (.ofWidth width)⟩

/-- The value is an integer of the class. It carries no attributes, with or without
a cell to keep them. -/
structure IsInteger (w : World) (v : Value) (cls : ClassName) (n : Int) : Prop where
  asInt : v.asInt? = some n
  classOf : w.classOf v = cls
  attributes : w.attributes v = []
  placed : ∀ r, v.own? = some r → ∃ c, w.get? r = some c

namespace IsInteger

variable {w w' : World} {v : Value} {cls : ClassName} {n : Int}

theorem int (w : World) (n : Int) : IsInteger w (.int n) (.core "int") n :=
  ⟨rfl, rfl, rfl, by simp [Value.own?]⟩

theorem bare (w : World) (width : Width) (n : Int) :
    IsInteger w (.sized width n none) (.ofWidth width) n :=
  ⟨rfl, rfl, rfl, by simp [Value.own?]⟩

/-- Adopting an integer gives it a cell without attributes. -/
theorem adopt (w : World) (width : Width) (n : Int) :
    IsInteger (w.adopt (.sized width n none)).2 (w.adopt (.sized width n none)).1
      (.ofWidth width) n := by
  have hcell := World.get?_alloc_self w (.record (.ofWidth width) [])
  refine ⟨rfl, rfl, ?_, fun r hr => ?_⟩
  · rw [World.adopt, World.attributes, hcell]
  · obtain rfl := Option.some.inj hr
    exact ⟨_, hcell⟩

theorem cases (h : IsInteger w v cls n) : v = .int n ∨ ∃ width own, v = .sized width n own := by
  have hint := h.asInt
  cases v with
  | int m => exact .inl (congrArg Value.int (Option.some.inj hint))
  | sized width m own =>
      obtain rfl := Option.some.inj hint
      exact .inr ⟨width, own, rfl⟩
  | _ => exact absurd hint (by simp [Value.asInt?])

theorem table? (h : IsInteger w v cls n) : w.table? v = none := by
  rcases h.cases with rfl | ⟨width, own, rfl⟩ <;> rfl

theorem items? (h : IsInteger w v cls n) : w.items? v = none := by
  rcases h.cases with rfl | ⟨width, own, rfl⟩ <;> rfl

theorem isNull (h : IsInteger w v cls n) : v.isNull = false := by
  rcases h.cases with rfl | ⟨width, own, rfl⟩ <;> rfl

theorem integerOf (h : IsInteger w v cls n) : integerOf v = n := by
  rcases h.cases with rfl | ⟨width, own, rfl⟩ <;> rfl

theorem mono (h : IsInteger w v cls n) (hext : w.Extends w') : IsInteger w' v cls n := by
  have hsame : ∀ r, v.own? = some r → w'.get? r = w.get? r := fun r hr => by
    obtain ⟨c, hc⟩ := h.placed r hr
    rw [hext r c hc, hc]
  obtain ⟨hclass, hattributes, -⟩ := World.face_of_get? hsame
  refine ⟨h.asInt, hclass.trans h.classOf, hattributes.trans h.attributes, fun r hr => ?_⟩
  obtain ⟨c, hc⟩ := h.placed r hr
  exact ⟨c, hext r c hc⟩

end IsInteger

namespace Catalog

variable {cat : Catalog}

theorem subject_integer {w : World} {v : Value} {cls : ClassName} {n : Int}
    (h : IsInteger w v cls n) :
    cat.subject w v = ⟨⟨cat.find cls, cat.lineage cls⟩, []⟩ := by
  rw [subject, Catalog.classOf, h.classOf, h.attributes]
  rfl

/-- What is found in an integer depends on its class alone. -/
theorem findProperty?_integer {w : World} {v : Value} {cls : ClassName} {n : Int}
    (h : IsInteger w v cls n) (label : String) :
    cat.findProperty? w v label =
      (Subject.properties ⟨⟨cat.find cls, cat.lineage cls⟩, []⟩).find? fun p =>
        p.label == label := by
  rw [findProperty?_of_table h.table?, h.isNull, subject_integer h]
  rfl

theorem labels_integer {w : World} {v : Value} {cls : ClassName} {n : Int}
    (h : IsInteger w v cls n) :
    cat.labels w v =
      (Subject.properties ⟨⟨cat.find cls, cat.lineage cls⟩, []⟩).map (·.label) ++
        (Subject.methods ⟨⟨cat.find cls, cat.lineage cls⟩, []⟩).map (·.label) := by
  rw [labels, properties, methods, h.table?, h.isNull, subject_integer h]
  rfl

/-- What fetching an attribute, or reading a property, does to the integers `n` of a
class: it has one outcome for all of them, whatever the world, changes nothing,
and gives no other values than integers. -/
def Uniform (cls : ClassName) (n : Int) (x : Value → EStateM ε World Value) : Prop :=
  ∃ out : Except ε Value, (∀ u, out = .ok u → ∃ m, u = .int m) ∧
    ∀ v w, IsInteger w v cls n → resultOutcome (x v w) = out ∧ resultWorld (x v w) = w

theorem uniform_error {cls : ClassName} {n : Int} {x : Value → EStateM ε World Value} (e : ε)
    (h : ∀ v w, IsInteger w v cls n → x v w = .error e w) : Uniform cls n x := by
  refine ⟨.error e, by simp, fun v w hv => ?_⟩
  rw [h v w hv]
  exact ⟨rfl, rfl⟩

theorem uniform_int {cls : ClassName} {n : Int} {x : Value → EStateM ε World Value} (m : Int)
    (h : ∀ v w, IsInteger w v cls n → x v w = .ok (.int m) w) : Uniform cls n x := by
  refine ⟨.ok (.int m), by simp, fun v w hv => ?_⟩
  rw [h v w hv]
  exact ⟨rfl, rfl⟩

theorem uniform_fetch {cls : ClassName}
    (hc : ClassDef.OfIntegers ⟨cat.find cls, cat.lineage cls⟩) (n : Int) (name : String) :
    Uniform cls n fun v => cat.fetch v name := by
  have hdef {v : Value} {w : World} (h : IsInteger w v cls n) :
      cat.classOf w v = ⟨cat.find cls, cat.lineage cls⟩ := by
    rw [Catalog.classOf, h.classOf]
  -- the error names the class, which is the same for all of them
  obtain ⟨missing, hmissing⟩ : ∃ missing, ∀ {v w}, IsInteger w v cls n →
      noAttribute w v name = missing := by
    refine ⟨.ofCore "AttributeError"
      ("'" ++ cls.name ++ "' object has no attribute '" ++ name ++ "'"), fun {v w} h => ?_⟩
    rw [noAttribute, World.className, h.classOf]
  cases hm : ClassDef.member? ⟨cat.find cls, cat.lineage cls⟩ name with
  | some m =>
      cases m with
      | accessor a =>
          obtain ⟨huncached, f, hget⟩ := hc _ (ClassDef.mem_of_member? hm)
          refine uniform_int (f n) fun v w h => ?_
          rw [fetch, Eval.get_bind_apply, hdef h, hm, ← h.integerOf]
          simp only [huncached, hget]
          rfl
      | constant u =>
          obtain ⟨m, rfl⟩ := hc _ (ClassDef.mem_of_member? hm)
          refine uniform_int m fun v w h => ?_
          rw [fetch, Eval.get_bind_apply, hdef h, hm, h.attributes]
          rfl
      | _ =>
          refine uniform_error missing fun v w h => ?_
          rw [fetch, Eval.get_bind_apply, hdef h, hm, h.attributes, hmissing h]
          rfl
  | none =>
      refine uniform_error missing fun v w h => ?_
      rw [fetch, Eval.get_bind_apply, hdef h, hm, h.attributes, hmissing h]
      rfl

/-- Reading a property of an integer comes to the same whether the integer has a
cell of its own or not. -/
theorem uniform_readProperty {cls : ClassName}
    (hc : ClassDef.OfIntegers ⟨cat.find cls, cat.lineage cls⟩) (n : Int) (label : String) :
    Uniform cls n fun v => cat.readProperty v label := by
  have hname {v : Value} {w : World} (h : IsInteger w v cls n) : w.className v = cls.name :=
    congrArg ClassName.name h.classOf
  cases hfind : (Subject.properties ⟨⟨cat.find cls, cat.lineage cls⟩, []⟩).find? fun p =>
      p.label == label with
  | none =>
      refine uniform_error (.reported (.memberNotFound cls.name .property label)) fun v w h => ?_
      rw [readProperty, Eval.get_bind_apply, findProperty?_integer h, hfind, hname h]
      rfl
  | some p =>
      cases hp : p.readable with
      | false =>
          refine uniform_error (.reported (.memberNotFound cls.name .property label))
            fun v w h => ?_
          rw [readProperty, Eval.get_bind_apply, findProperty?_integer h, hfind, hname h]
          simp only [hp]
          rfl
      | true =>
          obtain ⟨out, hint, hfetch⟩ := uniform_fetch hc n p.name
          refine ⟨out.mapError fun e => .reported (.invocation label e), fun u hu => ?_,
            fun v w h => ?_⟩
          · cases out with
            | ok u' => exact hint u (congrArg Except.ok (Except.ok.inj hu))
            | error e => cases hu
          · have hread : cat.readProperty v label w = Eval.invoke label (cat.fetch v p.name) w := by
              rw [readProperty, Eval.get_bind_apply, findProperty?_integer h, hfind]
              simp only [hp, h.table?]
              rfl
            obtain ⟨hout, hworld⟩ := hfetch v w h
            dsimp only at hout hworld ⊢
            rw [hread, ← hout]
            refine ⟨?_, (resultWorld_invoke label _ w).trans hworld⟩
            rw [Eval.invoke]
            cases cat.fetch v p.name w <;> rfl

end Catalog

end ObjectConsole
