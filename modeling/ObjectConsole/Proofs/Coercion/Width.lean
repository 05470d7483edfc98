import ObjectConsole.Builtin.Classes
import ObjectConsole.Proofs.Coercion.Sound

/-!
Integers in their five forms. A plain integer and an integer of some width can be
the same number, and fitting looks at nothing else of them: a conversion starts
from the number, and of a class that is no width all integers are instances or
none. So the forms of a number fit the same types, and a type lets a form through
only if it keeps a value as it is.
-/

namespace ObjectConsole

def Value.SameNumber (v v' : Value) : Prop :=
  v = v' ∨ ∃ n, v.asInt? = some n ∧ v'.asInt? = some n

def ClassName.IsWidth (c : ClassName) : Prop :=
  c = Builtin.sizedName ∨ ∃ width, c = .ofWidth width

instance (c : ClassName) : Decidable c.IsWidth :=
  decidable_of_iff (c = Builtin.sizedName ∨ ∃ width ∈ Width.all, c = .ofWidth width) <| by
    refine or_congr_right (exists_congr fun width => and_iff_right ?_)
    cases width <;> decide

namespace SlotType

def class? : SlotType → Option ClassName
  | cls c | generic _ c _ => some c
  | _ => none

/-- No width is written as a class, where it has a form of its own. -/
def NamesNoWidth (t : SlotType) : Prop :=
  ∀ a ∈ t.listed, ∀ c ∈ a.class?, ¬c.IsWidth

instance (t : SlotType) : Decidable t.NamesNoWidth :=
  inferInstanceAs (Decidable (∀ a ∈ t.listed, ∀ c ∈ a.class?, ¬c.IsWidth))

end SlotType

/-! ### Two outcomes -/

inductive SameOutcome {ε α : Type} (R : α → α → Prop) : Except ε α → Except ε α → Prop
  | ok {a a' : α} (h : R a a') : SameOutcome R (.ok a) (.ok a')
  | error (e : ε) : SameOutcome R (.error e) (.error e)

section

variable {ε α β : Type} {R : α → α → Prop} {S : β → β → Prop}

theorem SameOutcome.refl (hR : ∀ a, R a a) (r : Except ε α) : SameOutcome R r r := by
  cases r with
  | ok a => exact .ok (hR a)
  | error e => exact .error e

theorem SameOutcome.bind {r r' : Except ε α} (h : SameOutcome R r r') {f f' : α → Except ε β}
    (hf : ∀ a a', R a a' → SameOutcome S (f a) (f' a')) :
    SameOutcome S (r.bind f) (r'.bind f') := by
  cases h with
  | ok h => exact hf _ _ h
  | error e => exact .error e

/-- Where a search is answered alike everywhere, its answers are alike. -/
theorem rel_findSome? {f f' : α → Option β} {l : List α}
    (h : ∀ a ∈ l, Option.Rel S (f a) (f' a)) :
    Option.Rel S (l.findSome? f) (l.findSome? f') := by
  induction l with
  | nil => exact .none
  | cons a l ih =>
      obtain ⟨ha, hl⟩ := List.forall_mem_cons.1 h
      rw [List.findSome?_cons, List.findSome?_cons]
      generalize f a = x at ha ⊢
      generalize f' a = x' at ha ⊢
      cases ha with
      | some hb => exact .some hb
      | none => exact ih hl

end

namespace Outlines

/-- Integers of a width are instances of whatever plain integers are instances of,
and of nothing else but widths. -/
def WidthsAreIntegers (o : Outlines) : Prop :=
  ∀ width c, ¬c.IsWidth →
    (o.find (.ofWidth width)).descendsFrom c = (o.find (.core "int")).descendsFrom c

/-- Whether a type that is no union names a concrete type: one of the scalars, or
a class. A class that all integers are instances of is abstract. -/
def isConcrete (o : Outlines) : SlotType → Bool
  | .nullType | .bool | .int | .float | .sized _ => true
  | .cls c | .generic _ c _ => !(o.find (.core "int")).descendsFrom c
  | _ => false

def Concrete (o : Outlines) (t : SlotType) : Prop := ∀ a ∈ t.listed, o.isConcrete a = true

def SameStored (o : Outlines) (t : SlotType) (u u' : Value) : Prop :=
  u.SameNumber u' ∧ (o.Concrete t → u = u')

variable {o : Outlines} {w : World} {v v' u u' : Value} {n : Int} {t a : SlotType}

/-! ### One type -/

theorem isNull_of_asInt? (h : v.asInt? = some n) : v.isNull = false := by
  cases v with
  | null => exact absurd h (by simp [Value.asInt?])
  | _ => rfl

/-- An integer is displayed by its digits, in every form. -/
theorem displayWithin_of_asInt? (h : v.asInt? = some n) (levels : Nat) (outer : List Ref) :
    o.displayWithin w (levels + 1) outer v = integerText n := by
  cases v with
  | int m =>
      obtain rfl : m = n := Option.some.inj h
      rw [displayWithin]
  | sized width m own =>
      obtain rfl : m = n := Option.some.inj h
      rw [displayWithin]
  | _ => exact absurd h (by simp [Value.asInt?])

theorem displayWithin_forms (h : v.asInt? = some n) (h' : v'.asInt? = some n) (levels : Nat)
    (outer : List Ref) :
    o.displayWithin w levels outer v = o.displayWithin w levels outer v' := by
  cases levels with
  | zero => rw [displayWithin, displayWithin]
  | succ levels => rw [displayWithin_of_asInt? h, displayWithin_of_asInt? h']

theorem refuse_forms (h : v.asInt? = some n) (h' : v'.asInt? = some n) (label : String) :
    o.refuse w v label = o.refuse w v' label := by
  rw [refuse, refuse, display, display, displayWithin_forms h h']

theorem isInstance_of_asInt? (ho : o.WidthsAreIntegers) {c : ClassName} (hc : ¬c.IsWidth)
    (h : v.asInt? = some n) :
    o.isInstance w v c = (o.find (.core "int")).descendsFrom c := by
  cases v with
  | int m => rfl
  | sized width m own => exact ho width c hc
  | _ => exact absurd h (by simp [Value.asInt?])

theorem coerceClass_of_asInt? (h : v.asInt? = some n) (c : ClassName) :
    o.coerceClass w v c = o.coerceInstance w v c := by
  unfold coerceClass
  split
  · next s _ hs =>
      rw [underlying_of_asInt? h] at hs
      exact absurd h (by simp [hs, Value.asInt?])
  · rfl

/-- A type whose instances are kept as they are keeps both forms of a number or
refuses both. -/
theorem coerceInstance_forms (ho : o.WidthsAreIntegers) {c : ClassName} (hc : ¬c.IsWidth)
    (h : v.asInt? = some n) (h' : v'.asInt? = some n) :
    o.coerceInstance w v c = o.coerceInstance w v' c ∨
      (o.find (.core "int")).descendsFrom c = true ∧
        o.coerceInstance w v c = .ok v ∧ o.coerceInstance w v' c = .ok v' := by
  rw [coerceInstance, coerceInstance, isInstance_of_asInt? ho hc h, isInstance_of_asInt? ho hc h']
  cases (o.find (.core "int")).descendsFrom c with
  | false => exact .inl (refuse_forms h h' c.name)
  | true => exact .inr ⟨rfl, rfl, rfl⟩

theorem coerceBool_of_asInt? (h : v.asInt? = some n) :
    o.coerceBool w v = o.refuse w v "bool" := by
  cases v with
  | bool b => exact absurd h (by simp [Value.asInt?])
  | _ => rfl

/-- A type that is no union makes the same of two forms of a number, or keeps both
as they are. -/
theorem coerce_forms (ho : o.WidthsAreIntegers) (ha : a.isUnion = false) (hname : a.NamesNoWidth)
    (h : v.asInt? = some n) (h' : v'.asInt? = some n) :
    o.coerce w v a = o.coerce w v' a ∨
      o.isConcrete a = false ∧ o.coerce w v a = .ok v ∧ o.coerce w v' a = .ok v' := by
  have hnull := isNull_of_asInt? h
  have hnull' := isNull_of_asInt? h'
  have hintegral : (o.underlying v).integral? = some n := by
    rw [underlying_of_asInt? h, integral?_of_asInt? h]
  have hintegral' : (o.underlying v').integral? = some n := by
    rw [underlying_of_asInt? h', integral?_of_asInt? h']
  have hclass {c : ClassName} (hc : a.class? = some c) : ¬c.IsWidth :=
    hname a (by rw [SlotType.listed_of_not_union ha]; simp) c hc
  cases a with
  | nullType => exact .inl (by simp [coerce, hnull, hnull', refuse_forms h h'])
  | bool =>
      exact .inl (by
        rw [coerce, coerce, coerceBool_of_asInt? h, coerceBool_of_asInt? h', refuse_forms h h'])
  | int =>
      exact .inl (by rw [coerce, coerce, coerceInt, coerceInt, hintegral, hintegral'])
  | sized width =>
      exact .inl (by
        rw [coerce, coerce, coerceSized, coerceSized, hintegral, hintegral', refuse_forms h h'])
  | float =>
      rw [coerce, coerce, coerceFloat_of_asInt? (by rwa [underlying_of_asInt? h]),
        coerceFloat_of_asInt? (by rwa [underlying_of_asInt? h'])]
      exact .inl rfl
  | cls c =>
      simpa [coerce, hnull, hnull', coerceClass_of_asInt? h, coerceClass_of_asInt? h', isConcrete]
        using coerceInstance_forms ho (hclass rfl) h h'
  | generic style origin arguments =>
      simpa [coerce, hnull, hnull', isConcrete] using coerceInstance_forms ho (hclass rfl) h h'
  | union style arms => exact absurd ha (by simp [SlotType.isUnion])
  | literal _ | placeholder _ | forward _ =>
      exact .inr (by simp [coerce, isConcrete, hnull, hnull'])
  | undeclared | any | anyObject | nothing => exact .inr (by simp [coerce, isConcrete])

/-! ### Any type -/

theorem SameStored.refl (o : Outlines) (t : SlotType) (u : Value) : o.SameStored t u u :=
  ⟨.inl rfl, fun _ => rfl⟩

theorem namesNoWidth_of_mem_listed (ht : t.NamesNoWidth) (ha : a ∈ t.listed) :
    a.NamesNoWidth := by
  rw [SlotType.NamesNoWidth, SlotType.listed_of_not_union (SlotType.not_union_of_mem_listed t ha)]
  exact fun b hb => ht b (by rwa [List.mem_singleton.1 hb])

/-- A listed type answers two forms of a number alike. -/
theorem sameOutcome_of_mem_listed (ho : o.WidthsAreIntegers) (ht : t.NamesNoWidth)
    (ha : a ∈ t.listed) (h : v.asInt? = some n) (h' : v'.asInt? = some n) :
    SameOutcome (o.SameStored t) (o.coerce w v a) (o.coerce w v' a) := by
  have hunion := SlotType.not_union_of_mem_listed t ha
  rcases coerce_forms (w := w) ho hunion (namesNoWidth_of_mem_listed ht ha) h h' with
    heq | ⟨habstract, hkeeps, hkeeps'⟩
  · rw [heq]
    exact .refl (SameStored.refl o t) _
  · rw [hkeeps, hkeeps']
    refine .ok ⟨.inr ⟨n, h, h'⟩, fun hconcrete => ?_⟩
    exact absurd (hconcrete a ha) (by simp [habstract])

theorem rel_settle? {R : Value → Value → Prop}
    (h : SameOutcome R (o.coerce w v a) (o.coerce w v' a)) :
    Option.Rel (SameOutcome R) (o.settle? w v a) (o.settle? w v' a) := by
  rw [settle?, settle?]
  split
  · exact .none
  · generalize o.coerce w v a = r at h ⊢
    generalize o.coerce w v' a = r' at h ⊢
    cases h with
    | ok h => exact .some (.ok h)
    | error e =>
        cases e with
        | unfit shown label => exact .none
        | raised _ => exact .some (.error _)

mutual

/-- Where the types that a type lists answer two forms of a number alike, so does
the type. -/
theorem sameOutcome_of_listed {w : World} {v v' : Value} {n : Int} {R : Value → Value → Prop}
    (hR : ∀ u, R u u) (h : v.asInt? = some n) (h' : v'.asInt? = some n) :
    ∀ t : SlotType, (∀ a ∈ t.listed, SameOutcome R (o.coerce w v a) (o.coerce w v' a)) →
      SameOutcome R (o.coerce w v t) (o.coerce w v' t)
  | .union style arms, hlisted => by
      have harms := sameOutcome_of_listedAll hR h h' arms (by rwa [SlotType.listed] at hlisted)
      have hsearch := rel_findSome? fun a ha => rel_settle? (harms a ha)
      rw [coerce_union (isNull_of_asInt? h), coerce_union (isNull_of_asInt? h'),
        coerceArms_eq_findSome?, coerceArms_eq_findSome?, refuse_forms h h']
      generalize arms.findSome? (o.settle? w v) = x at hsearch ⊢
      generalize arms.findSome? (o.settle? w v') = x' at hsearch ⊢
      cases hsearch with
      | some hr => exact hr
      | none => exact .refl hR _
  | .undeclared, hlisted | .any, hlisted | .anyObject, hlisted | .nothing, hlisted
  | .nullType, hlisted | .bool, hlisted | .int, hlisted | .float, hlisted | .sized _, hlisted
  | .cls _, hlisted | .generic .., hlisted | .literal _, hlisted | .placeholder _, hlisted
  | .forward _, hlisted => hlisted _ (by rw [SlotType.listed_of_not_union rfl]; simp)

theorem sameOutcome_of_listedAll {w : World} {v v' : Value} {n : Int} {R : Value → Value → Prop}
    (hR : ∀ u, R u u) (h : v.asInt? = some n) (h' : v'.asInt? = some n) :
    ∀ ts : List SlotType,
      (∀ a ∈ SlotType.listedAll ts, SameOutcome R (o.coerce w v a) (o.coerce w v' a)) →
      ∀ t ∈ ts, SameOutcome R (o.coerce w v t) (o.coerce w v' t)
  | [], _ => by simp
  | t :: ts, hlisted => by
      simp only [SlotType.listedAll, List.mem_append, or_imp, forall_and] at hlisted
      exact List.forall_mem_cons.2 ⟨sameOutcome_of_listed hR h h' t hlisted.1,
        sameOutcome_of_listedAll hR h h' ts hlisted.2⟩

end

/-- Forms of a number have the same fate in every slot. -/
theorem sameOutcome_coerce (ho : o.WidthsAreIntegers) (ht : t.NamesNoWidth)
    (h : v.SameNumber v') :
    SameOutcome (o.SameStored t) (o.coerce w v t) (o.coerce w v' t) := by
  obtain rfl | ⟨n, hn, hn'⟩ := h
  · exact .refl (SameStored.refl o t) _
  · exact sameOutcome_of_listed (SameStored.refl o t) hn hn' t fun a ha =>
      sameOutcome_of_mem_listed ho ht ha hn hn'

end Outlines

end ObjectConsole
