import ObjectConsole.Coercion
import ObjectConsole.Proofs.Coercion.Display

/-!
The arms of a union. An arm that refuses a value is passed over, and so is the
class of `null`; the first arm that is not settles what the union makes of the
value, be it that the arm takes it or that an error is raised over it. A union
within a union counts like its arms in its place, so what any type makes of a
value is settled by the first of the types it lists that does not refuse. A
refusal displays the value, so a value that has no display is never refused:
where a refusal is due, the error of the display is raised instead.
-/

namespace ObjectConsole

theorem Value.isNull_iff {v : Value} : v.isNull = true ↔ v = .null := by
  cases v <;> simp [isNull]

namespace SlotType

mutual

/-- The types that a union lists: its arms, and in the place of an arm that is a
union what that lists. Any other type lists itself. -/
def listed : SlotType → List SlotType
  | union _ arms => listedAll arms
  | t => [t]

def listedAll : List SlotType → List SlotType
  | [] => []
  | arm :: arms => arm.listed ++ listedAll arms

end

def isUnion : SlotType → Bool
  | union .. => true
  | _ => false

theorem listed_of_not_union {t : SlotType} (h : t.isUnion = false) : t.listed = [t] := by
  cases t with
  | union style arms => exact absurd h (by simp [isUnion])
  | _ => rfl

mutual

/-- No union is left among the listed types. -/
theorem not_union_of_mem_listed {a : SlotType} :
    ∀ t : SlotType, a ∈ t.listed → a.isUnion = false
  | .union _ arms, h => not_union_of_mem_listedAll arms (by rwa [listed] at h)
  | .undeclared, h | .any, h | .anyObject, h | .nothing, h | .nullType, h | .bool, h | .int, h
  | .float, h | .sized _, h | .cls _, h | .generic .., h | .literal _, h | .placeholder _, h
  | .forward _, h => by
      rw [listed_of_not_union rfl, List.mem_singleton] at h
      rw [h]
      rfl

theorem not_union_of_mem_listedAll {a : SlotType} :
    ∀ ts : List SlotType, a ∈ listedAll ts → a.isUnion = false
  | [], h => absurd h (by simp [listedAll])
  | t :: ts, h => by
      rw [listedAll, List.mem_append] at h
      rcases h with h | h
      · exact not_union_of_mem_listed t h
      · exact not_union_of_mem_listedAll ts h

end

end SlotType

/-- The errors that are raised over values: those of displays, and that of an
integer beyond all doubles. -/
def IsValueError (e : Raised) : Prop := IsDisplayError e ∨ e = tooLargeError

namespace Outlines

variable (o : Outlines) (w : World)

/-- The type takes the value: something is stored for it. -/
def Accepts (v : Value) (type : SlotType) : Prop := ∃ u, o.coerce w v type = .ok u

/-- The value does not fit the type, which is all that a union needs to go on to
its next arm. -/
def Refuses (v : Value) (type : SlotType) : Prop :=
  ∃ shown label, o.coerce w v type = .error (.unfit shown label)

def Raises (v : Value) (type : SlotType) (e : Raised) : Prop :=
  o.coerce w v type = .error (.raised e)

def Displays (v : Value) : Prop := ∃ shown, o.display w v = .ok shown

/-- An arm that leaves a value to the arms behind it. -/
def PassesOver (v : Value) (arm : SlotType) : Prop :=
  arm.isNullType = true ∨ o.Refuses w v arm

/-- What an arm settles for a union, if it does not leave the value to the arms
behind it. -/
def settle? (v : Value) (arm : SlotType) : Option (Except Refusal Value) :=
  if arm.isNullType then none
  else
    match o.coerce w v arm with
    | .error (.unfit _ _) => none
    | result => some result

variable {o w} {v : Value} {arm type : SlotType}

/-! ### Refusals -/

theorem refuse_of_display {shown : String} (h : o.display w v = .ok shown) (label : String) :
    o.refuse w v label = .error (.unfit shown label) := by
  rw [refuse, h]

theorem refuse_of_display_error {e : Raised} (h : o.display w v = .error e) (label : String) :
    o.refuse w v label = .error (.raised e) := by
  rw [refuse, h]

@[simp] theorem refuse_ne_ok {v u : Value} {label : String} : o.refuse w v label ≠ .ok u := by
  rw [refuse]
  split <;> simp

theorem refuse_eq_unfit_iff {shown label label' : String} :
    o.refuse w v label = .error (.unfit shown label') ↔
      label' = label ∧ o.display w v = .ok shown := by
  rw [refuse]
  cases o.display w v with
  | ok text => simp [eq_comm, and_comm]
  | error e => simp

theorem refuse_eq_raised_iff {label : String} {e : Raised} :
    o.refuse w v label = .error (.raised e) ↔ o.display w v = .error e := by
  rw [refuse]
  cases o.display w v <;> simp

theorem accepts_or_refuses_or_raises (o : Outlines) (w : World) (v : Value)
    (type : SlotType) : o.Accepts w v type ∨ o.Refuses w v type ∨ ∃ e, o.Raises w v type e := by
  cases h : o.coerce w v type with
  | ok u => exact .inl ⟨u, h⟩
  | error e =>
      cases e with
      | unfit shown label => exact .inr (.inl ⟨shown, label, h⟩)
      | raised e => exact .inr (.inr ⟨e, h⟩)

/-! ### One type -/

inductive TakesOrRefuses (o : Outlines) (w : World) (v : Value) : Except Refusal Value → Prop
  | takes (u : Value) : TakesOrRefuses o w v (.ok u)
  | refuses (label : String) : TakesOrRefuses o w v (o.refuse w v label)

theorem TakesOrRefuses.display_error {r : Except Refusal Value} {e : Raised}
    (h : o.TakesOrRefuses w v r) (hr : r = .error (.raised e)) : o.display w v = .error e := by
  cases h with
  | takes u => exact absurd hr (by simp)
  | refuses label => exact refuse_eq_raised_iff.1 hr

theorem takesOrRefuses_coerceInstance (c : ClassName) :
    o.TakesOrRefuses w v (o.coerceInstance w v c) := by
  rw [coerceInstance]
  split <;> constructor

theorem takesOrRefuses_coerceClass (c : ClassName) :
    o.TakesOrRefuses w v (o.coerceClass w v c) := by
  unfold coerceClass
  split
  · split <;> constructor
  · exact takesOrRefuses_coerceInstance c

theorem takesOrRefuses_coerceSized (width : Width) :
    o.TakesOrRefuses w v (o.coerceSized w v width) := by
  unfold coerceSized
  split
  · split <;> constructor
  · constructor

theorem coerceFloat_takesOrRefuses_or_overflows :
    o.TakesOrRefuses w v (o.coerceFloat w v) ∨
      o.coerceFloat w v = .error (.raised tooLargeError) := by
  unfold coerceFloat
  split
  · exact .inl (.takes _)
  · split
    · exact .inl (.takes _)
    · exact .inr rfl
  · split
    · exact .inl (.takes _)
    · exact .inr rfl
  · exact .inl (.refuses _)

/-- Of all types but unions only that of doubles has more to it: a number may be
too large. -/
theorem takesOrRefuses_or_overflows (htype : type.isUnion = false) :
    o.TakesOrRefuses w v (o.coerce w v type) ∨
      type = .float ∧ o.Raises w v type tooLargeError := by
  rw [Raises]
  cases type with
  | union style arms => exact absurd htype (by simp [SlotType.isUnion])
  | undeclared | any | anyObject | nothing => exact .inl (by rw [coerce]; constructor)
  | nullType | literal _ | placeholder _ | forward _ =>
      rw [coerce]
      exact .inl (by split <;> constructor)
  | bool =>
      rw [coerce]
      exact .inl (by unfold coerceBool; split <;> constructor)
  | int =>
      rw [coerce, coerceInt]
      exact .inl (by split <;> constructor)
  | float =>
      rw [coerce]
      exact coerceFloat_takesOrRefuses_or_overflows.imp_right fun h => ⟨rfl, h⟩
  | sized width =>
      rw [coerce]
      exact .inl (takesOrRefuses_coerceSized width)
  | cls c =>
      rw [coerce]
      refine .inl ?_
      split
      · constructor
      · exact takesOrRefuses_coerceClass c
  | generic style origin arguments =>
      rw [coerce]
      refine .inl ?_
      split
      · constructor
      · exact takesOrRefuses_coerceInstance origin

theorem raises_cases_of_not_union (htype : type.isUnion = false) {e : Raised}
    (h : o.Raises w v type e) : o.display w v = .error e ∨ e = tooLargeError := by
  rcases takesOrRefuses_or_overflows (o := o) (w := w) (v := v) htype with hresult | ⟨-, hlarge⟩
  · exact .inl (hresult.display_error h)
  · cases h.symm.trans hlarge
    exact .inr rfl

/-! ### The first arm that settles something -/

theorem settle?_eq_none_iff : o.settle? w v arm = none ↔ o.PassesOver w v arm := by
  rw [settle?, PassesOver, Refuses]
  cases arm.isNullType with
  | true => simp
  | false =>
      cases o.coerce w v arm with
      | ok u => simp
      | error e => cases e <;> simp

theorem settle?_eq_some_iff {r : Except Refusal Value} :
    o.settle? w v arm = some r ↔
      arm.isNullType = false ∧ o.coerce w v arm = r ∧
        ∀ shown label, r ≠ .error (.unfit shown label) := by
  rw [settle?]
  cases arm.isNullType with
  | true => simp
  | false =>
      cases o.coerce w v arm with
      | ok u => simp +contextual [eq_comm]
      | error e =>
          cases e with
          | unfit shown label =>
              exact ⟨fun h => absurd h (by simp), fun ⟨_, h, hr⟩ => absurd h.symm (hr shown label)⟩
          | raised e => simp +contextual [eq_comm]

theorem coerceArms_eq_findSome? (label : String) (arms : List SlotType) :
    o.coerceArms w v label arms =
      (arms.findSome? (o.settle? w v)).getD (o.refuse w v label) := by
  induction arms with
  | nil => rfl
  | cons arm arms ih =>
      rw [coerceArms, List.findSome?_cons, settle?]
      split
      · exact ih
      · cases o.coerce w v arm with
        | ok u => rfl
        | error e =>
            cases e with
            | unfit _ _ => exact ih
            | raised _ => rfl

/-- A union of which no arm settles anything refuses, and only then. -/
theorem coerceArms_eq_unfit_iff {shown label label' : String} {arms : List SlotType} :
    o.coerceArms w v label arms = .error (.unfit shown label') ↔
      label' = label ∧ o.display w v = .ok shown ∧ ∀ arm ∈ arms, o.PassesOver w v arm := by
  rw [coerceArms_eq_findSome?]
  cases h : arms.findSome? (o.settle? w v) with
  | none =>
      have hall := List.findSome?_eq_none_iff.1 h
      rw [Option.getD_none, refuse_eq_unfit_iff, and_congr_right_iff]
      exact fun _ => (and_iff_left fun arm harm => settle?_eq_none_iff.1 (hall arm harm)).symm
  | some r =>
      obtain ⟨before, arm, after, rfl, harm, -⟩ := List.findSome?_eq_some_iff.1 h
      have hr := (settle?_eq_some_iff.1 harm).2.2
      refine ⟨fun hlabel => absurd hlabel (hr shown label'), fun ⟨_, _, hall⟩ => ?_⟩
      rw [settle?_eq_none_iff.2 (hall arm (by simp))] at harm
      exact absurd harm (by simp)

/-- What a union makes of a value, if it does not refuse it, is what its first
arm that does not pass the value over makes of it. -/
theorem coerceArms_eq_iff {label : String} {arms : List SlotType} {r : Except Refusal Value}
    (hr : ∀ shown label, r ≠ .error (.unfit shown label)) (hrefuse : o.refuse w v label ≠ r) :
    o.coerceArms w v label arms = r ↔
      ∃ before arm after, arms = before ++ arm :: after ∧ arm.isNullType = false ∧
        o.coerce w v arm = r ∧ ∀ a ∈ before, o.PassesOver w v a := by
  have hsome : o.coerceArms w v label arms = r ↔ arms.findSome? (o.settle? w v) = some r := by
    rw [coerceArms_eq_findSome?]
    cases arms.findSome? (o.settle? w v) with
    | none => simp [hrefuse]
    | some r' => simp
  rw [hsome, List.findSome?_eq_some_iff]
  simp only [settle?_eq_none_iff, settle?_eq_some_iff, hr, ne_eq, not_false_eq_true, implies_true,
    and_true, and_assoc]

theorem coerce_union (hv : v.isNull = false) (style : UnionStyle) (arms : List SlotType) :
    o.coerce w v (.union style arms) =
      o.coerceArms w v (SlotType.union style arms).label arms := by
  rw [coerce, hv, if_neg (by simp)]

/-- Only what has a display is ever refused. -/
theorem display_of_coerce {shown label : String}
    (h : o.coerce w v type = .error (.unfit shown label)) : o.display w v = .ok shown := by
  cases htype : type.isUnion with
  | false =>
      rcases takesOrRefuses_or_overflows (o := o) (w := w) (v := v) htype with hresult | ⟨-, hlarge⟩
      · rw [h] at hresult
        generalize hr : (.error (.unfit shown label) : Except Refusal Value) = r at hresult
        cases hresult with
        | takes u => exact absurd hr (by simp)
        | refuses label' => exact (refuse_eq_unfit_iff.1 hr.symm).2
      · exact absurd (h.symm.trans hlarge) (by simp)
  | true =>
      cases type with
      | union style arms =>
          rw [coerce] at h
          split at h
          · split at h
            · exact absurd h (by simp)
            · exact (refuse_eq_unfit_iff.1 h).2
          · exact (coerceArms_eq_unfit_iff.1 h).2.1
      | _ => exact absurd htype (by simp [SlotType.isUnion])

theorem Refuses.displays (h : o.Refuses w v type) : o.Displays w v := by
  obtain ⟨shown, label, h⟩ := h
  exact ⟨shown, display_of_coerce h⟩

/-! ### Unions in unions -/

/-- A union settles what its arms settle, and where these settle nothing a value
that has a display is passed over. -/
theorem settle?_union (hv : v.isNull = false) (style : UnionStyle) {arms : List SlotType}
    (hsettled : o.Displays w v ∨ arms.findSome? (o.settle? w v) ≠ none) :
    o.settle? w v (.union style arms) = arms.findSome? (o.settle? w v) := by
  have hnot : (SlotType.union style arms).isNullType = false := rfl
  rw [settle?, hnot, if_neg (by simp), coerce_union hv, coerceArms_eq_findSome?]
  cases h : arms.findSome? (o.settle? w v) with
  | none =>
      obtain ⟨shown, hshown⟩ := hsettled.resolve_right (by simp [h])
      rw [Option.getD_none, refuse_of_display hshown]
  | some r =>
      obtain ⟨_, arm, _, _, harm, _⟩ := List.findSome?_eq_some_iff.1 h
      have hr := (settle?_eq_some_iff.1 harm).2.2
      cases r with
      | ok u => rfl
      | error e =>
          cases e with
          | unfit shown label => exact absurd rfl (hr shown label)
          | raised _ => rfl

mutual

/-- What a type settles is settled by the types that it lists. -/
theorem findSome?_listed {w : World} {v : Value} (hv : v.isNull = false) (hd : o.Displays w v) :
    ∀ t : SlotType, t.listed.findSome? (o.settle? w v) = o.settle? w v t
  | .union style arms => by
      rw [SlotType.listed, settle?_union hv style (.inl hd), findSome?_listedAll hv hd arms]
  | .undeclared | .any | .anyObject | .nothing | .nullType | .bool | .int | .float | .sized _
  | .cls _ | .generic .. | .literal _ | .placeholder _ | .forward _ => by
      rw [SlotType.listed_of_not_union rfl, List.findSome?_singleton]

theorem findSome?_listedAll {w : World} {v : Value} (hv : v.isNull = false)
    (hd : o.Displays w v) :
    ∀ ts : List SlotType,
      (SlotType.listedAll ts).findSome? (o.settle? w v) = ts.findSome? (o.settle? w v)
  | [] => rfl
  | t :: ts => by
      rw [SlotType.listedAll, List.findSome?_append, findSome?_listed hv hd t,
        findSome?_listedAll hv hd ts, List.findSome?_cons]
      cases o.settle? w v t <;> rfl

end

mutual

/-- What a type settles, unless it is the refusal of a whole union, is settled by
the types that it lists. -/
theorem findSome?_listed_of_settle? {w : World} {v : Value} {r : Except Refusal Value}
    (hv : v.isNull = false) (hrefuse : ∀ label, o.refuse w v label ≠ r) :
    ∀ t : SlotType, o.settle? w v t = some r → t.listed.findSome? (o.settle? w v) = some r
  | .union style arms, h => by
      have hcoerce := (settle?_eq_some_iff.1 h).2.1
      rw [coerce_union hv, coerceArms_eq_findSome?] at hcoerce
      rw [SlotType.listed]
      refine findSome?_listedAll_of_settle? hv hrefuse arms ?_
      cases harms : arms.findSome? (o.settle? w v) with
      | none => exact absurd (by rwa [harms] at hcoerce) (hrefuse _)
      | some r' => rwa [harms, Option.getD_some, ← Option.some_inj] at hcoerce
  | .undeclared, h | .any, h | .anyObject, h | .nothing, h | .nullType, h | .bool, h | .int, h
  | .float, h | .sized _, h | .cls _, h | .generic .., h | .literal _, h | .placeholder _, h
  | .forward _, h => by
      rwa [SlotType.listed_of_not_union rfl, List.findSome?_singleton]

theorem findSome?_listedAll_of_settle? {w : World} {v : Value} {r : Except Refusal Value}
    (hv : v.isNull = false) (hrefuse : ∀ label, o.refuse w v label ≠ r) :
    ∀ ts : List SlotType, ts.findSome? (o.settle? w v) = some r →
      (SlotType.listedAll ts).findSome? (o.settle? w v) = some r
  | [], h => absurd h (by simp)
  | t :: ts, h => by
      rw [List.findSome?_cons] at h
      rw [SlotType.listedAll, List.findSome?_append]
      cases ht : o.settle? w v t with
      | some r' =>
          rw [ht] at h
          rw [findSome?_listed_of_settle? hv hrefuse t (ht.trans h)]
          rfl
      | none =>
          rw [ht] at h
          have hnone : t.listed.findSome? (o.settle? w v) = none := by
            rcases settle?_eq_none_iff.1 ht with hnull | hrefuses
            · cases t with
              | nullType => rfl
              | _ => exact absurd hnull (by simp [SlotType.isNullType])
            · rw [findSome?_listed hv hrefuses.displays, ht]
          rw [hnone, findSome?_listedAll_of_settle? hv hrefuse ts h]
          rfl

end

mutual

/-- The error that is raised over a value is that of its display, or else that of
an integer beyond all doubles. -/
theorem raises_cases {w : World} {v : Value} {e : Raised} :
    ∀ t : SlotType, o.Raises w v t e → o.display w v = .error e ∨ e = tooLargeError
  | .union style arms, h => by
      rw [Raises, coerce] at h
      split at h
      · split at h
        · exact absurd h (by simp)
        · exact .inl (refuse_eq_raised_iff.1 h)
      · exact raises_cases_of_coerceArms arms h
  | .undeclared, h | .any, h | .anyObject, h | .nothing, h | .nullType, h | .bool, h | .int, h
  | .float, h | .sized _, h | .cls _, h | .generic .., h | .literal _, h | .placeholder _, h
  | .forward _, h => raises_cases_of_not_union rfl h

theorem raises_cases_of_coerceArms {w : World} {v : Value} {e : Raised} {label : String} :
    ∀ arms : List SlotType, o.coerceArms w v label arms = .error (.raised e) →
      o.display w v = .error e ∨ e = tooLargeError
  | [], h => .inl (refuse_eq_raised_iff.1 (by rwa [coerceArms] at h))
  | arm :: arms, h => by
      rw [coerceArms] at h
      split at h
      · exact raises_cases_of_coerceArms arms h
      · cases harm : o.coerce w v arm with
        | ok u => simp [harm] at h
        | error r =>
            cases r with
            | raised e' =>
                rw [harm] at h
                cases h
                exact raises_cases arm harm
            | unfit _ _ =>
                rw [harm] at h
                exact raises_cases_of_coerceArms arms h

end

theorem isValueError_of_raises {e : Raised} (h : o.Raises w v type e) : IsValueError e :=
  (raises_cases type h).imp_left isDisplayError_of_display

theorem not_isDisplayError_tooLargeError : ¬IsDisplayError tooLargeError := by
  rintro (h | h) <;> exact absurd (congrArg (·.cls) h) (by decide)

theorem refuse_ne_tooLarge (label : String) :
    o.refuse w v label ≠ .error (.raised tooLargeError) := by
  intro h
  exact not_isDisplayError_tooLargeError (isDisplayError_of_display (refuse_eq_raised_iff.1 h))

/-- What a type makes of a value, if that is no refusal, is what the first of the
types it lists that does not pass the value over makes of it. -/
theorem exists_listed_of_coerce (hv : v.isNull = false) {r : Except Refusal Value}
    (hr : ∀ shown label, r ≠ .error (.unfit shown label))
    (hrefuse : ∀ label, o.refuse w v label ≠ r) (h : o.coerce w v type = r) :
    ∃ before a after, type.listed = before ++ a :: after ∧ a.isNullType = false ∧
      o.coerce w v a = r ∧ ∀ b ∈ before, o.PassesOver w v b := by
  have hnull : type.isNullType = false := by
    rw [Bool.eq_false_iff]
    intro hnull
    cases type with
    | nullType =>
        rw [coerce, hv, if_neg (by simp)] at h
        exact hrefuse _ h
    | _ => exact absurd hnull (by simp [SlotType.isNullType])
  have hfirst :=
    findSome?_listed_of_settle? hv hrefuse type (settle?_eq_some_iff.2 ⟨hnull, h, hr⟩)
  obtain ⟨before, a, after, hlisted, ha, hbefore⟩ := List.findSome?_eq_some_iff.1 hfirst
  obtain ⟨hnotNull, hcoerce, -⟩ := settle?_eq_some_iff.1 ha
  exact ⟨before, a, after, hlisted, hnotNull, hcoerce,
    fun b hb => settle?_eq_none_iff.1 (hbefore b hb)⟩

/-- And what that makes of a value that has a display, the type makes of it. -/
theorem coerce_of_listed (hv : v.isNull = false) (hd : o.Displays w v)
    {r : Except Refusal Value} (hr : ∀ shown label, r ≠ .error (.unfit shown label))
    {before after : List SlotType} {a : SlotType} (hlisted : type.listed = before ++ a :: after)
    (hnull : a.isNullType = false) (ha : o.coerce w v a = r)
    (hbefore : ∀ b ∈ before, o.PassesOver w v b) : o.coerce w v type = r := by
  have hfirst : type.listed.findSome? (o.settle? w v) = some r := by
    rw [hlisted, List.findSome?_append, List.findSome?_cons,
      settle?_eq_some_iff.2 ⟨hnull, ha, hr⟩,
      List.findSome?_eq_none_iff.2 fun b hb => settle?_eq_none_iff.2 (hbefore b hb)]
    rfl
  rw [findSome?_listed hv hd] at hfirst
  exact (settle?_eq_some_iff.1 hfirst).2.1

end Outlines

end ObjectConsole
