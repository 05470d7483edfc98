import ObjectConsole.Proofs.Coercion.Arms
import ObjectConsole.Proofs.Decimal.Exact

/-!
What a slot stores for a value. It is the value itself unless the type asks for
a number of another kind or for a member of an enumeration, and there are four
such conversions. None of them makes a number of a truth value or a truth value
of a number, and an integer always equals the number that it is made from. A
member of an enumeration whose members are strings or numbers counts as the
string or number that it is.
-/

namespace ObjectConsole

namespace Outlines

def Stores (o : Outlines) (w : World) (v : Value) (type : SlotType) (u : Value) : Prop :=
  match type with
  | .undeclared | .any | .anyObject | .nothing | .forward _ | .literal _ | .placeholder _ => u = v
  | .nullType => False
  | .bool => u = v ∧ ∃ b, v = .bool b
  | .sized width =>
    ∃ n, u = .sized width n none ∧ width.least ≤ n ∧ n ≤ width.greatest ∧
      (o.underlying v).rational? = some (n : ℚ)
  | .int => ∃ n, u = .int n ∧ (o.underlying v).rational? = some (n : ℚ)
  | .float =>
    ∃ x, u = .float x ∧ (o.underlying v = .float x ∨
      ∃ n, (o.underlying v).asInt? = some n ∧ Decimal.ofInt? n = some x)
  | .cls c =>
    u = v ∧ o.isInstance w v c = true ∨
      (o.find c).isEnumeration = true ∧
        ∃ s, o.underlying v = .text s ∧ ((o.find c).choices.lookup s).isSome ∧ u = .choice c s
  | .generic _ origin _ => u = v ∧ o.isInstance w v origin = true
  | .union _ arms =>
    ∃ before arm after, arms = before ++ arm :: after ∧ arm.isNullType = false ∧
      o.coerce w v arm = .ok u ∧ ∀ a ∈ before, o.PassesOver w v a

/-- The conversions: what a type makes of a value that it does not store as it
is. -/
inductive Converts (o : Outlines) : Value → SlotType → Value → Prop
  | sized {v : Value} {n : Int} {width : Width} (hv : (o.underlying v).integral? = some n)
      (hfits : width.fits n = true) : Converts o v (.sized width) (.sized width n none)
  | int {v : Value} {n : Int} (hv : (o.underlying v).integral? = some n) :
      Converts o v .int (.int n)
  | float {v : Value} {n : Int} {x : Float} (hv : (o.underlying v).asInt? = some n)
      (hx : Decimal.ofInt? n = some x) : Converts o v .float (.float x)
  | fraction {v : Value} {x : Float} (hv : o.underlying v = .float x) :
      Converts o v .float (.float x)
  | choice {v : Value} {c : ClassName} {s : String} (henum : (o.find c).isEnumeration = true)
      (hv : o.underlying v = .text s) (hs : ((o.find c).choices.lookup s).isSome) :
      Converts o v (.cls c) (.choice c s)

variable {o : Outlines} {w : World} {v u : Value} {type : SlotType}

/-! ### One type -/

theorem isInstance_of_coerceInstance {c : ClassName} (h : o.coerceInstance w v c = .ok u) :
    u = v ∧ o.isInstance w v c = true := by
  rw [coerceInstance] at h
  split at h
  · next hc => exact ⟨(Except.ok.inj h).symm, hc⟩
  · exact absurd h refuse_ne_ok

theorem integral?_of_asInt? {n : Int} (h : v.asInt? = some n) : v.integral? = some n := by
  cases v with
  | int m => exact h
  | sized width m own => exact h
  | _ => exact absurd h (by simp [Value.asInt?])

@[simp] theorem underlying_of_not_choice (h : ∀ c name, v ≠ .choice c name) :
    o.underlying v = v := by
  cases v with
  | choice c name => exact absurd rfl (h c name)
  | _ => rfl

theorem underlying_of_asInt? {n : Int} (h : v.asInt? = some n) : o.underlying v = v :=
  underlying_of_not_choice (by rintro c name rfl; exact absurd h (by simp [Value.asInt?]))

theorem stores_of_coerceSized {width : Width} (h : o.coerceSized w v width = .ok u) :
    o.Stores w v (.sized width) u := by
  rw [coerceSized] at h
  split at h
  · next n hn =>
      split at h
      · next hfits =>
          have hrange : width.least ≤ n ∧ n ≤ width.greatest := by
            simpa [Width.fits] using hfits
          exact ⟨n, (Except.ok.inj h).symm, hrange.1, hrange.2, Value.integral?_eq_some_iff.1 hn⟩
      · exact absurd h refuse_ne_ok
  · exact absurd h refuse_ne_ok

theorem stores_of_coerceInt (h : o.coerceInt w v = .ok u) : o.Stores w v .int u := by
  rw [coerceInt] at h
  split at h
  · next n hn => exact ⟨n, (Except.ok.inj h).symm, Value.integral?_eq_some_iff.1 hn⟩
  · exact absurd h refuse_ne_ok

/-- An integer becomes the double that is nearest to it. -/
theorem coerceFloat_of_asInt? {n : Int} (h : (o.underlying v).asInt? = some n) :
    o.coerceFloat w v =
      (Decimal.ofInt? n).elim (.error (.raised tooLargeError)) fun x => .ok (.float x) := by
  cases hu : o.underlying v with
  | int m =>
      obtain rfl : m = n := Option.some.inj (by rwa [hu] at h)
      rw [coerceFloat, hu]
      cases hx : Decimal.ofInt? m <;> simp [hx]
  | sized width m own =>
      obtain rfl : m = n := Option.some.inj (by rwa [hu] at h)
      rw [coerceFloat, hu]
      cases hx : Decimal.ofInt? m <;> simp [hx]
  | _ => exact absurd (hu ▸ h) (by simp [Value.asInt?])

/-- What is no number is refused by a slot for doubles. -/
theorem coerceFloat_of_not_number (hint : (o.underlying v).asInt? = none)
    (hfloat : ∀ x, o.underlying v ≠ .float x) : o.coerceFloat w v = o.refuse w v "float" := by
  unfold coerceFloat
  split
  · next x hx => exact absurd hx (hfloat x)
  · next n hn => exact absurd hint (by simp [hn, Value.asInt?])
  · next n _ hn => exact absurd hint (by simp [hn, Value.asInt?])
  · rfl

theorem coerceFloat_of_float {x : Float} (h : o.underlying v = .float x) :
    o.coerceFloat w v = .ok (.float x) := by
  rw [coerceFloat, h]

theorem stores_of_coerceFloat (h : o.coerceFloat w v = .ok u) : o.Stores w v .float u := by
  cases hn : (o.underlying v).asInt? with
  | some n =>
      rw [coerceFloat_of_asInt? hn] at h
      cases hx : Decimal.ofInt? n with
      | none => exact absurd h (by simp [hx])
      | some x =>
          rw [hx] at h
          exact ⟨x, (Except.ok.inj h).symm, .inr ⟨n, hn, hx⟩⟩
  | none =>
      by_cases hfloat : ∃ x, o.underlying v = .float x
      · obtain ⟨x, hx⟩ := hfloat
        rw [coerceFloat_of_float hx] at h
        exact ⟨x, (Except.ok.inj h).symm, .inl hx⟩
      · rw [coerceFloat_of_not_number hn fun x hx => hfloat ⟨x, hx⟩] at h
        exact absurd h refuse_ne_ok

theorem stores_of_coerceBool (h : o.coerceBool w v = .ok u) : o.Stores w v .bool u := by
  cases v with
  | bool b => exact ⟨(Except.ok.inj h).symm, b, rfl⟩
  | _ => exact absurd h (by simp [coerceBool])

theorem stores_of_coerceClass {c : ClassName} (h : o.coerceClass w v c = .ok u) :
    o.Stores w v (.cls c) u := by
  unfold coerceClass at h
  split at h
  · next s henum hs =>
      split at h
      · next hsome => exact .inr ⟨henum, s, hs, hsome, (Except.ok.inj h).symm⟩
      · exact absurd h refuse_ne_ok
  · exact .inl (isInstance_of_coerceInstance h)

theorem stores_of_coerce (hv : v.isNull = false) (h : o.coerce w v type = .ok u) :
    o.Stores w v type u := by
  cases type with
  | nullType => simp [coerce, hv] at h
  | forward text => simpa [coerce, hv, Stores, eq_comm] using h
  | literal text => simpa [coerce, hv, Stores, eq_comm] using h
  | placeholder name => simpa [coerce, hv, Stores, eq_comm] using h
  | bool => exact stores_of_coerceBool (by rwa [coerce] at h)
  | int => exact stores_of_coerceInt (by rwa [coerce] at h)
  | float => exact stores_of_coerceFloat (by rwa [coerce] at h)
  | sized width => exact stores_of_coerceSized (by rwa [coerce] at h)
  | cls c =>
      rw [coerce, hv, if_neg (by simp)] at h
      exact stores_of_coerceClass h
  | generic style origin arguments =>
      rw [coerce, hv, if_neg (by simp)] at h
      exact isInstance_of_coerceInstance h
  | union style arms =>
      rw [coerce_union hv] at h
      exact (coerceArms_eq_iff (by simp) refuse_ne_ok).1 h
  | _ =>
      rw [coerce] at h
      exact (Except.ok.inj h).symm

/-- A type that is no union stores the value itself, or converts it. -/
theorem eq_or_converts (hv : v.isNull = false) (htype : type.isUnion = false)
    (h : o.coerce w v type = .ok u) : u = v ∨ o.Converts v type u := by
  have hstores := stores_of_coerce hv h
  cases type with
  | nullType => exact hstores.elim
  | bool => exact .inl hstores.1
  | int =>
      obtain ⟨n, rfl, hn⟩ := hstores
      exact .inr (.int (Value.integral?_eq_some_iff.2 hn))
  | float =>
      obtain ⟨x, rfl, hx | ⟨n, hn, hx⟩⟩ := hstores
      · exact .inr (.fraction hx)
      · exact .inr (.float hn hx)
  | sized width =>
      obtain ⟨n, rfl, hleast, hgreatest, hn⟩ := hstores
      have hfits : width.fits n = true := by simp [Width.fits, hleast, hgreatest]
      exact .inr (.sized (Value.integral?_eq_some_iff.2 hn) hfits)
  | cls c =>
      obtain ⟨hu, -⟩ | ⟨henum, s, hv, hs, rfl⟩ := hstores
      · exact .inl hu
      · exact .inr (.choice henum hv hs)
  | generic style origin arguments => exact .inl hstores.1
  | union style arms => exact absurd htype (by simp [SlotType.isUnion])
  | _ => exact .inl hstores

namespace Converts

theorem not_null (h : o.Converts v type u) : u.isNull = false := by
  cases h <;> rfl

theorem not_bool (h : o.Converts v type u) (b : Bool) : v ≠ .bool b ∧ u ≠ .bool b := by
  cases h with
  | sized hv _ => exact ⟨by rintro rfl; simp [underlying, Value.integral?] at hv, by simp⟩
  | int hv => exact ⟨by rintro rfl; simp [underlying, Value.integral?] at hv, by simp⟩
  | float hv _ => exact ⟨by rintro rfl; simp [underlying, Value.asInt?] at hv, by simp⟩
  | fraction hv => exact ⟨by rintro rfl; simp [underlying] at hv, by simp⟩
  | choice _ hv _ => exact ⟨by rintro rfl; simp [underlying] at hv, by simp⟩

/-- An integer equals the number that it is made from. -/
theorem exact (h : o.Converts v type u) {n : Int} (hn : u.asInt? = some n) :
    (o.underlying v).rational? = some (n : ℚ) := by
  cases h with
  | sized hv _ =>
      obtain rfl := Option.some.inj hn
      exact Value.integral?_eq_some_iff.1 hv
  | int hv =>
      obtain rfl := Option.some.inj hn
      exact Value.integral?_eq_some_iff.1 hv
  | float _ _ | fraction _ | choice _ _ _ => exact absurd hn (by simp [Value.asInt?])

end Converts

/-! ### Any type -/

/-- A type takes `null` only as it is, and only if it is nullable. -/
theorem null_of_coerce (hv : v.isNull = true) (h : o.coerce w v type = .ok u) :
    u = v ∧ type.isNullable = true := by
  obtain rfl := Value.isNull_iff.1 hv
  cases type with
  | bool => exact absurd h (by simp [coerce, coerceBool])
  | int => exact absurd h (by simp [coerce, coerceInt, Value.integral?])
  | float => exact absurd h (by simp [coerce, coerceFloat])
  | sized width => exact absurd h (by simp [coerce, coerceSized, Value.integral?])
  | cls c => exact absurd h (by simp [coerce, Value.isNull])
  | generic style origin arguments => exact absurd h (by simp [coerce, Value.isNull])
  | literal text => exact absurd h (by simp [coerce, Value.isNull])
  | placeholder name => exact absurd h (by simp [coerce, Value.isNull])
  | forward text =>
      rw [coerce, hv, Bool.true_and] at h
      split at h
      · exact absurd h refuse_ne_ok
      · next hnullable => exact ⟨(Except.ok.inj h).symm, by simpa using hnullable⟩
  | union style arms =>
      rw [coerce, if_pos hv] at h
      split at h
      · next hnullable => exact ⟨(Except.ok.inj h).symm, hnullable⟩
      · exact absurd h refuse_ne_ok
  | nullType =>
      rw [coerce, if_pos hv] at h
      exact ⟨(Except.ok.inj h).symm, rfl⟩
  | _ =>
      rw [coerce] at h
      exact ⟨(Except.ok.inj h).symm, rfl⟩

/-- What a type stores for a value is the value itself, or one of the types that
it lists has made it. -/
theorem eq_or_made (h : o.coerce w v type = .ok u) :
    u = v ∨ ∃ before a after, type.listed = before ++ a :: after ∧ o.Converts v a u ∧
      ∀ b ∈ before, o.PassesOver w v b := by
  cases hv : v.isNull with
  | true => exact .inl (null_of_coerce hv h).1
  | false =>
      obtain ⟨before, a, after, hlisted, -, hcoerce, hbefore⟩ :=
        exists_listed_of_coerce hv (by simp) (fun _ => refuse_ne_ok) h
      have ha : a.isUnion = false :=
        SlotType.not_union_of_mem_listed type (by rw [hlisted]; simp)
      exact (eq_or_converts hv ha hcoerce).imp_right fun hconverts =>
        ⟨before, a, after, hlisted, hconverts, hbefore⟩

end Outlines

end ObjectConsole
