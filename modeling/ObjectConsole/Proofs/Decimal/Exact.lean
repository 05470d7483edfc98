import ObjectConsole.Coercion
import Mathlib.Algebra.Order.Field.Power
import Mathlib.Algebra.Order.Field.Rat

/-!
The exact value of a number. A finite double is a rational number, so it can be
said without rounding which numbers are equal: an integer and a double are if
the double stands for the integer, and no infinity and no NaN equals any number.
-/

namespace ObjectConsole

namespace Decimal

def rational? (x : Float) : Option ℚ :=
  match decode x with
  | .finite negative mantissa exponent =>
    some ((if negative then -(mantissa : ℚ) else mantissa) * 2 ^ exponent)
  | _ => none

theorem scaleBy_pos (m : Nat) (e : Int) : 0 < (scaleBy m 1 e).2 := by
  rw [scaleBy]
  split
  · exact Nat.one_pos
  · simp

/-- Scaling by a power of two is exact. -/
theorem scaleBy_value (m : Nat) (e : Int) :
    ((scaleBy m 1 e).1 : ℚ) / (scaleBy m 1 e).2 = m * 2 ^ (-e) := by
  rw [scaleBy]
  split
  · next h =>
      obtain ⟨k, hk⟩ := Int.eq_ofNat_of_zero_le (show 0 ≤ -e by omega)
      simp [hk]
  · next h =>
      obtain ⟨k, rfl⟩ := Int.eq_ofNat_of_zero_le (show 0 ≤ e by omega)
      simp [zpow_neg, div_eq_mul_inv]

/-- A quotient is an integer exactly if it leaves no rest. -/
theorem natCast_div_eq_intCast_iff {n d : Nat} (hd : 0 < d) (k : Int) :
    (n : ℚ) / d = k ↔ n % d = 0 ∧ ((n / d : Nat) : Int) = k := by
  have hd' : (d : ℚ) ≠ 0 := Nat.cast_ne_zero.2 hd.ne'
  constructor
  · intro h
    have hint : (n : Int) = k * d := by
      have hrat : (n : ℚ) = k * d := (div_eq_iff hd').1 h
      exact_mod_cast hrat
    have hmod : n % d = 0 := by
      have : (n : Int) % d = 0 := by rw [hint, Int.mul_emod_left]
      exact_mod_cast this
    refine ⟨hmod, ?_⟩
    rw [Int.natCast_div, hint, Int.mul_ediv_cancel _ (by exact_mod_cast hd.ne')]
  · rintro ⟨hmod, rfl⟩
    rw [div_eq_iff hd']
    exact_mod_cast (Nat.div_mul_cancel (Nat.dvd_of_mod_eq_zero hmod)).symm

/-- The integer that a double equals is its exact value. -/
theorem toInt?_eq_some_iff {x : Float} {n : Int} :
    toInt? x = some n ↔ rational? x = some (n : ℚ) := by
  rw [toInt?, rational?]
  cases decode x with
  | nan => simp
  | infinite negative => simp
  | finite negative m e =>
      have hvalue := scaleBy_value m (-e)
      rw [neg_neg] at hvalue
      have hquotient := natCast_div_eq_intCast_iff (scaleBy_pos m (-e)) (n := (scaleBy m 1 (-e)).1)
      rw [hvalue] at hquotient
      cases negative with
      | false =>
          simp only [Bool.false_eq_true, if_false, Option.some_inj, hquotient]
          split <;> simp_all
      | true =>
          have hneg : -(m : ℚ) * 2 ^ e = n ↔ (m : ℚ) * 2 ^ e = ((-n : Int) : ℚ) := by
            rw [Int.cast_neg, neg_mul, neg_eq_iff_eq_neg]
          simp only [if_true, Option.some_inj, hneg, hquotient]
          split
          · next hmod => simp [hmod, neg_eq_iff_eq_neg]
          · next hmod => simp [hmod]

end Decimal

namespace Value

def rational? : Value → Option ℚ
  | int n | sized _ n _ => some n
  | float x => Decimal.rational? x
  | _ => none

/-- The integer that a value equals is its exact value. -/
theorem integral?_eq_some_iff {v : Value} {n : Int} :
    v.integral? = some n ↔ v.rational? = some (n : ℚ) := by
  cases v with
  | float x => exact Decimal.toInt?_eq_some_iff
  | _ => simp [integral?, rational?]

end Value

end ObjectConsole
