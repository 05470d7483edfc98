import ObjectConsole.Proofs.Literal.Numeral
import ObjectConsole.Literal.Structured
import Mathlib.Algebra.GroupWithZero.Nat

/-!
Numerals in front of a text. The reader takes a numeral whole, as long as the
character behind it cannot go on with one; all that it takes has digits, also in
its power of ten. An integer as it is printed, in decimal with a minus sign in
front of negative ones, is such a numeral.
-/

namespace ObjectConsole.Literal

/-! ### Where a numeral ends -/

def EndsNumeral (rest : List Char) : Prop := ∀ c ∈ rest.head?, isNumeralChar c = false

theorem endsNumeral_cons {c : Char} (hc : isNumeralChar c = false) (rest : List Char) :
    EndsNumeral (c :: rest) := by
  intro d hd
  rw [← Option.mem_some.1 hd]
  exact hc

theorem EndsNumeral.not_digit {rest : List Char} (h : EndsNumeral rest) {c : Char}
    (hc : c ∈ rest.head?) : isDigit c = false := by
  rw [Bool.eq_false_iff]
  intro hdigit
  exact absurd (isNumeralChar_of_isDigit hdigit) (by simp [h c hc])

theorem takePower_of_endsNumeral {rest : List Char} (h : EndsNumeral rest) :
    takePower rest = (none, rest) := by
  cases rest with
  | nil => rfl
  | cons c rest =>
      have hc : isNumeralChar c = false := h c rfl
      simp only [isNumeralChar, Bool.or_eq_false_iff] at hc
      simp [takePower, hc]

/-! ### What is taken -/

structure Numeral.Complete (n : Numeral) : Prop extends n.Lawful where
  power_digits : ∀ p ∈ n.power, p.digits ≠ []

theorem takePower_digits {s rest : List Char} {p : Power} (h : takePower s = (some p, rest)) :
    p.digits ≠ [] := by
  cases s with
  | nil => exact absurd h (by simp [takePower])
  | cons letter tail =>
      simp only [takePower] at h
      split at h
      · split at h
        · exact absurd h (by simp)
        · next hdigits =>
            obtain ⟨rfl, -⟩ : _ ∧ _ := by simpa using h
            simpa using hdigits
      · exact absurd h (by simp)

theorem Numeral.exists_takePower {s rest : List Char} {n : Numeral}
    (h : Numeral.take? s = some (n, rest)) : ∃ t, takePower t = (n.power, rest) := by
  simp only [Numeral.take?] at h
  split at h
  · next tail _ =>
      split at h
      · exact absurd h (by simp)
      · obtain ⟨rfl, rfl⟩ := Prod.mk.inj (Option.some.inj h)
        exact ⟨(takeDigits tail).2, rfl⟩
  · split at h
    · exact absurd h (by simp)
    · obtain ⟨rfl, rfl⟩ := Prod.mk.inj (Option.some.inj h)
      exact ⟨(takeDigits (takeSign s).2).2, rfl⟩

theorem Numeral.complete_of_take? {s rest : List Char} {n : Numeral}
    (h : Numeral.take? s = some (n, rest)) : n.Complete := by
  refine ⟨(Numeral.take?_spec h).2, fun p hp => ?_⟩
  obtain ⟨t, ht⟩ := Numeral.exists_takePower h
  rw [Option.mem_def.1 hp] at ht
  exact takePower_digits ht

/-! ### Taking a numeral -/

theorem takeSign_append_of {sign : Option Char} (hsign : IsSign sign) {s : List Char}
    (hs : ∀ c ∈ s.head?, c ≠ '+' ∧ c ≠ '-') : takeSign (sign.toList ++ s) = (sign, s) := by
  cases sign with
  | none =>
      rw [Option.toList_none, List.nil_append]
      unfold takeSign
      split
      · exact absurd rfl (hs '+' rfl).1
      · exact absurd rfl (hs '-' rfl).2
      · rfl
  | some c => rcases hsign c rfl with rfl | rfl <;> rfl

theorem not_sign_of_isDigit {c : Char} (h : isDigit c = true) : c ≠ '+' ∧ c ≠ '-' := by
  constructor <;> (rintro rfl; exact absurd h (by decide))

theorem head_digits {s : List Char} (hs : Digits s) (hne : s ≠ []) (t : List Char) :
    ∀ c ∈ (s ++ t).head?, isDigit c = true := by
  obtain ⟨d, s, rfl⟩ := List.exists_cons_of_ne_nil hne
  intro c hc
  rw [List.cons_append, List.head?_cons, Option.mem_some] at hc
  exact hs c (by simp [hc])

/-- A power of ten is taken in front of what is no numeral any more. -/
theorem takePower_powerText {p : Option Power} (hp : ∀ q ∈ p, q.Lawful)
    (hdigits : ∀ q ∈ p, q.digits ≠ []) {rest : List Char} (hrest : EndsNumeral rest) :
    takePower (powerText p ++ rest) = (p, rest) := by
  cases p with
  | none => exact takePower_of_endsNumeral hrest
  | some p =>
      have hlawful := hp p rfl
      have hne := hdigits p rfl
      have hletter : (p.letter == 'e' || p.letter == 'E') = true := by simpa using hlawful.letter
      have hsign : takeSign (p.sign.toList ++ (p.digits ++ rest)) = (p.sign, p.digits ++ rest) :=
        takeSign_append_of hlawful.sign fun c hc =>
          not_sign_of_isDigit (head_digits hlawful.digits hne rest c hc)
      have htake : takeDigits (p.digits ++ rest) = (p.digits, rest) :=
        takeDigits_of_digits hlawful.digits fun c hc => hrest.not_digit hc
      simp [powerText, Power.text, takePower, hletter, hsign, htake, hne]

theorem head_powerText {p : Option Power} (hp : ∀ q ∈ p, q.Lawful) {rest : List Char}
    (hrest : EndsNumeral rest) :
    ∀ c ∈ (powerText p ++ rest).head?, isDigit c = false ∧ c ≠ '.' := by
  intro c hc
  cases p with
  | none =>
      have hnot : isNumeralChar c = false := hrest c hc
      exact ⟨hrest.not_digit hc, by rintro rfl; exact absurd hnot (by decide)⟩
  | some p =>
      obtain rfl : p.letter = c := by simpa [powerText, Power.text] using hc
      rcases (hp p rfl).letter with h | h <;> rw [h] <;> decide

/-- A numeral is taken in front of what is none any more. -/
theorem Numeral.take?_text {n : Numeral} (hn : n.Complete) {rest : List Char}
    (hrest : EndsNumeral rest) : Numeral.take? (n.text ++ rest) = some (n, rest) := by
  obtain ⟨⟨hsign, hwhole, hfraction, hpower, hne⟩, hdigits⟩ := hn
  obtain ⟨sign, whole, fraction, power⟩ := n
  simp only at hsign hwhole hfraction hpower hne hdigits
  have htake := takePower_powerText hpower hdigits hrest
  have hhead := head_powerText hpower hrest
  generalize hafter : powerText power ++ rest = after at htake hhead
  cases fraction with
  | none =>
      have hne : whole ≠ [] := by simpa using hne
      have hempty : whole.isEmpty = false := by simpa using hne
      have htext : Numeral.text ⟨sign, whole, none, power⟩ ++ rest =
          sign.toList ++ (whole ++ after) := by simp [Numeral.text, fractionText, ← hafter]
      rw [htext, Numeral.take?, takeSign_append_of hsign fun c hc =>
        not_sign_of_isDigit (head_digits hwhole hne after c hc)]
      simp only [takeDigits_of_digits hwhole fun c hc => (hhead c hc).1]
      split
      · exact absurd rfl (hhead '.' rfl).2
      · rw [hempty, htake]
        rfl
  | some f =>
      have htext : Numeral.text ⟨sign, whole, some f, power⟩ ++ rest =
          sign.toList ++ (whole ++ '.' :: (f ++ after)) := by
        simp [Numeral.text, fractionText, ← hafter]
      have hpoint : ∀ c ∈ (whole ++ '.' :: (f ++ after)).head?, c ≠ '+' ∧ c ≠ '-' := by
        intro c hc
        by_cases hwhole' : whole = []
        · obtain rfl : '.' = c := by simpa [hwhole'] using hc
          decide
        · exact not_sign_of_isDigit (head_digits hwhole hwhole' _ c hc)
      have hempty : (whole.isEmpty && f.isEmpty) = false := by
        rw [Bool.eq_false_iff]
        simpa [or_iff_not_imp_left] using hne
      rw [htext, Numeral.take?, takeSign_append_of hsign hpoint]
      simp only [takeDigits_of_digits hwhole (t := '.' :: (f ++ after)) (by simp; decide),
        takeDigits_of_digits (hfraction f rfl) fun c hc => (hhead c hc).1, hempty, htake]
      rfl

/-! ### Printed integers -/

def decimalSign (n : Int) : Option Char := if n < 0 then some '-' else none

def decimalDigits (n : Int) : List Char := Nat.toDigits 10 n.natAbs

theorem toList_toString (n : Int) :
    (toString n).toList = (decimalSign n).toList ++ decimalDigits n := by
  cases n with
  | ofNat m =>
      have hsign : decimalSign (.ofNat m) = none := if_neg (by simp)
      rw [hsign]
      exact Nat.toList_repr
  | negSucc m =>
      have hsign : decimalSign (.negSucc m) = some '-' := if_pos (Int.negSucc_lt_zero m)
      rw [hsign]
      change ("-" ++ Nat.repr (m + 1)).toList = _
      rw [String.toList_append, Nat.toList_repr]
      rfl

theorem isSign_decimalSign (n : Int) : IsSign (decimalSign n) := by
  intro c hc
  rw [decimalSign] at hc
  split at hc
  · exact .inr (Option.mem_some.1 hc).symm
  · exact nomatch hc

theorem digits_decimalDigits (n : Int) : Digits (decimalDigits n) := by
  intro c hc
  have h := Nat.isDigit_of_mem_toDigits (by decide) (by decide) hc
  rw [isDigit_iff]
  simpa [Char.isDigit, UInt32.le_iff_toNat_le] using h

theorem decimalDigits_ne_nil (n : Int) : decimalDigits n ≠ [] := Nat.toDigits_ne_nil

theorem digitsValue_decimalDigits (n : Int) : digitsValue (decimalDigits n) = n.natAbs :=
  Nat.ofDigitChars_toDigits (by decide) (by decide)

theorem length_decimalDigits_le {n : Int} {k : Nat} (hk : 0 < k) :
    (decimalDigits n).length ≤ k ↔ n.natAbs < 10 ^ k :=
  Nat.length_toDigits_le_iff (by decide) hk

theorem toInt_decimal (n : Int) :
    Numeral.toInt ⟨decimalSign n, decimalDigits n, none, none⟩ = n := by
  rw [Numeral.toInt, Numeral.negative]
  simp only [digitsValue_decimalDigits]
  by_cases hn : n < 0
  · rw [decimalSign, if_pos hn, if_pos (by decide)]
    omega
  · rw [decimalSign, if_neg hn, if_neg (by decide)]
    omega

end ObjectConsole.Literal
