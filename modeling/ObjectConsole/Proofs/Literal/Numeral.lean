import ObjectConsole.Literal.Numeral
import ObjectConsole.Text.Blank
import Mathlib.Data.List.TakeDrop
import Mathlib.Data.List.TakeWhile

/-!
Numerals as they are spelled. What the reader takes from the head of a text
is the spelling of the numeral that it gives, so a text that is one numeral
consists of digits, signs, a point and the letter of a power. A numeral whose
spelling starts with the point is still one without that point.
-/

namespace ObjectConsole.Literal

def Digits (s : List Char) : Prop := ∀ c ∈ s, isDigit c = true

def IsSign (sign : Option Char) : Prop := ∀ c ∈ sign, c = '+' ∨ c = '-'

def Power.text (p : Power) : List Char := p.letter :: (p.sign.toList ++ p.digits)

def powerText (p : Option Power) : List Char := p.elim [] Power.text

def fractionText (f : Option (List Char)) : List Char := f.elim [] fun digits => '.' :: digits

def Numeral.text (n : Numeral) : List Char :=
  n.sign.toList ++ (n.whole ++ (fractionText n.fraction ++ powerText n.power))

structure Power.Lawful (p : Power) : Prop where
  letter : p.letter = 'e' ∨ p.letter = 'E'
  sign : IsSign p.sign
  digits : Digits p.digits

structure Numeral.Lawful (n : Numeral) : Prop where
  sign : IsSign n.sign
  whole : Digits n.whole
  fraction : ∀ f ∈ n.fraction, Digits f
  power : ∀ p ∈ n.power, p.Lawful
  nonempty : n.whole ≠ [] ∨ ∃ f ∈ n.fraction, f ≠ []

/-! ### What the reader takes -/

theorem takeSign_append (s : List Char) : (takeSign s).1.toList ++ (takeSign s).2 = s := by
  unfold takeSign
  split <;> rfl

theorem isSign_takeSign (s : List Char) : IsSign (takeSign s).1 := by
  intro c hc
  unfold takeSign at hc
  split at hc
  · exact .inl (Option.mem_some.1 hc).symm
  · exact .inr (Option.mem_some.1 hc).symm
  · exact absurd hc (Option.not_mem_none c)

theorem takeDigits_eq (s : List Char) :
    takeDigits s = (s.takeWhile isDigit, s.dropWhile isDigit) :=
  List.span_eq_takeWhile_dropWhile isDigit s

theorem takeDigits_append (s : List Char) : (takeDigits s).1 ++ (takeDigits s).2 = s := by
  rw [takeDigits_eq]
  exact List.takeWhile_append_dropWhile

theorem digits_takeDigits (s : List Char) : Digits (takeDigits s).1 := by
  rw [takeDigits_eq]
  intro c hc
  exact List.mem_takeWhile_imp hc

theorem takePower_spec (s : List Char) :
    powerText (takePower s).1 ++ (takePower s).2 = s ∧ ∀ q ∈ (takePower s).1, q.Lawful := by
  have hnone : powerText none ++ s = s ∧ ∀ q ∈ (none : Option Power), q.Lawful :=
    ⟨rfl, fun q hq => absurd hq (Option.not_mem_none q)⟩
  cases s with
  | nil => exact hnone
  | cons letter tail =>
      simp only [takePower]
      split
      · next hletter =>
          split
          · exact hnone
          · constructor
            · rw [powerText, Option.elim_some, Power.text, List.cons_append, List.append_assoc,
                takeDigits_append, takeSign_append]
            · rintro q hq
              obtain rfl := Option.mem_some.1 hq
              refine ⟨?_, isSign_takeSign _, digits_takeDigits _⟩
              simpa using hletter
      · exact hnone

/-- The reader takes the spelling of the numeral that it gives. -/
theorem Numeral.take?_spec {s rest : List Char} {n : Numeral}
    (h : Numeral.take? s = some (n, rest)) : n.text ++ rest = s ∧ n.Lawful := by
  have hsign := takeSign_append s
  have hwhole := takeDigits_append (takeSign s).2
  simp only [Numeral.take?] at h
  split at h
  · next tail hpoint =>
      split at h
      · exact absurd h (by simp)
      · next hsome =>
          obtain ⟨rfl, rfl⟩ := Prod.mk.inj (Option.some.inj h)
          have hfraction := takeDigits_append tail
          obtain ⟨hpower, hlawful⟩ := takePower_spec (takeDigits tail).2
          constructor
          · rw [Numeral.text, fractionText, Option.elim_some]
            simp only [List.append_assoc, List.cons_append, hpower, hfraction]
            rw [← hpoint, hwhole, hsign]
          · refine ⟨isSign_takeSign s, digits_takeDigits _, ?_, hlawful, ?_⟩
            · intro f hf
              obtain rfl := Option.mem_some.1 hf
              exact digits_takeDigits tail
            · rw [Bool.and_eq_true, not_and_or] at hsome
              rcases hsome with hw | hf
              · exact .inl fun hnil => hw (List.isEmpty_iff.2 hnil)
              · exact .inr ⟨_, rfl, fun hnil => hf (List.isEmpty_iff.2 hnil)⟩
  · split at h
    · exact absurd h (by simp)
    · next hsome =>
        obtain ⟨rfl, rfl⟩ := Prod.mk.inj (Option.some.inj h)
        obtain ⟨hpower, hlawful⟩ := takePower_spec (takeDigits (takeSign s).2).2
        constructor
        · rw [Numeral.text, fractionText, Option.elim_none, List.nil_append]
          simp only [List.append_assoc, hpower, hwhole, hsign]
        · refine ⟨isSign_takeSign s, digits_takeDigits _, ?_, hlawful, ?_⟩
          · intro f hf
            exact absurd hf (Option.not_mem_none f)
          · exact .inl fun hnil => hsome (List.isEmpty_iff.2 hnil)

theorem Numeral.read?_eq_some {s : List Char} {n : Numeral} :
    Numeral.read? s = some n ↔ Numeral.take? s = some (n, []) := by
  rw [Numeral.read?]
  split
  · next m h => rw [h, Option.some.injEq, Option.some.injEq, Prod.mk.injEq, and_iff_left rfl]
  · next h =>
      refine ⟨fun h' => absurd h' (by simp), fun h' => absurd h' ?_⟩
      exact h n

theorem Numeral.read?_spec {s : List Char} {n : Numeral} (h : Numeral.read? s = some n) :
    s = n.text ∧ n.Lawful := by
  obtain ⟨htext, hn⟩ := Numeral.take?_spec (Numeral.read?_eq_some.1 h)
  rw [List.append_nil] at htext
  exact ⟨htext.symm, hn⟩

/-! ### Characters of a numeral -/

def isNumeralChar (c : Char) : Bool :=
  isDigit c || c == '+' || c == '-' || c == '.' || c == 'e' || c == 'E'

theorem isNumeralChar_of_isDigit {c : Char} (h : isDigit c = true) : isNumeralChar c = true := by
  simp [isNumeralChar, h]

theorem isNumeralChar_of_mem_sign {sign : Option Char} (h : IsSign sign) {c : Char}
    (hc : c ∈ sign.toList) : isNumeralChar c = true := by
  rcases h c (Option.mem_toList.1 hc) with rfl | rfl <;> decide

theorem Power.Lawful.isNumeralChar {p : Power} (hp : p.Lawful) {c : Char} (hc : c ∈ p.text) :
    isNumeralChar c = true := by
  rw [Power.text, List.mem_cons, List.mem_append] at hc
  rcases hc with rfl | hc | hc
  · rcases hp.letter with h | h <;> rw [h] <;> decide
  · exact isNumeralChar_of_mem_sign hp.sign hc
  · exact isNumeralChar_of_isDigit (hp.digits c hc)

theorem Numeral.Lawful.isNumeralChar {n : Numeral} (hn : n.Lawful) {c : Char}
    (hc : c ∈ n.text) : isNumeralChar c = true := by
  rw [Numeral.text, List.mem_append, List.mem_append, List.mem_append] at hc
  rcases hc with hc | hc | hc | hc
  · exact isNumeralChar_of_mem_sign hn.sign hc
  · exact isNumeralChar_of_isDigit (hn.whole c hc)
  · cases hf : n.fraction with
    | none => rw [hf] at hc; exact absurd hc (by simp [fractionText])
    | some f =>
        rw [hf, fractionText, Option.elim_some, List.mem_cons] at hc
        rcases hc with rfl | hc
        · decide
        · exact isNumeralChar_of_isDigit (hn.fraction f hf c hc)
  · cases hp : n.power with
    | none => rw [hp] at hc; exact absurd hc (by simp [powerText])
    | some p =>
        rw [hp, powerText, Option.elim_some] at hc
        exact (hn.power p hp).isNumeralChar hc

theorem exists_head_text {n : Numeral} (hn : n.Lawful) :
    ∃ c s, n.text = c :: s ∧ isNumeralChar c = true := by
  have hne : n.text ≠ [] := by
    rcases hn.nonempty with hwhole | ⟨f, hf, -⟩
    · simp [Numeral.text, hwhole]
    · simp [Numeral.text, Option.mem_def.1 hf, fractionText]
  obtain ⟨c, s, htext⟩ := List.exists_cons_of_ne_nil hne
  exact ⟨c, s, htext, hn.isNumeralChar (htext ▸ List.mem_cons_self ..)⟩

theorem isDigit_iff {c : Char} : isDigit c = true ↔ 48 ≤ c.toNat ∧ c.toNat ≤ 57 := by
  rw [isDigit, Bool.and_eq_true, decide_eq_true_iff, decide_eq_true_iff]
  exact Iff.rfl

/-- No character of a numeral is blank. -/
theorem isBlank_of_isNumeralChar {c : Char} (h : isNumeralChar c = true) :
    Text.isBlank c = false := by
  simp only [isNumeralChar, Bool.or_eq_true, beq_iff_eq] at h
  rcases h with ((((h | rfl) | rfl) | rfl) | rfl) | rfl
  · have hc := isDigit_iff.1 h
    simp only [Text.isBlank, Bool.or_eq_false_iff, Bool.and_eq_false_iff, decide_eq_false_iff_not,
      beq_eq_false_iff_ne]
    omega
  all_goals decide

/-! ### Numerals that are read -/

theorem takeDigits_of_digits {s t : List Char} (hs : Digits s)
    (ht : ∀ c ∈ t.head?, isDigit c = false) : takeDigits (s ++ t) = (s, t) := by
  rw [takeDigits_eq, List.takeWhile_append_of_pos hs, List.dropWhile_append_of_pos hs]
  cases t with
  | nil => simp
  | cons c t =>
      have hc : isDigit c = false := ht c rfl
      simp [hc]

theorem takeSign_of_digits {s : List Char} (hs : Digits s) (hne : s ≠ []) (t : List Char) :
    takeSign (s ++ t) = (none, s ++ t) := by
  obtain ⟨c, s, rfl⟩ := List.exists_cons_of_ne_nil hne
  have hc : isDigit c = true := hs c (List.mem_cons_self ..)
  rw [List.cons_append]
  unfold takeSign
  split
  · next h => rw [(List.cons.inj h).1] at hc; exact absurd hc (by decide)
  · next h => rw [(List.cons.inj h).1] at hc; exact absurd hc (by decide)
  · rfl

/-- Digits behind an optional sign are an integer. -/
theorem Numeral.read?_integer {sign : Option Char} {whole : List Char} (hsign : IsSign sign)
    (hwhole : Digits whole) (hne : whole ≠ []) :
    Numeral.read? (sign.toList ++ whole) = some ⟨sign, whole, none, none⟩ := by
  have hdigits : takeDigits whole = (whole, []) := by
    have h := takeDigits_of_digits (t := []) hwhole (by simp)
    rwa [List.append_nil] at h
  have htake : takeSign (sign.toList ++ whole) = (sign, whole) := by
    cases sign with
    | none =>
        have h := takeSign_of_digits hwhole hne []
        rwa [List.append_nil] at h
    | some c => rcases hsign c rfl with rfl | rfl <;> rfl
  rw [Numeral.read?_eq_some]
  simp [Numeral.take?, htake, hdigits, hne, takePower]

/-- A numeral that starts with its point is one without it, too. -/
theorem Numeral.read?_tail {s : List Char} {n : Numeral}
    (h : Numeral.read? ('.' :: s) = some n) : ∃ m, Numeral.read? s = some m := by
  rw [Numeral.read?_eq_some] at h
  have hsign : takeSign ('.' :: s) = (none, '.' :: s) := rfl
  have hwhole : takeDigits ('.' :: s) = ([], '.' :: s) := by rw [takeDigits_eq]; rfl
  simp only [Numeral.take?, hsign, hwhole, List.isEmpty_nil, Bool.true_and] at h
  split at h
  · exact absurd h (by simp)
  · next hne =>
      have hrest : (takePower (takeDigits s).2).2 = [] :=
        (Prod.mk.inj (Option.some.inj h)).2
      have hne : (takeDigits s).1 ≠ [] := fun hnil => hne (List.isEmpty_iff.2 hnil)
      have hs : takeSign s = (none, s) := by
        have h := takeSign_of_digits (digits_takeDigits s) hne (takeDigits s).2
        rwa [takeDigits_append] at h
      refine ⟨⟨none, (takeDigits s).1, none, (takePower (takeDigits s).2).1⟩, ?_⟩
      rw [Numeral.read?_eq_some]
      simp only [Numeral.take?, hs]
      split
      · next tail hpoint =>
          rw [hpoint] at hrest
          exact absurd hrest (by simp [takePower])
      · rw [if_neg (by simpa using hne), hrest]

end ObjectConsole.Literal
