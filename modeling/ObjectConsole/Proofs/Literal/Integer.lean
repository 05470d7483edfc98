import ObjectConsole.Proofs.Member.Listing
import ObjectConsole.Proofs.Render.Tree
import ObjectConsole.Reading

/-!
Integer literals. An integer is spelled in decimal with any number of leading
zeros, a sign in front of the digits and blanks around them. The reader takes
just these spellings for integers, as long as some width holds the integer, and
gives it the narrowest one; an integer beyond all widths is a floating-point
number. An integer as it is printed is one of its spellings.
-/

namespace ObjectConsole

open Literal (Digits IsSign Numeral Scalar digitLimit digitsValue readInteger readScalar
  readTrimmed)
open Text (Blanks trim)

/-! ### Widths -/

namespace Width

/-- The width holds the integer: two's complement with so many bits writes it. -/
def Holds (w : Width) (n : Int) : Prop := -2 ^ (w.bits - 1) ≤ n ∧ n < 2 ^ (w.bits - 1)

structure IsNarrowest (w : Width) (n : Int) : Prop where
  holds : w.Holds n
  least : ∀ v : Width, v.Holds n → w.bits ≤ v.bits

variable {v w : Width} {m n : Int}

theorem fits_iff : w.fits n = true ↔ w.Holds n := by
  have hgreatest : w.greatest = 2 ^ (w.bits - 1) - 1 := by cases w <;> rfl
  have hleast : w.least = -2 ^ (w.bits - 1) := by cases w <;> rfl
  rw [fits, Bool.and_eq_true, decide_eq_true_iff, decide_eq_true_iff, hgreatest, hleast, Holds,
    Int.le_sub_one_iff]

instance (w : Width) (n : Int) : Decidable (w.Holds n) := decidable_of_iff _ fits_iff

theorem mem_all (w : Width) : w ∈ all := by cases w <;> decide

/-- Wider integers of the list stand behind narrower ones. -/
theorem pairwise_all : all.Pairwise fun v w => v.bits < w.bits := by decide

theorem narrowest?_eq_none_iff : narrowest? n = none ↔ ∀ w : Width, ¬w.Holds n := by
  rw [narrowest?, List.find?_eq_none]
  exact ⟨fun h w => mt fits_iff.2 (h w w.mem_all), fun h w _ => mt fits_iff.1 (h w)⟩

theorem isNarrowest_of_narrowest? (h : narrowest? n = some w) : w.IsNarrowest n := by
  obtain ⟨hfits, front, behind, hall, hfront⟩ := List.find?_eq_some_iff_append.1 h
  refine ⟨fits_iff.1 hfits, fun v hv => ?_⟩
  have hordered := pairwise_all
  have hmem := v.mem_all
  rw [hall] at hordered hmem
  rcases List.mem_append.1 hmem with hmem | hmem
  · exact absurd (fits_iff.2 hv) (by simpa using hfront v hmem)
  · rcases List.mem_cons.1 hmem with rfl | hmem
    · exact Nat.le_refl _
    · exact Nat.le_of_lt (List.rel_of_pairwise_cons (List.pairwise_append.1 hordered).2.1 hmem)

/-- What a width holds, it holds nearer to zero, too. -/
theorem Holds.between (h : w.Holds n) (hm : 0 ≤ m ∧ m ≤ n ∨ n ≤ m ∧ m ≤ 0) : w.Holds m := by
  have hpos : (0 : Int) < 2 ^ (w.bits - 1) := Int.pow_pos (by decide)
  obtain ⟨hleast, hgreatest⟩ := h
  refine ⟨?_, ?_⟩ <;> omega

end Width

/-! ### Spellings -/

/-- The sign may stand in front of the digits of the integer: a minus has to stand
in front of a negative one, and either sign may stand in front of zero. -/
def MaySign (n : Int) : Option Char → Prop
  | none => 0 ≤ n
  | some c => c = '+' ∧ 0 ≤ n ∨ c = '-' ∧ n ≤ 0

/-- The text spells the integer in decimal, with a sign or without one, any leading
zeros, at most 4300 digits, and blanks around. -/
inductive Spells (n : Int) : List Char → Prop
  | intro {before after digits : List Char} {sign : Option Char} (hbefore : Blanks before)
      (hafter : Blanks after) (hsign : MaySign n sign) (hdigits : Digits digits)
      (hne : digits ≠ []) (hcount : digits.length ≤ 4300)
      (hvalue : Nat.ofDigitChars 10 digits 0 = n.natAbs) :
      Spells n (before ++ (sign.toList ++ digits) ++ after)

variable {n : Int} {text digits : List Char} {sign : Option Char}

theorem MaySign.isSign (h : MaySign n sign) : IsSign sign := by
  intro c hc
  obtain rfl := Option.mem_def.1 hc
  exact h.imp And.left And.left

/-- The sign and the value of the digits make up the integer. -/
theorem MaySign.toInt (h : MaySign n sign) (hvalue : Nat.ofDigitChars 10 digits 0 = n.natAbs) :
    Numeral.toInt ⟨sign, digits, none, none⟩ = n := by
  have hdigits : digitsValue digits = n.natAbs := hvalue
  rw [Numeral.toInt, Numeral.negative]
  simp only [hdigits]
  cases sign with
  | none =>
      have hn : 0 ≤ n := h
      rw [if_neg (by simp)]
      omega
  | some c =>
      rcases h with ⟨rfl, hn⟩ | ⟨rfl, hn⟩
      · rw [if_neg (by simp)]
        omega
      · rw [if_pos (by simp)]
        omega

/-- The sign of a numeral may stand in front of the integer that it is. -/
theorem maySign_toInt (hsign : IsSign sign) :
    MaySign (Numeral.toInt ⟨sign, digits, none, none⟩) sign := by
  rw [Numeral.toInt, Numeral.negative]
  cases sign with
  | none =>
      rw [if_neg (by simp), MaySign]
      omega
  | some c =>
      rcases hsign c rfl with rfl | rfl
      · rw [if_neg (by simp)]
        exact .inl ⟨rfl, by omega⟩
      · rw [if_pos (by simp)]
        exact .inr ⟨rfl, by omega⟩

theorem natAbs_toInt (sign : Option Char) (digits : List Char) :
    (Numeral.toInt ⟨sign, digits, none, none⟩).natAbs = Nat.ofDigitChars 10 digits 0 := by
  rw [Numeral.toInt]
  split
  · rw [Int.natAbs_neg]
    rfl
  · rfl

/-! ### What is read as an integer -/

namespace Literal

/-- No keyword is spelled with a digit. -/
theorem not_isKeyword_of_digit {s : List Char} {c : Char} (hmem : c ∈ s)
    (hc : isDigit c = true) : ¬IsKeyword s := by
  have hlower : c.toLower = c := by
    have hrange := isDigit_iff.1 hc
    refine dif_neg fun h => ?_
    have hupper : 65 ≤ c.toNat ∧ c.toNat ≤ 90 := h
    omega
  have hlowered : c ∈ Text.lower s := hlower ▸ List.mem_map_of_mem hmem
  have hdigit {word : List Char} (hword : word.any isDigit = false) : c ∉ word := fun h =>
    absurd (List.any_eq_true.2 ⟨c, h, hc⟩) (by simp [hword])
  rintro (rfl | hs | hs)
  · exact hdigit (by decide) hmem
  · exact hdigit (by decide) (hs ▸ hlowered)
  · exact hdigit (by decide) (hs ▸ hlowered)

/-- Digits behind a sign are read as an integer if a width holds it, and as a
floating-point number if none does. -/
theorem readTrimmed_integer (hsign : IsSign sign) (hdigits : Digits digits) (hne : digits ≠ [])
    (hcount : digits.length ≤ digitLimit)
    (hn : Numeral.toInt ⟨sign, digits, none, none⟩ = n) :
    readTrimmed (sign.toList ++ digits) = .ok (some
      (((Width.narrowest? n).map fun w => .int w n).getD
        (.float (Numeral.toFloat ⟨sign, digits, none, none⟩)))) := by
  have hread := Numeral.read?_integer hsign hdigits hne
  have hinteger : readInteger (sign.toList ++ digits) =
      .ok ((Width.narrowest? n).map fun w => (w, n)) := by
    rw [readInteger, hread]
    simp only [Numeral.isInteger, if_neg (Nat.not_lt.2 hcount), hn]
    rfl
  have hkeyword : ¬IsKeyword (sign.toList ++ digits) := by
    obtain ⟨d, rest, rfl⟩ := List.exists_cons_of_ne_nil hne
    exact not_isKeyword_of_digit (c := d) (by simp) (hdigits d (by simp))
  rw [readTrimmed_of_not_keyword hkeyword, hinteger, hread]
  cases Width.narrowest? n <;> rfl

/-- A numeral that is read as an integer has digits only, behind its sign, and not too
many of them. -/
theorem readInteger_eq_some {s : List Char} {w : Width} {n : Int}
    (h : readInteger s = .ok (some (w, n))) :
    ∃ sign digits, Numeral.read? s = some ⟨sign, digits, none, none⟩ ∧
      digits.length ≤ digitLimit ∧ Numeral.toInt ⟨sign, digits, none, none⟩ = n ∧
      Width.narrowest? n = some w := by
  rw [readInteger] at h
  split at h
  · exact absurd h (by simp)
  · next m hread =>
      split at h
      · exact absurd h (by simp)
      · next hinteger =>
          split at h
          · exact absurd h (by simp)
          · next hcount =>
              obtain ⟨sign, digits, fraction, power⟩ := m
              obtain ⟨rfl, rfl⟩ : fraction = none ∧ power = none := by
                simpa [Numeral.isInteger] using hinteger
              obtain ⟨v, hv, hpair⟩ := Option.map_eq_some_iff.1 (Except.ok.inj h)
              obtain ⟨rfl, hn⟩ := Prod.mk.inj hpair
              rw [hn] at hv
              exact ⟨sign, digits, hread, Nat.not_lt.1 hcount, hn, hv⟩

/-- What is read as an integer consists of digits behind a sign, and is read in the
narrowest width. -/
theorem exists_of_readTrimmed_int {s : List Char} {w : Width} {n : Int}
    (h : readTrimmed s = .ok (some (.int w n))) :
    ∃ sign digits, s = sign.toList ++ digits ∧ IsSign sign ∧ Digits digits ∧ digits ≠ [] ∧
      digits.length ≤ digitLimit ∧ Numeral.toInt ⟨sign, digits, none, none⟩ = n ∧
      Width.narrowest? n = some w := by
  have hinteger : readInteger s = .ok (some (w, n)) := by
    have hkeyword : ¬IsKeyword s := by
      intro hk
      rcases readTrimmed_keyword hk with hnull | ⟨b, hb⟩
      · cases hnull.symm.trans h
      · cases hb.symm.trans h
    rw [readTrimmed_of_not_keyword hkeyword] at h
    cases hread : readInteger s with
    | error e =>
        rw [hread] at h
        cases h
    | ok o =>
        rw [hread] at h
        cases o with
        | some i =>
            obtain ⟨rfl, rfl⟩ : i.1 = w ∧ i.2 = n := by simpa [Except.map] using h
            rfl
        | none =>
            -- neither the float nor the string that is read instead is an integer
            cases hnumeral : Numeral.read? s <;> simp [Except.map, hnumeral] at h
  obtain ⟨sign, digits, hread, hcount, hn, hw⟩ := readInteger_eq_some hinteger
  obtain ⟨htext, hlawful⟩ := Numeral.read?_spec hread
  have hne : digits ≠ [] := by simpa using hlawful.nonempty
  refine ⟨sign, digits, ?_, hlawful.sign, hlawful.whole, hne, hcount, hn, hw⟩
  rw [htext, Numeral.text]
  simp [fractionText, powerText]

end Literal

/-! ### The reader -/

theorem spells_signed (hsign : IsSign sign) (hdigits : Digits digits) (hne : digits ≠ [])
    (hcount : digits.length ≤ 4300) :
    Spells (Numeral.toInt ⟨sign, digits, none, none⟩) (sign.toList ++ digits) := by
  have h := Spells.intro Text.blanks_nil Text.blanks_nil (maySign_toInt hsign) hdigits hne hcount
    (natAbs_toInt sign digits).symm
  rwa [List.nil_append, List.append_nil] at h

theorem trim_signed (hsign : IsSign sign) (hdigits : Digits digits) :
    trim (sign.toList ++ digits) = sign.toList ++ digits := by
  refine Text.trim_of_no_blank fun c hc => Literal.isBlank_of_isNumeralChar ?_
  rcases List.mem_append.1 hc with hc | hc
  · exact Literal.isNumeralChar_of_mem_sign hsign hc
  · exact Literal.isNumeralChar_of_isDigit (hdigits c hc)

/-- Blanks around a spelling do not count. -/
theorem Spells.of_trim (h : Spells n (trim text)) : Spells n text := by
  obtain ⟨b, b', hb, hb', htext⟩ := Text.eq_blanks_append_trim text
  generalize trim text = inner at h htext
  cases h with
  | @intro before after digits sign hbefore hafter hsign hdigits hne hcount hvalue =>
      have hparts : text = (b ++ before) ++ (sign.toList ++ digits) ++ (after ++ b') := by
        simp [htext]
      rw [hparts]
      exact .intro (List.forall_mem_append.2 ⟨hb, hbefore⟩)
        (List.forall_mem_append.2 ⟨hafter, hb'⟩) hsign hdigits hne hcount hvalue

namespace Reading

variable {w : Width} {u : Value}

/-- A spelling of an integer is read as the integer, in the narrowest width that holds
it, or as a floating-point number if none does. -/
theorem scalar?_of_spells (h : Spells n text) :
    (∃ w : Width, w.IsNarrowest n ∧ scalar? text = .ok (some ⟨.int w, .sized w n none⟩)) ∨
      (∀ w : Width, ¬w.Holds n) ∧ ∃ x, scalar? text = .ok (some ⟨.float, .float x⟩) := by
  cases h with
  | @intro before after digits sign hbefore hafter hsign hdigits hne hcount hvalue =>
      have hread := Literal.readTrimmed_integer hsign.isSign hdigits hne hcount
        (hsign.toInt hvalue)
      have htrim : readScalar (before ++ (sign.toList ++ digits) ++ after) =
          readTrimmed (sign.toList ++ digits) := by
        rw [readScalar, Text.trim_append_of_blanks hbefore hafter,
          trim_signed hsign.isSign hdigits]
      rw [scalar?, htrim, hread]
      cases hw : Width.narrowest? n with
      | some w => exact .inl ⟨w, Width.isNarrowest_of_narrowest? hw, rfl⟩
      | none => exact .inr ⟨Width.narrowest?_eq_none_iff.1 hw, _, rfl⟩

/-- What is read as an integer is a spelling of it. -/
theorem spells_of_scalar? (h : scalar? text = .ok (some ⟨.int w, u⟩)) :
    ∃ n, Spells n text ∧ w.IsNarrowest n ∧ u = .sized w n none := by
  rw [scalar?] at h
  cases hread : readScalar text with
  | error e =>
      rw [hread] at h
      cases h
  | ok o =>
      rw [hread] at h
      obtain ⟨s, rfl, hs⟩ := Option.map_eq_some_iff.1 (Except.ok.inj h)
      cases s with
      | int w' n =>
          obtain ⟨hkind, rfl⟩ := Reading.mk.inj hs
          obtain rfl := LiteralKind.int.inj hkind
          obtain ⟨sign, digits, htext, hsign, hdigits, hne, hcount, rfl, hw⟩ :=
            Literal.exists_of_readTrimmed_int hread
          refine ⟨_, .of_trim ?_, Width.isNarrowest_of_narrowest? hw, rfl⟩
          rw [htext]
          exact spells_signed hsign hdigits hne hcount
      | _ => cases hs

/-- An integer nearer to zero is read in no wider width. -/
theorem scalar?_of_between {m : Int} {s t : List Char} (hs : Spells m s) (ht : Spells n t)
    (hm : 0 ≤ m ∧ m ≤ n ∨ n ≤ m ∧ m ≤ 0) (h : scalar? t = .ok (some ⟨.int w, u⟩)) :
    ∃ (v : Width) (x : Value), scalar? s = .ok (some ⟨.int v, x⟩) ∧ v.bits ≤ w.bits := by
  have hholds : w.Holds n := by
    rcases scalar?_of_spells ht with ⟨w', hw', hread⟩ | ⟨-, x, hread⟩
    · rw [h] at hread
      obtain ⟨hkind, -⟩ := Reading.mk.inj (Option.some.inj (Except.ok.inj hread))
      exact LiteralKind.int.inj hkind ▸ hw'.holds
    · rw [h] at hread
      cases hread
  rcases scalar?_of_spells hs with ⟨v, hv, hread⟩ | ⟨hnone, -⟩
  · exact ⟨v, _, hread, hv.least w (hholds.between hm)⟩
  · exact absurd (hholds.between hm) (hnone w)

end Reading

/-! ### Printed integers -/

theorem spells_toString (h : (Literal.decimalDigits n).length ≤ 4300) :
    Spells n (toString n).toList := by
  have hspells := spells_signed (Literal.isSign_decimalSign n) (Literal.digits_decimalDigits n)
    (Literal.decimalDigits_ne_nil n) h
  rwa [Literal.toInt_decimal, ← Literal.toList_toString] at hspells

/-- An integer of 64 bits that is printed is read back. -/
theorem Reading.scalar?_format (cat : Catalog) (world : World) {v : Value}
    (hv : v.asInt? = some n) (hn : Width.w64.Holds n) :
    ∃ text, cat.format world v = .ok text ∧ ∃ w : Width, w.IsNarrowest n ∧
      scalar? text.toList = .ok (some ⟨.int w, .sized w n none⟩) := by
  have hdigits : (Literal.decimalDigits n).length ≤ 19 := by
    obtain ⟨hleast, hgreatest⟩ := hn
    simp only [Width.bits] at hleast hgreatest
    rw [Literal.length_decimalDigits_le (by decide)]
    omega
  have hlimit : (Literal.decimalDigits n).length ≤ Literal.digitLimit := hdigits.trans (by decide)
  refine ⟨toString n, ?_, ?_⟩
  · rw [format_of_asInt? cat hv]
    exact integerText_of_lt ((Literal.length_decimalDigits_le (by decide)).1 hlimit)
  rcases scalar?_of_spells (spells_toString hlimit) with hread | ⟨hnone, -⟩
  · exact hread
  · exact absurd hn (hnone _)

/-! ### All integers -/

/-- Every spelling of an integer is read as just that integer in the narrowest width
that holds it, and as a floating-point number if no width does; nothing else is read
as an integer. Printed integers are read back, and a width is no wider for an integer
nearer to zero. -/
theorem Reading.scalar?_integers (cat : Catalog) (world : World) :
    (∀ n text, Spells n text →
      (∃ w : Width, w.IsNarrowest n ∧ scalar? text = .ok (some ⟨.int w, .sized w n none⟩)) ∨
        (∀ w : Width, ¬w.Holds n) ∧ ∃ x, scalar? text = .ok (some ⟨.float, .float x⟩)) ∧
    (∀ text w u, scalar? text = .ok (some ⟨.int w, u⟩) →
      ∃ n, Spells n text ∧ u = .sized w n none) ∧
    (∀ n v, v.asInt? = some n → -2 ^ 63 ≤ n ∧ n < 2 ^ 63 →
      ∃ text, cat.format world v = .ok text ∧ ∃ w : Width, w.IsNarrowest n ∧
        scalar? text.toList = .ok (some ⟨.int w, .sized w n none⟩)) ∧
    ∀ m n s t, Spells m s → Spells n t → 0 ≤ m ∧ m ≤ n ∨ n ≤ m ∧ m ≤ 0 →
      ∀ w u, scalar? t = .ok (some ⟨.int w, u⟩) →
        ∃ (v : Width) (x : Value), scalar? s = .ok (some ⟨.int v, x⟩) ∧ v.bits ≤ w.bits := by
  refine ⟨fun n text h => scalar?_of_spells h, fun text w u h => ?_,
    fun n v hv hn => scalar?_format cat world hv hn,
    fun m n s t hs ht hm w u h => scalar?_of_between hs ht hm h⟩
  obtain ⟨n, hspells, -, hu⟩ := spells_of_scalar? h
  exact ⟨n, hspells, hu⟩

/-- The least integer of eight bits, with a leading zero and blanks around it. -/
theorem Reading.scalar?_leastByte :
    Spells (-128) " -0128 ".toList ∧
      scalar? " -0128 ".toList = .ok (some ⟨.int .w8, .sized .w8 (-128) none⟩) := by
  have hspells : Spells (-128) " -0128 ".toList :=
    @Spells.intro (-128) [' '] [' '] "0128".toList (some '-') (by decide) (by decide)
      (.inr ⟨rfl, by decide⟩) (List.all_eq_true.1 (by decide)) (by decide) (by decide) (by decide)
  refine ⟨hspells, ?_⟩
  rcases (scalar?_integers Sample.catalog World.empty).1 _ _ hspells with
    ⟨w, hw, hread⟩ | ⟨hnone, -⟩
  · have hleast : w.bits ≤ Width.bits .w8 := hw.least .w8 (by decide)
    cases w with
    | w8 => exact hread
    | _ => exact absurd hleast (by decide)
  · exact absurd (by decide) (hnone .w8)

end ObjectConsole
