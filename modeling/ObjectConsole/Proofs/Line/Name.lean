import ObjectConsole.Line.Form
import ObjectConsole.Proofs.Literal.Scalar

/-!
Names in front of a trigger. A name that holds no character of the scanners
and does not itself read as a scalar is found again by the scan for triggers,
whatever blanks stand around it and whatever follows the trigger: the whole
text does not read as a scalar either.
-/

namespace ObjectConsole.Line

open ObjectConsole.Literal
open ObjectConsole.Text (Blanks trim trimLeft trimRight)

/-- A name of a member, without blanks around it. A lone sign is no name: with
a point behind it, it starts a numeral. -/
structure IsName (n : List Char) : Prop where
  nonempty : n ≠ []
  plain : ∀ c ∈ n, isPlain c = true
  trimmed : trim n = n
  notScalar : readScalar n = .ok none
  notSign : n ≠ ['+'] ∧ n ≠ ['-']
  notArrow : ['-', '>'].isPrefixOf n = false

instance (n : List Char) : Decidable (IsName n) :=
  decidable_of_iff
    (n ≠ [] ∧ n.all isPlain = true ∧ trim n = n ∧ readScalar n = .ok none ∧
      (n ≠ ['+'] ∧ n ≠ ['-']) ∧ ['-', '>'].isPrefixOf n = false)
    ⟨fun ⟨h1, h2, h3, h4, h5, h6⟩ => ⟨h1, List.all_eq_true.1 h2, h3, h4, h5, h6⟩,
      fun ⟨h1, h2, h3, h4, h5, h6⟩ => ⟨h1, List.all_eq_true.2 h2, h3, h4, h5, h6⟩⟩

/-- A name with blanks around it. -/
def IsLabel (label : List Char) : Prop := IsName (trim label)

instance (label : List Char) : Decidable (IsLabel label) :=
  inferInstanceAs (Decidable (IsName (trim label)))

theorem IsLabel.plain_label {label : List Char} (h : IsLabel label) :
    ∀ c ∈ label, isPlain c = true := by
  obtain ⟨b, b', hb, hb', heq⟩ := Text.eq_blanks_append_trim label
  intro c hc
  rw [heq, List.mem_append, List.mem_append] at hc
  rcases hc with (hc | hc) | hc
  · exact isPlain_of_isBlank (hb c hc)
  · exact IsName.plain h c hc
  · exact isPlain_of_isBlank (hb' c hc)

/-! ### The scan for triggers -/

@[simp] theorem ofChar?_char (t : Trigger) : Trigger.ofChar? t.char = some t := by
  cases t <;> rfl

theorem isPlain_trigger (t : Trigger) : isPlain t.char = false := by
  cases t <;> decide

theorem isBlank_trigger (t : Trigger) : Text.isBlank t.char = false := by
  cases t <;> decide

theorem scan_of_free {s : List Char} (h : ∀ c ∈ s, isTrigger c = false) : scan s = ⟨s, none⟩ := by
  induction s with
  | nil => rfl
  | cons c s ih =>
      have hs := List.forall_mem_cons.1 h
      have hc : Trigger.ofChar? c = none := by simpa [isTrigger] using hs.1
      rw [scan, hc, ih hs.2]

theorem scan_append_of_free {s : List Char} (h : ∀ c ∈ s, isTrigger c = false) (t : Trigger)
    (rest : List Char) : scan (s ++ t.char :: rest) = ⟨s, some (t, rest)⟩ := by
  induction s with
  | nil => rw [List.nil_append, scan, ofChar?_char]
  | cons c s ih =>
      have hs := List.forall_mem_cons.1 h
      have hc : Trigger.ofChar? c = none := by simpa [isTrigger] using hs.1
      rw [List.cons_append, scan, hc, ih hs.2]

/-! ### A name and a trigger are no scalar -/

theorem IsName.head {n : List Char} (h : IsName n) : ∃ c s, n = c :: s ∧ isPlain c = true := by
  obtain ⟨c, s, rfl⟩ := List.exists_cons_of_ne_nil h.nonempty
  exact ⟨c, s, rfl, h.plain c (List.mem_cons_self ..)⟩

/-- Digits behind an optional sign are no name. -/
theorem IsName.ne_integer {n : List Char} (h : IsName n) {sign : Option Char}
    {whole : List Char} (hsign : IsSign sign) (hwhole : Digits whole) :
    n ≠ sign.toList ++ whole := by
  intro hn
  by_cases hne : whole = []
  · subst hne
    rw [List.append_nil] at hn
    cases sign with
    | none => exact h.nonempty hn
    | some c =>
        rcases hsign c rfl with rfl | rfl
        · exact h.notSign.1 hn
        · exact h.notSign.2 hn
  · have hnone : readTrimmed n = .ok none := by
      have hscalar := h.notScalar
      rwa [readScalar, h.trimmed] at hscalar
    have hread := Numeral.read?_integer hsign hwhole hne
    rw [← hn] at hread
    rcases readTrimmed_of_numeral hread with ⟨v, hv⟩ | ⟨e, he⟩
    · rw [hnone] at hv
      exact absurd hv (by simp)
    · rw [hnone] at he
      exact absurd he (by simp)

theorem point_not_mem_sign {sign : Option Char} (h : IsSign sign) : '.' ∉ sign.toList := by
  intro hmem
  rcases h '.' (Option.mem_toList.1 hmem) with h | h <;> exact absurd h (by decide)

theorem point_not_mem_digits {s : List Char} (h : Digits s) : '.' ∉ s := by
  intro hmem
  exact absurd (h '.' hmem) (by decide)

theorem point_not_mem_power {p : Option Power} (h : ∀ q ∈ p, q.Lawful) : '.' ∉ powerText p := by
  cases p with
  | none => simp [powerText]
  | some q =>
      have hq := h q rfl
      rw [powerText, Option.elim_some, Power.text, List.mem_cons, List.mem_append, not_or, not_or]
      refine ⟨?_, point_not_mem_sign hq.sign, point_not_mem_digits hq.digits⟩
      rcases hq.letter with hl | hl <;> rw [hl] <;> decide

/-- What stands in front of the point of a numeral is an optional sign and
digits. -/
theorem before_point {n : Numeral} (hn : n.Lawful) {before after : List Char}
    (h : before ++ '.' :: after = n.text) : before = n.sign.toList ++ n.whole := by
  have hfront : '.' ∉ n.sign.toList ++ n.whole := by
    rw [List.mem_append, not_or]
    exact ⟨point_not_mem_sign hn.sign, point_not_mem_digits hn.whole⟩
  cases hf : n.fraction with
  | none =>
      have hmem : '.' ∈ n.text := by simp [← h]
      rw [Numeral.text, hf, fractionText, Option.elim_none, List.nil_append, ← List.append_assoc,
        List.mem_append] at hmem
      exact absurd hmem (not_or.2 ⟨hfront, point_not_mem_power hn.power⟩)
  | some f =>
      rw [Numeral.text, hf, fractionText, Option.elim_some, List.cons_append,
        ← List.append_assoc] at h
      have hafter : '.' ∉ f ++ powerText n.power := by
        rw [List.mem_append, not_or]
        exact ⟨point_not_mem_digits (hn.fraction f hf), point_not_mem_power hn.power⟩
      exact ((List.append_cons_inj_of_notMem hfront hafter).1 h.symm).1.symm

/-- A name in front of a trigger does not start a scalar. -/
theorem readTrimmed_name {n b rest : List Char} (h : IsName n) (hb : Blanks b) (t : Trigger) :
    readTrimmed (n ++ b ++ t.char :: rest) = .ok none := by
  have hmem : t.char ∈ n ++ b ++ t.char :: rest := by simp
  have hkeyword : ¬IsKeyword (n ++ b ++ t.char :: rest) := by
    intro hk
    have hplain := isPlain_of_mem_keyword hk hmem
    rw [isPlain_trigger] at hplain
    exact absurd hplain (by decide)
  have hnumeral : Numeral.read? (n ++ b ++ t.char :: rest) = none := by
    refine Option.eq_none_iff_forall_ne_some.2 fun m hm => ?_
    obtain ⟨htext, hlawful⟩ := Numeral.read?_spec hm
    -- a numeral holds no trigger but a point, and in front of its point stands an
    -- integer, which the name is not
    have hpoint : t.char = '.' := by
      by_contra hne
      have hchar := hlawful.isNumeralChar (htext ▸ hmem)
      have hplain := isPlain_of_isNumeralChar hchar hne
      rw [isPlain_trigger] at hplain
      exact absurd hplain (by decide)
    rw [hpoint] at htext
    have hfront := before_point hlawful htext
    have hbnil : b = [] := by
      by_contra hne
      obtain ⟨c, b', rfl⟩ := List.exists_cons_of_ne_nil hne
      have hc : c ∈ m.sign.toList ++ m.whole := by simp [← hfront]
      have htextmem : c ∈ m.text := by
        rw [Numeral.text, ← List.append_assoc]
        exact List.mem_append_left _ hc
      have hchar := isBlank_of_isNumeralChar (hlawful.isNumeralChar htextmem)
      rw [hb c (List.mem_cons_self ..)] at hchar
      exact absurd hchar (by decide)
    rw [hbnil, List.append_nil] at hfront
    exact h.ne_integer hlawful.sign hlawful.whole hfront
  have hquoted : readQuoted (n ++ b ++ t.char :: rest) = none := by
    obtain ⟨c, s, rfl, hc⟩ := h.head
    refine readQuoted_of_head fun d hd => ?_
    obtain rfl : c = d := by simpa using hd
    exact isQuote_of_isPlain hc
  rw [readTrimmed_of_not_numeral hkeyword hnumeral, hquoted]
  rfl

/-- An index on the context itself is no scalar. -/
theorem readTrimmed_opening (rest : List Char) : readTrimmed ('[' :: rest) = .ok none := by
  have hnot : ¬IsUnquoted ('[' :: rest) := by
    intro h
    exact absurd (h.inert '[' (List.mem_cons_self ..)) (by decide)
  have hquoted : readQuoted ('[' :: rest) = none := by
    refine readQuoted_of_head fun d hd => ?_
    obtain rfl : '[' = d := by simpa using hd
    decide
  rw [readTrimmed_of_not_unquoted hnot, hquoted]
  rfl

/-! ### Forms -/

theorem dropPoint_of_ne {c : Char} (hc : c ≠ '.') (s : List Char) :
    dropPoint (c :: s) = c :: s := by
  unfold dropPoint
  split
  · next h => exact absurd (List.cons.inj h).1 hc
  · rfl

theorem dropPoint_of_head {s : List Char} (h : s.head? ≠ some '.') : dropPoint s = s := by
  cases s with
  | nil => rfl
  | cons c s => exact dropPoint_of_ne (by simpa using h) s

theorem ne_point_of_isPlain {c : Char} (h : isPlain c = true) : c ≠ '.' := by
  rintro rfl
  exact absurd h (by decide)

def Form.ofLine (text : List Char) : Form := Form.ofText (dropPoint (trim text))

theorem trim_label_trigger (label : List Char) (t : Trigger) (rest : List Char) :
    ∃ b, Blanks b ∧
      trim (label ++ t.char :: rest) = trim label ++ b ++ t.char :: trimRight rest := by
  obtain ⟨b, hb, hlabel⟩ := Text.trimLeft_eq_trim_append label
  exact ⟨b, hb, by rw [Text.trim_append_cons (isBlank_trigger t), hlabel]⟩

/-- The form of a text that is cut at its first trigger, if it is no scalar as
a whole. -/
theorem Form.ofLine_cut {word : List Char} (hfree : ∀ c ∈ word, isTrigger c = false)
    {t : Trigger} (hpoint : Blanks word → t ≠ .member) {rest : List Char}
    (hnone : readScalar (word ++ t.char :: rest) = .ok none) :
    Form.ofLine (word ++ t.char :: rest) = Form.ofTrigger (trim word) t (trimRight rest) := by
  have htrim : trim (word ++ t.char :: rest) = trimLeft word ++ t.char :: trimRight rest :=
    Text.trim_append_cons (isBlank_trigger t) word rest
  have hleft : ∀ c ∈ trimLeft word, isTrigger c = false := fun c hc =>
    hfree c ((List.dropWhile_suffix _).mem hc)
  have hdrop : dropPoint (trim (word ++ t.char :: rest)) = trim (word ++ t.char :: rest) := by
    rw [htrim]
    cases hs : trimLeft word with
    | nil =>
        apply dropPoint_of_ne
        intro ht
        apply hpoint (Text.trimLeft_eq_nil_iff.1 hs)
        exact Option.some.inj ((ofChar?_char t).symm.trans (by rw [ht]; rfl))
    | cons c s =>
        apply dropPoint_of_ne
        rintro rfl
        exact absurd (hleft '.' (by simp [hs])) (by decide)
  have hread : readScalar (trim (word ++ t.char :: rest)) = .ok none := by
    rwa [readScalar, Text.trim_trim, ← readScalar]
  rw [Form.ofLine, hdrop, Form.ofText, hread, htrim, scan_append_of_free hleft]
  simp only [Text.trim_trimLeft]

/-- The form of a name and a trigger. -/
theorem Form.ofLine_label {label : List Char} (h : IsLabel label) (t : Trigger)
    (rest : List Char) :
    Form.ofLine (label ++ t.char :: rest) =
      Form.ofTrigger (trim label) t (trimRight rest) := by
  obtain ⟨b, hb, htrim⟩ := trim_label_trigger label t rest
  have hnone : readScalar (label ++ t.char :: rest) = .ok none := by
    rw [readScalar, htrim, readTrimmed_name h hb]
  have hblank : ¬Blanks label := fun hblank => IsName.nonempty h (Text.trim_of_blanks hblank)
  exact ofLine_cut (fun c hc => isTrigger_of_isPlain (h.plain_label c hc))
    (fun hb => absurd hb hblank) hnone

/-- The form of an index on the context itself. -/
theorem Form.ofLine_opening {b : List Char} (hb : Blanks b) (rest : List Char) :
    Form.ofLine (b ++ '[' :: rest) = Form.ofTrigger [] .index (trimRight rest) := by
  have htrim : trim (b ++ '[' :: rest) = '[' :: trimRight rest :=
    Text.trim_split hb (by decide)
  have hscan : scan ('[' :: trimRight rest) = ⟨[], some (.index, trimRight rest)⟩ := rfl
  rw [Form.ofLine, htrim, dropPoint_of_ne (by decide), Form.ofText, readScalar, ← htrim,
    Text.trim_trim, htrim, readTrimmed_opening, hscan]
  rfl

/-- The form of a name alone. -/
theorem Form.ofLine_name {label : List Char} (h : IsLabel label) :
    Form.ofLine label = .word (trim label) := by
  have hdrop : dropPoint (trim label) = trim label := by
    obtain ⟨c, s, hn, hc⟩ := IsName.head h
    rw [hn]
    exact dropPoint_of_ne (ne_point_of_isPlain hc) s
  rw [Form.ofLine, hdrop, Form.ofText, IsName.notScalar h,
    scan_of_free fun c hc => isTrigger_of_isPlain (IsName.plain h c hc)]

/-- The form of a text that reads as a scalar and does not start with a
point. -/
theorem Form.ofLine_scalar {s : List Char} {v : Scalar} (h : readScalar s = .ok (some v))
    (hpoint : (trim s).head? ≠ some '.') : Form.ofLine s = .scalar v := by
  rw [Form.ofLine, dropPoint_of_head hpoint, Form.ofText, readScalar, Text.trim_trim,
    ← readScalar, h]

end ObjectConsole.Line
