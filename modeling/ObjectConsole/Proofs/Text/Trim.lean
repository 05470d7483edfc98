import ObjectConsole.Text.Blank
import Mathlib.Data.List.DropRight

/-!
Outer blanks. A text that is not blank is its trimmed form between two runs
of blanks, and trimming stops at the first and the last character that is not
blank, whatever stands between them.
-/

namespace ObjectConsole.Text

def Blanks (s : List Char) : Prop := ∀ c ∈ s, isBlank c = true

theorem isBlankText_iff {s : List Char} : isBlankText s = true ↔ Blanks s := by
  rw [isBlankText, List.all_eq_true, Blanks]

theorem isBlankText_eq_false_iff {s : List Char} : isBlankText s = false ↔ ¬Blanks s := by
  rw [← isBlankText_iff, Bool.not_eq_true]

instance (s : List Char) : Decidable (Blanks s) :=
  decidable_of_iff (isBlankText s = true) isBlankText_iff

@[simp] theorem blanks_nil : Blanks [] := by simp [Blanks]

theorem trimRight_eq (s : List Char) : trimRight s = s.rdropWhile isBlank := rfl

@[simp] theorem trim_nil : trim [] = [] := rfl

/-! ### Blanks at the ends -/

theorem trimLeft_append_of_blanks {b : List Char} (hb : Blanks b) (s : List Char) :
    trimLeft (b ++ s) = trimLeft s := by
  rw [trimLeft, List.dropWhile_append_of_pos hb, trimLeft]

theorem trimRight_append_of_blanks {b : List Char} (hb : Blanks b) (s : List Char) :
    trimRight (s ++ b) = trimRight s := by
  have hrev : ∀ c ∈ b.reverse, isBlank c = true := by
    intro c hc
    exact hb c (List.mem_reverse.1 hc)
  rw [trimRight, List.reverse_append, List.dropWhile_append_of_pos hrev, trimRight]

theorem trimLeft_eq_nil_iff {s : List Char} : trimLeft s = [] ↔ Blanks s := by
  rw [trimLeft, List.dropWhile_eq_nil_iff, Blanks]

theorem trimRight_eq_nil_iff {s : List Char} : trimRight s = [] ↔ Blanks s := by
  rw [trimRight_eq, List.rdropWhile_eq_nil_iff, Blanks]

@[simp] theorem trimLeft_trimLeft (s : List Char) : trimLeft (trimLeft s) = trimLeft s :=
  List.dropWhile_idempotent isBlank s

@[simp] theorem trimRight_trimRight (s : List Char) :
    trimRight (trimRight s) = trimRight s :=
  List.rdropWhile_idempotent isBlank s

/-! ### Around a character that is not blank -/

/-- Nothing in front of the last character that is not blank is trimmed on
the right. -/
theorem trimRight_append_cons {c : Char} (hc : isBlank c = false) (s t : List Char) :
    trimRight (s ++ c :: t) = s ++ c :: trimRight t := by
  induction t using List.reverseRecOn with
  | nil => rw [trimRight_eq, List.rdropWhile_concat_neg _ _ _ (by simp [hc])]; rfl
  | append_singleton t d ih =>
      have hassoc : s ++ c :: (t ++ [d]) = (s ++ c :: t) ++ [d] := by simp
      rw [hassoc]
      by_cases hd : isBlank d = true
      · rw [trimRight_eq, List.rdropWhile_concat_pos _ _ _ hd, ← trimRight_eq, ih,
          trimRight_eq (t ++ [d]), List.rdropWhile_concat_pos _ _ _ hd, ← trimRight_eq]
      · rw [trimRight_eq, List.rdropWhile_concat_neg _ _ _ hd, trimRight_eq,
          List.rdropWhile_concat_neg _ _ _ hd]
        simp

theorem trimRight_cons {c : Char} (hc : isBlank c = false) (t : List Char) :
    trimRight (c :: t) = c :: trimRight t :=
  trimRight_append_cons hc [] t

/-- Nothing behind the first character that is not blank is trimmed on the
left. -/
theorem trimLeft_append_cons {c : Char} (hc : isBlank c = false) (s t : List Char) :
    trimLeft (s ++ c :: t) = trimLeft s ++ c :: t := by
  rw [trimLeft, List.dropWhile_append, List.dropWhile_cons_of_neg (by simp [hc])]
  split
  · next h => rw [trimLeft, List.isEmpty_iff.1 h, List.nil_append]
  · rfl

theorem trim_append_cons {c : Char} (hc : isBlank c = false) (s t : List Char) :
    trim (s ++ c :: t) = trimLeft s ++ c :: trimRight t := by
  rw [trim, trimLeft_append_cons hc, trimRight_append_cons hc]

/-! ### The trimmed form -/

/-- A text is blank, or it has a first character that is not. -/
theorem blanks_or_split (s : List Char) :
    Blanks s ∨ ∃ b c t, s = b ++ c :: t ∧ Blanks b ∧ isBlank c = false := by
  induction s with
  | nil => exact .inl blanks_nil
  | cons d s ih =>
      by_cases hd : isBlank d = true
      · rcases ih with hs | ⟨b, c, t, rfl, hb, hc⟩
        · exact .inl (List.forall_mem_cons.2 ⟨hd, hs⟩)
        · exact .inr ⟨d :: b, c, t, rfl, List.forall_mem_cons.2 ⟨hd, hb⟩, hc⟩
      · exact .inr ⟨[], d, s, rfl, blanks_nil, by simpa using hd⟩

theorem trim_of_blanks {s : List Char} (h : Blanks s) : trim s = [] := by
  rw [trim, trimLeft_eq_nil_iff.2 h]
  rfl

theorem trim_split {b t : List Char} {c : Char} (hb : Blanks b) (hc : isBlank c = false) :
    trim (b ++ c :: t) = c :: trimRight t := by
  rw [trim_append_cons hc, trimLeft_eq_nil_iff.2 hb, List.nil_append]

theorem trim_eq_nil_iff {s : List Char} : trim s = [] ↔ Blanks s := by
  refine ⟨fun h => ?_, trim_of_blanks⟩
  rcases blanks_or_split s with hs | ⟨b, c, t, rfl, hb, hc⟩
  · exact hs
  · rw [trim_split hb hc] at h
    exact absurd h (List.cons_ne_nil _ _)

@[simp] theorem trim_trimLeft (s : List Char) : trim (trimLeft s) = trim s := by
  rw [trim, trimLeft_trimLeft, trim]

@[simp] theorem trim_trimRight (s : List Char) : trim (trimRight s) = trim s := by
  rcases blanks_or_split s with hs | ⟨b, c, t, rfl, hb, hc⟩
  · rw [trimRight_eq_nil_iff.2 hs, trim_of_blanks hs, trim_nil]
  · rw [trimRight_append_cons hc, trim_split hb hc, trim_split hb hc, trimRight_trimRight]

@[simp] theorem trim_trim (s : List Char) : trim (trim s) = trim s :=
  calc
    trim (trim s) = trim (trimLeft s) := trim_trimRight (trimLeft s)
    _ = trim s := trim_trimLeft s

theorem blanks_trim_iff {s : List Char} : Blanks (trim s) ↔ Blanks s := by
  rw [← trim_eq_nil_iff, trim_trim, trim_eq_nil_iff]

theorem blanks_trimRight_iff {s : List Char} : Blanks (trimRight s) ↔ Blanks s := by
  rw [← trimRight_eq_nil_iff, trimRight_trimRight, trimRight_eq_nil_iff]

/-- The ends can be trimmed in either order. -/
theorem trimLeft_trimRight (s : List Char) : trimLeft (trimRight s) = trim s := by
  rcases blanks_or_split s with hs | ⟨b, c, t, rfl, hb, hc⟩
  · rw [trimRight_eq_nil_iff.2 hs, trim_of_blanks hs]
    rfl
  · rw [trimRight_append_cons hc, trimLeft_append_cons hc, trim_split hb hc,
      trimLeft_eq_nil_iff.2 hb, List.nil_append]

/-- Outer blanks do not count. -/
theorem trim_append_of_blanks {b b' : List Char} (hb : Blanks b) (hb' : Blanks b')
    (s : List Char) : trim (b ++ s ++ b') = trim s := by
  rw [List.append_assoc, trim, trimLeft_append_of_blanks hb, ← trim,
    ← trim_trimRight, trimRight_append_of_blanks hb', trim_trimRight]

/-- Without its leading blanks, a text is its trimmed form and then blanks. -/
theorem trimLeft_eq_trim_append (s : List Char) : ∃ b, Blanks b ∧ trimLeft s = trim s ++ b := by
  obtain ⟨b, hb⟩ : trimRight (trimLeft s) <+: trimLeft s := List.rdropWhile_prefix ..
  refine ⟨b, ?_, hb.symm⟩
  have h := congrArg trimRight hb
  rcases blanks_or_split b with hs | ⟨b', c, t, rfl, -, hc⟩
  · exact hs
  · rw [← List.append_assoc, trimRight_append_cons hc] at h
    have hlen := congrArg List.length h
    simp only [List.length_append, List.length_cons] at hlen
    omega

theorem trimLeft_append_of_not_blanks {s : List Char} (h : ¬Blanks s) (t : List Char) :
    trimLeft (s ++ t) = trimLeft s ++ t := by
  rcases blanks_or_split s with hs | ⟨b, c, r, rfl, -, hc⟩
  · exact absurd hs h
  · rw [List.append_assoc, List.cons_append, trimLeft_append_cons hc, trimLeft_append_cons hc,
      List.append_assoc, List.cons_append]

/-- A text is its trimmed form between two runs of blanks. -/
theorem eq_blanks_append_trim (s : List Char) :
    ∃ b b', Blanks b ∧ Blanks b' ∧ s = b ++ trim s ++ b' := by
  obtain ⟨b', hblank, hb'⟩ := trimLeft_eq_trim_append s
  refine ⟨s.takeWhile isBlank, b', ?_, hblank, ?_⟩
  · intro c hc
    exact List.mem_takeWhile_imp hc
  · rw [List.append_assoc, ← hb', trimLeft, List.takeWhile_append_dropWhile]

/-- A text without blanks has nothing to trim. -/
theorem trim_of_no_blank {s : List Char} (h : ∀ c ∈ s, isBlank c = false) : trim s = s := by
  obtain ⟨b, b', hb, hb', hs⟩ := eq_blanks_append_trim s
  have hnil {d : List Char} (hd : Blanks d) (hsub : d ⊆ s) : d = [] := by
    refine List.eq_nil_iff_forall_not_mem.2 fun c hc => ?_
    have hblank := hd c hc
    rw [h c (hsub hc)] at hblank
    exact absurd hblank (by decide)
  have hleft : b = [] := by
    refine hnil hb fun c hc => ?_
    rw [hs]
    simp [hc]
  have hright : b' = [] := by
    refine hnil hb' fun c hc => ?_
    rw [hs]
    simp [hc]
  rw [hleft, hright, List.nil_append, List.append_nil] at hs
  exact hs.symm

end ObjectConsole.Text
