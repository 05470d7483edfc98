import ObjectConsole.Line.Form
import ObjectConsole.Proofs.Literal.Scalar
import ObjectConsole.Proofs.Text.Trim

/-!
The texts in a form. What an expression evaluates in turn stands in it behind
its first trigger, in one piece. So a run of digits that is too long for an
integer, wherever it is met, stands in the line.
-/

namespace ObjectConsole

namespace Text

theorem suffix_trimLeft (s : List Char) : trimLeft s <:+ s := List.dropWhile_suffix ..

theorem prefix_trimRight (s : List Char) : trimRight s <+: s := by
  rw [trimRight_eq]
  exact List.rdropWhile_prefix ..

theorem infix_trim (s : List Char) : trim s <:+: s :=
  (prefix_trimRight (trimLeft s)).isInfix.trans (suffix_trimLeft s).isInfix

end Text

namespace Line

open Literal (Digits digitLimit isDigit readScalar)

theorem infix_dropPoint (s : List Char) : dropPoint s <:+: s := by
  unfold dropPoint
  split
  · exact (List.suffix_cons ..).isInfix
  · exact List.infix_rfl

theorem infix_of_mem_prependPart {text t : List Char} {parts : List (List Char)} {s : List Char}
    (hparts : ∀ p ∈ parts, p <:+: s) (hhead : ∀ p ∈ parts.head?, p <+: s)
    (h : t ∈ prependPart text parts) : t <:+: text ++ s := by
  cases parts with
  | nil =>
      rw [prependPart, List.mem_singleton] at h
      rw [h]
      exact (List.prefix_append ..).isInfix
  | cons p parts =>
      rw [prependPart, List.mem_cons] at h
      rcases h with rfl | h
      · obtain ⟨r, hr⟩ := hhead p rfl
        refine ⟨[], r, ?_⟩
        rw [List.nil_append, List.append_assoc, hr]
      · exact (hparts t (List.mem_cons_of_mem _ h)).trans (List.suffix_append ..).isInfix

/-- The parts of a text are pieces of it, and the first part is its beginning. -/
theorem infix_of_mem_cut (depth : Nat) (ps : List Piece) :
    (∀ t ∈ cut depth ps, t <:+: piecesText ps) ∧
      ∀ t ∈ (cut depth ps).head?, t <+: piecesText ps := by
  have prepend {text : List Char} {parts : List (List Char)} {s : List Char}
      (h : (∀ p ∈ parts, p <:+: s) ∧ ∀ p ∈ parts.head?, p <+: s) :
      (∀ p ∈ prependPart text parts, p <:+: text ++ s) ∧
        ∀ p ∈ (prependPart text parts).head?, p <+: text ++ s := by
    refine ⟨fun p hp => infix_of_mem_prependPart h.1 h.2 hp, ?_⟩
    intro p hp
    cases parts with
    | nil =>
        obtain rfl : text = p := by simpa [prependPart] using hp
        exact List.prefix_append ..
    | cons q parts =>
        obtain rfl : text ++ q = p := by simpa [prependPart] using hp
        exact (List.prefix_append_right_inj text).2 (h.2 q rfl)
  fun_induction cut depth ps with
  | case1 => simp
  | case2 depth rest ps =>
      have hrest : rest <+: piecesText (.unclosed rest :: ps) := List.prefix_append ..
      exact ⟨by simpa using hrest.isInfix, by simpa using hrest⟩
  | case3 depth region ps ih => exact prepend ih
  | case4 depth c ps hc ih =>
      refine ⟨?_, by simp⟩
      intro t ht
      rcases List.mem_cons.1 ht with rfl | ht
      · exact List.nil_infix
      · exact (ih.1 t ht).trans (List.suffix_cons ..).isInfix
  | case5 depth c ps hc ih => exact prepend ih

theorem infix_of_mem_arguments {s t : List Char} (h : t ∈ arguments s) : t <:+: s := by
  rw [arguments] at h
  split at h
  · exact absurd h (List.not_mem_nil)
  · have hcut := (infix_of_mem_cut 0 (pieces s)).1 t h
    rwa [piecesText_pieces] at hcut

/-- The text around a pair of brackets and between them. -/
theorem enclosed_text {kind : Bracket} {s : List Char} {e : Enclosed}
    (h : enclosed kind s = .ok e) :
    e.before ++ kind.opener :: (e.inside ++ kind.closer :: e.after) = s := by
  unfold enclosed at h
  cases hopen : toOpener kind (pieces s) with
  | error x => rw [hopen] at h; exact absurd h (by simp [bind, Except.bind])
  | ok p =>
      obtain ⟨before, rest⟩ := p
      cases hclose : toCloser kind 0 rest with
      | error x => rw [hopen] at h; simp [bind, Except.bind, hclose] at h
      | ok q =>
          obtain ⟨inside, after⟩ := q
          rw [hopen] at h
          simp only [bind, Except.bind, hclose, pure, Except.pure, Except.ok.injEq] at h
          subst h
          rw [toCloser_text hclose, toOpener_text hopen, piecesText_pieces]

theorem infix_parts {kind : Bracket} {c : Char} {rest : List Char} {e : Enclosed}
    (h : enclosed kind (c :: rest) = .ok e) : e.inside <:+: rest ∧ e.after <:+: rest := by
  have htext := enclosed_text h
  -- the opening bracket is the first character or comes later
  cases hbefore : e.before with
  | nil =>
      rw [hbefore, List.nil_append, List.cons.injEq] at htext
      rw [← htext.2]
      exact ⟨(List.prefix_append ..).isInfix,
        ((List.suffix_cons ..).trans (List.suffix_append ..)).isInfix⟩
  | cons b before =>
      rw [hbefore, List.cons_append, List.cons.injEq] at htext
      rw [← htext.2]
      exact ⟨⟨before ++ [kind.opener], kind.closer :: e.after, by simp⟩,
        ⟨before ++ kind.opener :: (e.inside ++ [kind.closer]), [], by simp⟩⟩

theorem scan_text {s : List Char} {t : Trigger} {rest : List Char}
    (h : (scan s).found = some (t, rest)) : (scan s).name ++ t.char :: rest = s := by
  have hs := name_append_remainder s
  rwa [Scan.remainder, h] at hs

theorem Form.infix_of_mem_ofTrigger {name : List Char} {trigger : Trigger} {rest t : List Char}
    (h : t ∈ (ofTrigger name trigger rest).subtexts) : t <:+: rest := by
  cases trigger with
  | member =>
      rw [ofTrigger, subtexts, List.mem_singleton] at h
      exact h ▸ List.infix_rfl
  | assign =>
      rw [ofTrigger, subtexts, List.mem_singleton] at h
      exact h ▸ List.infix_rfl
  | call =>
      rw [ofTrigger] at h
      cases he : enclosed .round (Trigger.call.char :: rest) with
      | error x => rw [he] at h; exact absurd h (by simp [Except.map, subtexts])
      | ok e =>
          rw [he] at h
          simp only [Except.map, subtexts, List.mem_append, List.mem_singleton] at h
          rcases h with h | rfl
          · exact (infix_of_mem_arguments h).trans (infix_parts he).1
          · exact (infix_parts he).2
  | index =>
      rw [ofTrigger] at h
      cases he : enclosed .square (Trigger.index.char :: rest) with
      | error x => rw [he] at h; exact absurd h (by simp [Except.map, subtexts])
      | ok e =>
          rw [he] at h
          simp only [Except.map, subtexts, List.mem_cons, List.not_mem_nil, or_false] at h
          rcases h with rfl | rfl
          · exact (infix_parts he).1
          · exact (infix_parts he).2

/-- The texts in a form stand in the expression behind its first trigger. -/
theorem Form.exists_behind_trigger {s t : List Char} (h : t ∈ (Form.ofText s).subtexts) :
    ∃ name trigger rest, s = name ++ Trigger.char trigger :: rest ∧ t <:+: rest := by
  rw [Form.ofText] at h
  split at h
  · exact absurd h (by simp [subtexts])
  · exact absurd h (by simp [subtexts])
  · simp only at h
    split at h
    · exact absurd h (by simp [subtexts])
    · next trigger rest hfound =>
        exact ⟨(scan s).name, trigger, rest, (scan_text hfound).symm, infix_of_mem_ofTrigger h⟩

theorem Form.infix_of_mem_subtexts {s t : List Char} (h : t ∈ (Form.ofText s).subtexts) :
    t <:+: s := by
  obtain ⟨name, trigger, rest, rfl, ht⟩ := exists_behind_trigger h
  exact ht.trans ((List.suffix_cons ..).trans (List.suffix_append ..)).isInfix

def HoldsOverlong (text : List Char) (digits : Nat) : Prop :=
  ∃ run, run <:+: text ∧ Digits run ∧ run.length = digits ∧ digitLimit < digits

theorem HoldsOverlong.mono {s t : List Char} {digits : Nat} (h : HoldsOverlong s digits)
    (hst : s <:+: t) : HoldsOverlong t digits := by
  obtain ⟨run, hrun, hdigits⟩ := h
  exact ⟨run, hrun.trans hst, hdigits⟩

end Line

namespace Literal

/-- Reading fails only at a run of digits that is too long. -/
theorem holdsOverlong_of_error {s : List Char} {e : Overlong} (h : readScalar s = .error e) :
    Line.HoldsOverlong s e.digits := by
  have hinteger : readInteger (Text.trim s) = .error e := by
    rw [readScalar] at h
    by_cases hk : IsKeyword (Text.trim s)
    · obtain ⟨v, hv⟩ := readTrimmed_of_keyword hk
      rw [hv] at h
      exact absurd h (by simp)
    · rw [readTrimmed_of_not_keyword hk] at h
      cases hread : readInteger (Text.trim s) with
      | error e' =>
          rw [hread] at h
          exact congrArg Except.error (Except.error.inj h)
      | ok o =>
          rw [hread] at h
          cases h
  rw [readInteger] at hinteger
  split at hinteger
  · exact absurd hinteger (by simp)
  · next n hn =>
      split at hinteger
      · exact absurd hinteger (by simp)
      split at hinteger
      · next hlimit =>
          obtain rfl : ⟨n.whole.length⟩ = e := by simpa using hinteger
          obtain ⟨htext, hlawful⟩ := Numeral.read?_spec hn
          refine ⟨n.whole, ?_, hlawful.whole, rfl, hlimit⟩
          refine List.IsInfix.trans ?_ (Text.infix_trim s)
          rw [htext, Numeral.text]
          exact ⟨n.sign.toList, _, by rw [List.append_assoc]⟩
      · exact absurd hinteger (by simp)

end Literal

theorem Line.Form.holdsOverlong {s : List Char} {digits : Nat}
    (h : Form.ofText s = .overlong digits) : HoldsOverlong s digits := by
  rw [ofText] at h
  split at h
  · next e hread =>
      obtain rfl : e.digits = digits := by simpa using h
      exact Literal.holdsOverlong_of_error hread
  · exact absurd h (by simp)
  · simp only at h
    split at h
    · exact absurd h (by simp)
    · next trigger rest _ => cases trigger <;> exact absurd h (by simp [ofTrigger])

end ObjectConsole
