import ObjectConsole.Proofs.Literal.Numeral
import ObjectConsole.Proofs.Literal.Quote
import ObjectConsole.Proofs.Text.Trim

/-!
Texts that read as a scalar. Such a text is a string in quotes, or it is
spelled with characters that mean nothing to the scanners of a line, apart
from the point of a numeral.
-/

namespace ObjectConsole.Literal

open ObjectConsole.Line (isQuote isInert isPlain isPlain_of_test isInert_of_isPlain specials Closed
  Whole Piece pieces pieces_append
  pieces_unclosed ne_backslash_of_isQuote closeQuote)
open ObjectConsole.Text (Blanks trim)

/-! ### The cases of the reader -/

def IsKeyword (s : List Char) : Prop :=
  s = "null".toList ∨ Text.lower s = "true".toList ∨ Text.lower s = "false".toList

def readQuoted (s : List Char) : Option (List Char) := (unquote '"' s).or (unquote '\'' s)

theorem readInteger_of_none {s : List Char} (h : Numeral.read? s = none) :
    readInteger s = .ok none := by
  rw [readInteger, h]

/-- A text that is no keyword is read as an integer, else as a floating-point
number, else as a string. -/
theorem readTrimmed_of_not_keyword {s : List Char} (h : ¬IsKeyword s) :
    readTrimmed s = (readInteger s).map fun
      | some (w, n) => some (.int w n)
      | none =>
        match Numeral.read? s with
        | some n => some (.float n.toFloat)
        | none => (readQuoted s).map .text := by
  rw [IsKeyword, not_or, not_or] at h
  obtain ⟨hnull, htrue, hfalse⟩ := h
  simp only [readTrimmed, if_neg hnull, if_neg htrue, if_neg hfalse]
  cases readInteger s with
  | error e => rfl
  | ok o =>
      cases o with
      | some i => rfl
      | none => cases Numeral.read? s <;> rfl

/-- A text that is neither a keyword nor a numeral is read as a string or not
at all. -/
theorem readTrimmed_of_not_numeral {s : List Char} (hk : ¬IsKeyword s)
    (hn : Numeral.read? s = none) : readTrimmed s = .ok ((readQuoted s).map .text) := by
  rw [readTrimmed_of_not_keyword hk, readInteger_of_none hn, hn]
  rfl

/-- A keyword is read as `null` or a truth value. -/
theorem readTrimmed_keyword {s : List Char} (h : IsKeyword s) :
    readTrimmed s = .ok (some .null) ∨ ∃ b, readTrimmed s = .ok (some (.bool b)) := by
  by_cases hnull : s = "null".toList
  · exact .inl (by simp only [readTrimmed, if_pos hnull]; rfl)
  by_cases htrue : Text.lower s = "true".toList
  · exact .inr ⟨true, by simp only [readTrimmed, if_neg hnull, if_pos htrue]; rfl⟩
  have hfalse : Text.lower s = "false".toList :=
    (h.resolve_left hnull).resolve_left htrue
  refine .inr ⟨false, ?_⟩
  simp only [readTrimmed, if_neg hnull, if_neg htrue, if_pos hfalse]
  rfl

/-- A keyword is read. -/
theorem readTrimmed_of_keyword {s : List Char} (h : IsKeyword s) :
    ∃ v, readTrimmed s = .ok (some v) := by
  rcases readTrimmed_keyword h with hnull | ⟨b, hb⟩
  · exact ⟨.null, hnull⟩
  · exact ⟨.bool b, hb⟩

/-- A numeral is read, unless it is an integer with too many digits. -/
theorem readTrimmed_of_numeral {s : List Char} {n : Numeral} (hn : Numeral.read? s = some n) :
    (∃ v, readTrimmed s = .ok (some v)) ∨ ∃ e, readTrimmed s = .error e := by
  by_cases hk : IsKeyword s
  · exact .inl (readTrimmed_of_keyword hk)
  rw [readTrimmed_of_not_keyword hk, hn]
  cases readInteger s with
  | error e => exact .inr ⟨e, rfl⟩
  | ok o =>
      cases o with
      | none => exact .inl ⟨.float n.toFloat, rfl⟩
      | some i => exact .inl ⟨.int i.1 i.2, rfl⟩

theorem readTrimmed_cases {s : List Char} {v : Scalar} (h : readTrimmed s = .ok (some v)) :
    IsKeyword s ∨ (∃ n, Numeral.read? s = some n) ∨
      ∃ x, readQuoted s = some x ∧ v = .text x := by
  by_cases hk : IsKeyword s
  · exact .inl hk
  cases hn : Numeral.read? s with
  | some n => exact .inr (.inl ⟨n, rfl⟩)
  | none =>
      rw [readTrimmed_of_not_numeral hk hn, Except.ok.injEq,
        Option.map_eq_some_iff] at h
      obtain ⟨x, hx, rfl⟩ := h
      exact .inr (.inr ⟨x, hx, rfl⟩)

/-! ### Strings -/

theorem unquote_eq_some {quote : Char} {s x : List Char} (h : unquote quote s = some x) :
    ∃ body, s = quote :: (body ++ [quote]) ∧ unescape quote body = some x := by
  cases s with
  | nil => exact absurd h (by simp [unquote])
  | cons c rest =>
      rw [unquote] at h
      split at h
      · next hc =>
          rw [Bool.and_eq_true, beq_iff_eq, beq_iff_eq] at hc
          obtain ⟨rfl, hlast⟩ := hc
          exact ⟨rest.dropLast, by rw [List.dropLast_append_getLast? c hlast], h⟩
      · exact absurd h (by simp)

theorem readQuoted_eq_some {s x : List Char} (h : readQuoted s = some x) :
    ∃ quote body, isQuote quote = true ∧ s = quote :: (body ++ [quote]) ∧
      unescape quote body = some x := by
  rw [readQuoted, Option.or_eq_some_iff] at h
  rcases h with h | ⟨-, h⟩
  · obtain ⟨body, hs, hbody⟩ := unquote_eq_some h
    exact ⟨'"', body, by decide, hs, hbody⟩
  · obtain ⟨body, hs, hbody⟩ := unquote_eq_some h
    exact ⟨'\'', body, by decide, hs, hbody⟩

theorem unquote_of_head_ne {quote c : Char} (h : c ≠ quote) (s : List Char) :
    unquote quote (c :: s) = none := by
  rw [unquote, if_neg (by simp [h])]

theorem readQuoted_of_head {s : List Char} (h : ∀ c ∈ s.head?, isQuote c = false) :
    readQuoted s = none := by
  cases s with
  | nil => rfl
  | cons c s =>
      have hc : isQuote c = false := h c rfl
      rw [isQuote, Bool.or_eq_false_iff, beq_eq_false_iff_ne, beq_eq_false_iff_ne] at hc
      rw [readQuoted, unquote_of_head_ne hc.1, unquote_of_head_ne hc.2]
      rfl

/-! ### Characters of the other scalars -/

theorem isPlain_of_mem_word {word : List Char}
    (hw : specials.all (fun d => !word.contains d.toLower) = true) {s : List Char}
    (h : Text.lower s = word) {c : Char} (hc : c ∈ s) : isPlain c = true := by
  refine isPlain_of_test (fun d => word.contains d.toLower) hw ?_
  rw [List.contains_iff_mem, ← h]
  exact List.mem_map_of_mem hc

/-- No scanner of lines looks for a character of a keyword. -/
theorem isPlain_of_mem_keyword {s : List Char} (h : IsKeyword s) {c : Char} (hc : c ∈ s) :
    isPlain c = true := by
  rcases h with rfl | h | h
  · have hnull : Text.lower "null".toList = "null".toList := by decide
    exact isPlain_of_mem_word (by decide) hnull hc
  · exact isPlain_of_mem_word (by decide) h hc
  · exact isPlain_of_mem_word (by decide) h hc

/-- No scanner of lines looks for a character of a numeral except the point. -/
theorem isPlain_of_isNumeralChar {c : Char} (h : isNumeralChar c = true) (hp : c ≠ '.') :
    isPlain c = true :=
  isPlain_of_test (fun d => isNumeralChar d && d != '.') (by decide) (by simp [h, hp])

theorem isInert_of_isNumeralChar {c : Char} (h : isNumeralChar c = true) : isInert c = true := by
  by_cases hp : c = '.'
  · rw [hp]
    decide
  · exact isInert_of_isPlain (isPlain_of_isNumeralChar h hp)

/-! ### Scalars in a line -/

/-- Spelled as a scalar but no string: a keyword or a numeral. -/
def IsUnquoted (s : List Char) : Prop := IsKeyword s ∨ ∃ n, Numeral.read? s = some n

theorem IsUnquoted.inert {s : List Char} (h : IsUnquoted s) : ∀ c ∈ s, isInert c = true := by
  intro c hc
  rcases h with hk | ⟨n, hn⟩
  · exact isInert_of_isPlain (isPlain_of_mem_keyword hk hc)
  · obtain ⟨htext, hlawful⟩ := Numeral.read?_spec hn
    rw [htext] at hc
    exact isInert_of_isNumeralChar (hlawful.isNumeralChar hc)

theorem readTrimmed_of_not_unquoted {s : List Char} (h : ¬IsUnquoted s) :
    readTrimmed s = .ok ((readQuoted s).map .text) := by
  rw [IsUnquoted, not_or, not_exists] at h
  exact readTrimmed_of_not_numeral h.1 (Option.eq_none_iff_forall_ne_some.2 h.2)

/-- A text that reads as a scalar is a keyword, a numeral or a string. -/
theorem readScalar_cases {s : List Char} {v : Scalar} (h : readScalar s = .ok (some v)) :
    IsUnquoted (trim s) ∨ ∃ quote body, isQuote quote = true ∧
      trim s = quote :: (body ++ [quote]) ∧ ∃ x, unescape quote body = some x := by
  rcases readTrimmed_cases h with hk | hn | ⟨x, hx, -⟩
  · exact .inl (.inl hk)
  · exact .inl (.inr hn)
  · obtain ⟨quote, body, hq, hs, hbody⟩ := readQuoted_eq_some hx
    exact .inr ⟨quote, body, hq, hs, x, hbody⟩

/-- A text that reads as a scalar is not blank. -/
theorem trim_ne_nil_of_readScalar {s : List Char} {v : Scalar} (h : readScalar s = .ok (some v)) :
    trim s ≠ [] := by
  intro hnil
  have hnone : readTrimmed [] = .ok none := rfl
  rw [readScalar, hnil, hnone] at h
  exact absurd h (by simp)

/-- A text that reads as a scalar can stand anywhere, or it is a string that
leaves its last quote open and swallows what follows it. -/
theorem whole_or_open {s : List Char} {v : Scalar} (h : readScalar s = .ok (some v)) :
    Whole s ∨ ∀ rest : List Char, (∀ c ∈ rest, isQuote c = false) →
      ∃ b u, Text.Blanks b ∧ pieces (s ++ rest) = pieces b ++ [.unclosed u] := by
  rcases readScalar_cases h with hu | ⟨quote, body, hq, hs, x, hx⟩
  · exact .inl (.of_trim (.of_inert hu.inert))
  rcases closeQuote_of_unescape (ne_backslash_of_isQuote hq) hx with hend | hgoes
  · left
    refine .of_trim ?_
    rw [hs]
    exact .quoted hq (hend [])
  · right
    intro rest hrest
    -- the scanner takes the last quote for an escaped one, and no quote follows
    obtain ⟨b, b', hb, hb', heq⟩ := Text.eq_blanks_append_trim s
    have hnot : quote ∉ b' ++ rest := by
      intro hmem
      rcases List.mem_append.1 hmem with hmem | hmem
      · have hblank : Text.isBlank quote = true := hb' quote hmem
        rw [isQuote, Bool.or_eq_true, beq_iff_eq, beq_iff_eq] at hq
        rcases hq with rfl | rfl <;> exact absurd hblank (by decide)
      · rw [hrest quote hmem] at hq
        exact absurd hq (by decide)
    have hnone : closeQuote quote (body ++ quote :: (b' ++ rest)) = none := by
      rw [hgoes, closeQuote_eq_none hnot]
      rfl
    have hsplit : s ++ rest = b ++ quote :: (body ++ quote :: (b' ++ rest)) := by
      rw [heq, hs]
      simp
    refine ⟨b, quote :: (body ++ quote :: (b' ++ rest)), hb, ?_⟩
    rw [hsplit, pieces_append (Whole.of_blanks hb).argument.closed, pieces_unclosed hq hnone]

theorem whole_of_readScalar {s : List Char} {v : Scalar} (h : readScalar s = .ok (some v))
    (hclosed : Closed s) : Whole s := by
  rcases whole_or_open h with hs | hopen
  · exact hs
  · obtain ⟨b, u, -, hpieces⟩ := hopen [] (by simp)
    rw [List.append_nil] at hpieces
    have hmem : Piece.unclosed u ∈ pieces s := by simp [hpieces]
    exact absurd (hclosed _ hmem) (by simp [Piece.isClosed])

/-- No text that reads as a scalar starts with an arrow. -/
theorem not_arrow_of_readScalar {s : List Char} {v : Scalar}
    (h : readScalar s = .ok (some v)) (rest : List Char) : trim s ≠ '-' :: '>' :: rest := by
  intro hs
  have hmem : '>' ∈ trim s := by simp [hs]
  rcases readScalar_cases h with (hk | ⟨n, hn⟩) | ⟨quote, body, hq, hs', -⟩
  · rcases hk with hk | hk | hk
    · rw [hk] at hmem
      exact absurd hmem (by decide)
    all_goals
      have hlower : Char.toLower '>' ∈ Text.lower (trim s) := List.mem_map_of_mem hmem
      rw [hk] at hlower
      exact absurd hlower (by decide)
  · obtain ⟨htext, hlawful⟩ := Numeral.read?_spec hn
    rw [htext] at hmem
    exact absurd (hlawful.isNumeralChar hmem) (by decide)
  · rw [hs', List.cons.injEq] at hs
    rw [hs.1] at hq
    exact absurd hq (by decide)

/-! ### Writing a string -/

theorem trim_of_ends {c d : Char} (hc : Text.isBlank c = false) (hd : Text.isBlank d = false)
    (s : List Char) : trim (c :: (s ++ [d])) = c :: (s ++ [d]) := by
  have h := Text.trim_split (b := []) (t := s ++ [d]) Text.blanks_nil hc
  rwa [List.nil_append, Text.trimRight_append_cons hd] at h

theorem isBlank_of_isQuote {c : Char} (h : isQuote c = true) : Text.isBlank c = false := by
  rw [isQuote, Bool.or_eq_true, beq_iff_eq, beq_iff_eq] at h
  rcases h with rfl | rfl <;> decide

theorem unquote_inQuotes (quote : Char) (s : List Char) :
    unquote quote (inQuotes quote s) = some s := by
  rw [inQuotes, unquote, if_pos (by simp), List.dropLast_concat, unescape_escape]

theorem readQuoted_inQuotes {quote : Char} (hq : isQuote quote = true) (s : List Char) :
    readQuoted (inQuotes quote s) = some s := by
  rw [isQuote, Bool.or_eq_true, beq_iff_eq, beq_iff_eq] at hq
  rcases hq with rfl | rfl
  · rw [readQuoted, unquote_inQuotes]
    rfl
  · have hother : unquote '"' (inQuotes '\'' s) = none := unquote_of_head_ne (by decide) _
    rw [readQuoted, hother, unquote_inQuotes]
    rfl

/-- What starts with a quote is spelled as no other scalar. -/
theorem not_unquoted_of_head {quote : Char} (hq : isQuote quote = true) (s : List Char) :
    ¬IsUnquoted (quote :: s) := by
  intro h
  have hinert := h.inert quote (List.mem_cons_self ..)
  rw [isInert, hq] at hinert
  exact absurd hinert (by simp)

/-- A string as written is read back. -/
theorem readScalar_inQuotes {quote : Char} (hq : isQuote quote = true) (s : List Char) :
    readScalar (inQuotes quote s) = .ok (some (.text s)) := by
  have hnot : ¬IsUnquoted (inQuotes quote s) := not_unquoted_of_head hq _
  have hblank := isBlank_of_isQuote hq
  have htrim : trim (inQuotes quote s) = inQuotes quote s := trim_of_ends hblank hblank _
  rw [readScalar, htrim, readTrimmed_of_not_unquoted hnot, readQuoted_inQuotes hq]
  rfl

/-- A string as written can stand anywhere. -/
theorem whole_inQuotes {quote : Char} (hq : isQuote quote = true) (s : List Char) :
    Whole (inQuotes quote s) :=
  .quoted hq (closeQuote_escape (ne_backslash_of_isQuote hq) s [])

end ObjectConsole.Literal
