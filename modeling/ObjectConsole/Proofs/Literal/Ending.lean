import ObjectConsole.Proofs.Literal.Scalar

/-!
Where a string ends. The reader of literals and the scanner of lines walk over
a text in quotes each in its own way. They agree on which texts are one string
from the first character to the last, with one exception: a backslash that
stands alone before the last quote is a character for the reader and escapes
the quote for the scanner.
-/

namespace ObjectConsole.Literal

open ObjectConsole.Line (isInert isQuote closeQuote ne_backslash_of_isQuote)
open ObjectConsole.Text (trim)

variable {quote : Char}

/-- The steps of a walk over a text between quotes: a pair that starts with a
backslash, a lone backslash at the end, a bare quote, any other character. -/
@[elab_as_elim]
theorem content_induction (quote : Char) {motive : List Char → Prop} (nil : motive [])
    (lone : motive ['\\']) (pair : ∀ c s, motive s → motive ('\\' :: c :: s))
    (bare : ∀ s, motive (quote :: s))
    (plain : ∀ c s, c ≠ quote → c ≠ '\\' → motive s → motive (c :: s)) (s : List Char) :
    motive s := by
  fun_induction closeQuote quote s with
  | case1 => exact nil
  | case2 c s ih => exact pair c s ih
  | case3 c s _ hc =>
      rw [eq_of_beq hc]
      exact bare s
  | case4 c s hpair hc ih =>
      by_cases hb : c = '\\'
      · cases s with
        | nil =>
            rw [hb]
            exact lone
        | cons d s => exact absurd rfl (hpair d s hb)
      · exact plain c s (by simpa using hc) hb ih

/-! ### What can stand between two quotes -/

/-- Behind an opening quote and this text, the next quote closes the region. -/
def IsContent (quote : Char) (body : List Char) : Prop :=
  closeQuote quote (body ++ [quote]) = some (body ++ [quote], [])

theorem isContent_nil (hq : quote ≠ '\\') : IsContent quote [] := closeQuote_self hq []

theorem isContent_pair (c : Char) (s : List Char) :
    IsContent quote ('\\' :: c :: s) ↔ IsContent quote s := by
  rw [IsContent, IsContent, List.cons_append, List.cons_append, closeQuote_pair]
  cases closeQuote quote (s ++ [quote]) with
  | none => simp
  | some p => simp [Prod.ext_iff]

theorem isContent_plain {c : Char} (hc : c ≠ quote) (hb : c ≠ '\\') (s : List Char) :
    IsContent quote (c :: s) ↔ IsContent quote s := by
  rw [IsContent, IsContent, List.cons_append, closeQuote_plain hc hb]
  cases closeQuote quote (s ++ [quote]) with
  | none => simp
  | some p => simp [Prod.ext_iff]

theorem not_isContent_bare (hq : quote ≠ '\\') (s : List Char) :
    ¬IsContent quote (quote :: s) := by
  rw [IsContent, List.cons_append, closeQuote_self hq]
  simp

theorem not_isContent_lone : ¬IsContent quote ['\\'] := by
  rw [IsContent, List.cons_append, List.nil_append, closeQuote_pair]
  simp [closeQuote]

/-- What the scanner cuts out of a line ends with the quote. -/
theorem exists_of_closeQuote {s region after : List Char}
    (h : closeQuote quote s = some (region, after)) : ∃ body, region = body ++ [quote] := by
  fun_induction closeQuote quote s generalizing region with
  | case1 => simp at h
  | case2 c s ih =>
      obtain ⟨⟨r, a⟩, hr, he⟩ := Option.map_eq_some_iff.1 h
      rw [Prod.mk.injEq] at he
      obtain ⟨rfl, rfl⟩ := he
      obtain ⟨body, hbody⟩ := ih hr
      exact ⟨'\\' :: c :: body, by rw [hbody]; rfl⟩
  | case3 c s _ hc =>
      rw [eq_of_beq hc, Option.some.injEq, Prod.mk.injEq] at h
      exact ⟨[], h.1.symm⟩
  | case4 c s _ _ ih =>
      obtain ⟨⟨r, a⟩, hr, he⟩ := Option.map_eq_some_iff.1 h
      rw [Prod.mk.injEq] at he
      obtain ⟨rfl, rfl⟩ := he
      obtain ⟨body, hbody⟩ := ih hr
      exact ⟨c :: body, by rw [hbody]; rfl⟩

/-- The reader passes over what can stand between two quotes and goes on
behind it. -/
theorem IsContent.unescape_append (hq : quote ≠ '\\') {body : List Char}
    (h : IsContent quote body) :
    ∃ x, ∀ rest, unescape quote (body ++ rest) = (unescape quote rest).map (x ++ ·) := by
  induction body using content_induction quote with
  | nil => exact ⟨[], fun rest => by simp⟩
  | lone => exact absurd h not_isContent_lone
  | bare s => exact absurd h (not_isContent_bare hq s)
  | pair c s ih =>
      obtain ⟨x, hx⟩ := ih ((isContent_pair c s).1 h)
      refine ⟨if c = quote ∨ c = '\\' then c :: x else '\\' :: c :: x, fun rest => ?_⟩
      rw [List.cons_append, List.cons_append]
      split
      · next hc =>
          rw [unescape_escaped hc, hx, Option.map_map]
          rfl
      · next hc =>
          -- the backslash and the character behind it both stand for themselves
          rw [not_or] at hc
          rw [unescape, if_neg (by simp [hc.1, hc.2]), if_neg (by simpa using hq.symm),
            unescape_plain hc.1 hc.2, hx, Option.map_map, Option.map_map]
          rfl
  | plain c s hc hb ih =>
      obtain ⟨x, hx⟩ := ih ((isContent_plain hc hb s).1 h)
      refine ⟨c :: x, fun rest => ?_⟩
      rw [List.cons_append, unescape_plain hc hb, hx, Option.map_map]
      rfl

/-- What the reader takes can stand between two quotes, but for a lone
backslash at its end. -/
theorem isContent_of_unescape (hq : quote ≠ '\\') {body x : List Char}
    (h : unescape quote body = some x) :
    IsContent quote body ∨ ∃ front, body = front ++ ['\\'] ∧ IsContent quote front := by
  induction body using content_induction quote generalizing x with
  | nil => exact .inl (isContent_nil hq)
  | lone => exact .inr ⟨[], rfl, isContent_nil hq⟩
  | bare s =>
      cases s with
      | nil => simp [unescape] at h
      | cons d s => simp [unescape, hq] at h
  | pair c s ih =>
      obtain ⟨y, hy⟩ := unescape_pair hq h
      apply (ih hy).imp (isContent_pair c s).2
      rintro ⟨front, rfl, hfront⟩
      exact ⟨'\\' :: c :: front, rfl, (isContent_pair c front).2 hfront⟩
  | plain c s hc hb ih =>
      rw [unescape_plain hc hb, Option.map_eq_some_iff] at h
      obtain ⟨y, hy, -⟩ := h
      apply (ih hy).imp (isContent_plain hc hb s).2
      rintro ⟨front, rfl, hfront⟩
      exact ⟨c :: front, rfl, (isContent_plain hc hb front).2 hfront⟩

/-- Behind a lone backslash the quote is passed over, and none is left. -/
theorem IsContent.closeQuote_lone (hq : quote ≠ '\\') {front : List Char}
    (h : IsContent quote front) : closeQuote quote (front ++ ['\\', quote]) = none := by
  induction front using content_induction quote with
  | nil => rfl
  | lone => exact absurd h not_isContent_lone
  | bare s => exact absurd h (not_isContent_bare hq s)
  | pair c s ih =>
      rw [List.cons_append, List.cons_append, closeQuote_pair, ih ((isContent_pair c s).1 h)]
      rfl
  | plain c s hc hb ih =>
      rw [List.cons_append, closeQuote_plain hc hb, ih ((isContent_plain hc hb s).1 h)]
      rfl

/-! ### Which texts are one string -/

theorem unquote_concat (body : List Char) :
    unquote quote (quote :: (body ++ [quote])) = unescape quote body := by
  rw [unquote, if_pos (by simp), List.dropLast_concat]

theorem readScalar_of_quote (hq : isQuote quote = true) {rest : List Char}
    (htrim : trim (quote :: rest) = quote :: rest) :
    readScalar (quote :: rest) = .ok ((unquote quote (quote :: rest)).map .text) := by
  rw [readScalar, htrim, readTrimmed_of_not_unquoted (not_unquoted_of_head hq rest), readQuoted]
  rw [isQuote, Bool.or_eq_true, beq_iff_eq, beq_iff_eq] at hq
  rcases hq with rfl | rfl
  · have hother : unquote '\'' ('"' :: rest) = none := unquote_of_head_ne (by decide) rest
    rw [hother, Option.or_none]
  · have hother : unquote '"' ('\'' :: rest) = none := unquote_of_head_ne (by decide) rest
    rw [hother, Option.none_or]

/-- A text that starts with a quote reads as a string if and only if the
scanner closes that quote at its last character, or finds no end because a
lone backslash stands before the last quote. -/
theorem readScalar_text_iff (hq : isQuote quote = true) {rest : List Char}
    (htrim : trim (quote :: rest) = quote :: rest) :
    (∃ x, readScalar (quote :: rest) = .ok (some (.text x))) ↔
      closeQuote quote rest = some (rest, []) ∨
        closeQuote quote rest = none ∧ ∃ front, rest = front ++ ['\\', quote] ∧
          closeQuote quote (front ++ [quote]) = some (front ++ [quote], []) := by
  have hb := ne_backslash_of_isQuote hq
  rw [readScalar_of_quote hq htrim]
  constructor
  · rintro ⟨x, hx⟩
    rw [Except.ok.injEq, Option.map_eq_some_iff] at hx
    obtain ⟨y, hy, -⟩ := hx
    obtain ⟨body, hs, hbody⟩ := unquote_eq_some hy
    rw [List.cons.injEq] at hs
    rw [hs.2]
    rcases isContent_of_unescape hb hbody with hc | ⟨front, rfl, hfront⟩
    · exact .inl hc
    · refine .inr ⟨?_, front, by simp, hfront⟩
      rw [List.append_assoc]
      exact hfront.closeQuote_lone hb
  · rintro (hclose | ⟨-, front, rfl, hfront⟩)
    · obtain ⟨body, rfl⟩ := exists_of_closeQuote hclose
      obtain ⟨x, hx⟩ := IsContent.unescape_append hb hclose
      refine ⟨x, ?_⟩
      rw [unquote_concat, ← List.append_nil body, hx []]
      simp [unescape]
    · obtain ⟨x, hx⟩ := IsContent.unescape_append hb hfront
      have hsplit : front ++ ['\\', quote] = (front ++ ['\\']) ++ [quote] := by simp
      refine ⟨x ++ ['\\'], ?_⟩
      rw [hsplit, unquote_concat, hx]
      simp [unescape, hb.symm]

/-- The two disagree on a letter and a backslash between quotes: they read as
a string, and the scanner finds no end of it. -/
theorem readScalar_loneBackslash :
    (∃ x, readScalar "\"a\\\"".toList = .ok (some (.text x))) ∧
      closeQuote '"' "a\\\"".toList = none :=
  ⟨(@readScalar_text_iff '"' (by decide) "a\\\"".toList (by decide)).2
    (.inr ⟨by decide, ['a'], by decide, by decide⟩), by decide⟩

/-! ### Texts that end in a bracket -/

theorem isUnquoted_of_error {s : List Char} {e : Overlong} (h : readScalar s = .error e) :
    IsUnquoted (trim s) := by
  by_cases hk : IsKeyword (trim s)
  · exact .inl hk
  cases hn : Numeral.read? (trim s) with
  | some n => exact .inr ⟨n, hn⟩
  | none =>
      rw [readScalar, readTrimmed_of_not_numeral hk hn] at h
      exact absurd h (by simp)

/-- A scalar ends in a quote, or in a character that no scanner of brackets
looks for. -/
theorem readScalar_of_last {s : List Char} {c : Char} (hlast : (trim s).getLast? = some c)
    (hquote : isQuote c = false) (hinert : isInert c = false) : readScalar s = .ok none := by
  have hmem : c ∈ trim s := List.mem_of_getLast? hlast
  have hunquoted : ¬IsUnquoted (trim s) := by
    intro hu
    exact absurd (hu.inert c hmem) (by simp [hinert])
  cases h : readScalar s with
  | error e => exact absurd (isUnquoted_of_error h) hunquoted
  | ok o =>
      cases o with
      | none => rfl
      | some v =>
          rcases readScalar_cases h with hu | ⟨quote, body, hq, hs, -⟩
          · exact absurd hu hunquoted
          · rw [hs, ← List.cons_append, List.getLast?_concat, Option.some.injEq] at hlast
            rw [hlast, hquote] at hq
            exact absurd hq (by decide)

end ObjectConsole.Literal
