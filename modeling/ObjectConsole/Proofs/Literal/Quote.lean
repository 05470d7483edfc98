import ObjectConsole.Literal.Scalar
import ObjectConsole.Proofs.Line.Balance

/-!
Strings in quotes. The reader of literals undoes escapes between the outer
quotes of a text; the scanner of lines looks for the quote that closes a
region. The two agree on where a string ends, except for one that ends in a
lone backslash: the reader takes the backslash for itself, the scanner takes
the closing quote for an escaped one.
-/

namespace ObjectConsole.Literal

open ObjectConsole.Line (isQuote closeQuote ne_backslash_of_isQuote)

variable {quote : Char}

/-! ### Steps of the two readers -/

theorem unescape_plain {c : Char} (hc : c ≠ quote) (hb : c ≠ '\\') (s : List Char) :
    unescape quote (c :: s) = (unescape quote s).map (c :: ·) := by
  cases s with
  | nil => simp [unescape, hc]
  | cons d s => simp [unescape, hc, hb]

theorem unescape_escaped {c : Char} (hc : c = quote ∨ c = '\\') (s : List Char) :
    unescape quote ('\\' :: c :: s) = (unescape quote s).map (c :: ·) := by
  rw [unescape, if_pos (by simpa using hc)]

/-- Behind a pair that starts with a backslash, the reader goes on. -/
theorem unescape_pair (hq : quote ≠ '\\') {c : Char} {s x : List Char}
    (h : unescape quote ('\\' :: c :: s) = some x) : ∃ y, unescape quote s = some y := by
  by_cases hc : c = quote ∨ c = '\\'
  · rw [unescape_escaped hc, Option.map_eq_some_iff] at h
    obtain ⟨y, hy, -⟩ := h
    exact ⟨y, hy⟩
  · rw [not_or] at hc
    rw [unescape, if_neg (by simp [hc.1, hc.2]), if_neg (by simpa using hq.symm),
      unescape_plain hc.1 hc.2, Option.map_map, Option.map_eq_some_iff] at h
    obtain ⟨y, hy, -⟩ := h
    exact ⟨y, hy⟩

theorem closeQuote_pair (c : Char) (s : List Char) :
    closeQuote quote ('\\' :: c :: s) =
      (closeQuote quote s).map fun p => ('\\' :: c :: p.1, p.2) := by
  rw [closeQuote]

theorem closeQuote_self (hq : quote ≠ '\\') (s : List Char) :
    closeQuote quote (quote :: s) = some ([quote], s) := by
  rw [closeQuote, if_pos (beq_self_eq_true quote)]
  intro d r hd
  exact absurd hd hq

theorem closeQuote_plain {c : Char} (hc : c ≠ quote) (hb : c ≠ '\\') (s : List Char) :
    closeQuote quote (c :: s) = (closeQuote quote s).map fun p => (c :: p.1, p.2) := by
  rw [closeQuote, if_neg (by simpa using hc)]
  intro d r hd
  exact absurd hd hb

theorem closeQuote_eq_none {s : List Char} (h : quote ∉ s) : closeQuote quote s = none := by
  fun_induction closeQuote quote s with
  | case1 => rfl
  | case2 c rest ih =>
      rw [ih fun hmem => h (List.mem_cons_of_mem _ (List.mem_cons_of_mem _ hmem))]
      rfl
  | case3 c rest _ hc =>
      rw [eq_of_beq hc] at h
      exact absurd (List.mem_cons_self ..) h
  | case4 c rest _ hc ih =>
      rw [ih fun hmem => h (List.mem_cons_of_mem _ hmem)]
      rfl

/-! ### Where a string ends -/

/-- A string that is read either ends for the scanner where it ends for the
reader, or goes on to the next quote behind it. -/
theorem closeQuote_of_unescape (hq : quote ≠ '\\') {body x : List Char}
    (h : unescape quote body = some x) :
    (∀ rest, closeQuote quote (body ++ quote :: rest) = some (body ++ [quote], rest)) ∨
      ∀ rest, closeQuote quote (body ++ quote :: rest) =
        (closeQuote quote rest).map fun p => (body ++ quote :: p.1, p.2) := by
  fun_induction closeQuote quote body generalizing x with
  | case1 => exact .inl fun rest => closeQuote_self hq rest
  | case2 c s ih =>
      obtain ⟨y, hy⟩ := unescape_pair hq h
      rcases ih hy with hs | hs
      · left
        intro rest
        rw [List.cons_append, List.cons_append, closeQuote_pair, hs]
        rfl
      · right
        intro rest
        rw [List.cons_append, List.cons_append, closeQuote_pair, hs, Option.map_map]
        rfl
  | case3 c s hpair hc =>
      rw [eq_of_beq hc] at h
      cases s with
      | nil => simp [unescape] at h
      | cons d s => simp [unescape, hq] at h
  | case4 c s hpair hc ih =>
      have hc : c ≠ quote := by simpa using hc
      by_cases hb : c = '\\'
      · have hs : s = [] := by
          cases s with
          | nil => rfl
          | cons d s => exact absurd rfl (hpair d s hb)
        subst hb hs
        right
        intro rest
        exact closeQuote_pair quote rest
      · rw [unescape_plain hc hb, Option.map_eq_some_iff] at h
        obtain ⟨y, hy, -⟩ := h
        rcases ih hy with hs | hs
        · left
          intro rest
          rw [List.cons_append, closeQuote_plain hc hb, hs]
          rfl
        · right
          intro rest
          rw [List.cons_append, closeQuote_plain hc hb, hs, Option.map_map]
          rfl

/-! ### Writing a string -/

def escape (quote : Char) (s : List Char) : List Char :=
  s.flatMap fun c => if c = quote ∨ c = '\\' then ['\\', c] else [c]

def inQuotes (quote : Char) (s : List Char) : List Char := quote :: (escape quote s ++ [quote])

theorem escape_cons_special {c : Char} (hc : c = quote ∨ c = '\\') (s : List Char) :
    escape quote (c :: s) = '\\' :: c :: escape quote s := by
  rw [escape, List.flatMap_cons, if_pos hc]
  rfl

theorem escape_cons_plain {c : Char} (hc : ¬(c = quote ∨ c = '\\')) (s : List Char) :
    escape quote (c :: s) = c :: escape quote s := by
  rw [escape, List.flatMap_cons, if_neg hc]
  rfl

/-- Escaping is undone by the reader. -/
theorem unescape_escape (quote : Char) (s : List Char) :
    unescape quote (escape quote s) = some s := by
  induction s with
  | nil => rfl
  | cons c s ih =>
      by_cases hc : c = quote ∨ c = '\\'
      · rw [escape_cons_special hc, unescape_escaped hc, ih]
        rfl
      · rw [escape_cons_plain hc]
        rw [not_or] at hc
        rw [unescape_plain hc.1 hc.2, ih]
        rfl

/-- The scanner finds the end of an escaped text. -/
theorem closeQuote_escape (hq : quote ≠ '\\') (s rest : List Char) :
    closeQuote quote (escape quote s ++ quote :: rest) =
      some (escape quote s ++ [quote], rest) := by
  induction s with
  | nil => exact closeQuote_self hq rest
  | cons c s ih =>
      by_cases hc : c = quote ∨ c = '\\'
      · rw [escape_cons_special hc, List.cons_append, List.cons_append, closeQuote_pair, ih]
        rfl
      · rw [escape_cons_plain hc, List.cons_append]
        rw [not_or] at hc
        rw [closeQuote_plain hc.1 hc.2, ih]
        rfl

end ObjectConsole.Literal
