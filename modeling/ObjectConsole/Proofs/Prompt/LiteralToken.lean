import ObjectConsole.Proofs.Literal.Ending
import ObjectConsole.Proofs.Literal.Integer
import ObjectConsole.Proofs.Prompt.Highlight

/-!
Literals under highlighting. A line without outer blanks and line ends is one
token of a string if and only if it reads as a string, and one token of a
number if and only if it reads as a number. For numbers the two share the
reader of numerals. For strings they walk over the text between the quotes each
in its own way, and they agree on every text, on one that a lone backslash ends
as well, where the scanner of lines goes on to the next quote.
-/

namespace ObjectConsole

open Line (isQuote ne_backslash_of_isQuote)
open Literal (Digits IsKeyword IsSign Numeral Scalar digitLimit readInteger readScalar
  readTrimmed unescape unquote)
open Text (trim)

variable {s : List Char} {quote : Char}

/-! ### What is read as a string or as a number -/

namespace Literal

theorem isSome_unescape_pair (hq : quote ≠ '\\') (c : Char) (s : List Char) :
    (unescape quote ('\\' :: c :: s)).isSome = (unescape quote s).isSome := by
  by_cases hc : c = quote ∨ c = '\\'
  · rw [unescape_escaped hc, Option.isSome_map]
  · rw [not_or] at hc
    rw [unescape, if_neg (by simp [hc.1, hc.2]), if_neg (by simpa using hq.symm),
      Option.isSome_map, unescape_plain hc.1 hc.2, Option.isSome_map]

theorem unescape_bare (hq : quote ≠ '\\') (s : List Char) : unescape quote (quote :: s) = none := by
  cases s with
  | nil => simp [unescape]
  | cons d s => simp [unescape, hq]

/-- A numeral has a digit, so it is no keyword. -/
theorem not_isKeyword_of_numeral {n : Numeral} (h : Numeral.read? s = some n) : ¬IsKeyword s := by
  obtain ⟨rfl, hlawful⟩ := Numeral.read?_spec h
  rcases hlawful.nonempty with hwhole | ⟨fraction, hfraction, hne⟩
  · obtain ⟨d, rest, hd⟩ := List.exists_cons_of_ne_nil hwhole
    exact not_isKeyword_of_digit (c := d) (by simp [Numeral.text, hd])
      (hlawful.whole d (by simp [hd]))
  · obtain ⟨d, rest, rfl⟩ := List.exists_cons_of_ne_nil hne
    exact not_isKeyword_of_digit (c := d)
      (by simp [Numeral.text, fractionText, Option.mem_def.1 hfraction])
      (hlawful.fraction _ hfraction d (by simp))

/-- Only a run of digits behind a sign can be too long. -/
theorem exists_of_readInteger_error {e : Overlong} (h : readInteger s = .error e) :
    ∃ sign digits, s = sign.toList ++ digits ∧ IsSign sign ∧ Digits digits ∧
      digitLimit < digits.length := by
  rw [readInteger] at h
  split at h
  · exact absurd h (by simp)
  · next n hread =>
      split at h
      · exact absurd h (by simp)
      · next hinteger =>
          split at h
          · next hlimit =>
              obtain ⟨sign, digits, fraction, power⟩ := n
              obtain ⟨rfl, rfl⟩ : fraction = none ∧ power = none := by
                simpa [Numeral.isInteger] using hinteger
              obtain ⟨htext, hlawful⟩ := Numeral.read?_spec hread
              refine ⟨sign, digits, ?_, hlawful.sign, hlawful.whole, hlimit⟩
              rw [htext]
              simp [Numeral.text, fractionText, powerText]
          · exact absurd h (by simp)

end Literal

def LiteralKind.isNumber : LiteralKind → Bool
  | .int _ | .float => true
  | _ => false

namespace Literal

/-- What a numeral is read as is a number. -/
theorem isNumber_of_readTrimmed {n : Numeral} {v : Scalar} (hn : Numeral.read? s = some n)
    (h : readTrimmed s = .ok (some v)) : v.kind.isNumber = true := by
  rw [readTrimmed_of_not_keyword (not_isKeyword_of_numeral hn), hn] at h
  cases hread : readInteger s with
  | error e =>
      rw [hread] at h
      cases h
  | ok o =>
      rw [hread] at h
      cases o <;> cases h <;> rfl

/-- A text reads as a number if and only if it is a numeral, and no integer that
is too long. -/
theorem exists_number_iff (hcount : ∀ sign digits, IsSign sign → Digits digits →
      s = sign.toList ++ digits → digits.length ≤ digitLimit) :
    (∃ v, readTrimmed s = .ok (some v) ∧ v.kind.isNumber = true) ↔
      ∃ n, Numeral.read? s = some n := by
  constructor
  · rintro ⟨v, hread, hkind⟩
    rcases readTrimmed_cases hread with hkeyword | hnumeral | ⟨x, -, rfl⟩
    · exfalso
      rcases readTrimmed_keyword hkeyword with hnull | ⟨b, hbool⟩
      · cases hnull.symm.trans hread
        exact absurd hkind (by decide)
      · cases hbool.symm.trans hread
        exact absurd hkind (by simp [Scalar.kind, LiteralKind.isNumber])
    · exact hnumeral
    · exact absurd hkind (by simp [Scalar.kind, LiteralKind.isNumber])
  · rintro ⟨n, hn⟩
    rcases readTrimmed_of_numeral hn with ⟨v, hv⟩ | ⟨e, he⟩
    · exact ⟨v, hv, isNumber_of_readTrimmed hn hv⟩
    · rw [readTrimmed_of_not_keyword (not_isKeyword_of_numeral hn)] at he
      cases hinteger : readInteger s with
      | ok o =>
          rw [hinteger] at he
          cases he
      | error e =>
          obtain ⟨sign, digits, hs, hsign, hdigits, hlimit⟩ :=
            exists_of_readInteger_error hinteger
          exact absurd (hcount sign digits hsign hdigits hs) (Nat.not_le.2 hlimit)

/-- A text reads as a string if and only if it stands between two equal quotes and
what is between them can be read. -/
theorem exists_text_iff :
    (∃ v, readTrimmed s = .ok (some v) ∧ v.kind = .text) ↔
      ∃ quote body, isQuote quote = true ∧ s = quote :: (body ++ [quote]) ∧
        (unescape quote body).isSome = true := by
  constructor
  · rintro ⟨v, hread, hkind⟩
    rcases readTrimmed_cases hread with hkeyword | ⟨n, hn⟩ | ⟨x, hx, -⟩
    · exfalso
      rcases readTrimmed_keyword hkeyword with hnull | ⟨b, hbool⟩
      · cases hnull.symm.trans hread
        cases hkind
      · cases hbool.symm.trans hread
        cases hkind
    · have hnumber := isNumber_of_readTrimmed hn hread
      rw [hkind] at hnumber
      exact absurd hnumber (by decide)
    · obtain ⟨quote, body, hq, hs, hbody⟩ := readQuoted_eq_some hx
      exact ⟨quote, body, hq, hs, Option.isSome_iff_exists.2 ⟨x, hbody⟩⟩
  · rintro ⟨quote, body, hq, rfl, hbody⟩
    obtain ⟨x, hx⟩ := Option.isSome_iff_exists.1 hbody
    have hblank := isBlank_of_isQuote hq
    have htrim := trim_of_ends hblank hblank body
    have hread := readScalar_of_quote hq htrim
    rw [readScalar, htrim, unquote_concat, hx] at hread
    exact ⟨_, hread, rfl⟩

end Literal

theorem Reading.scalar?_eq_some_iff {r : Reading} :
    scalar? s = .ok (some r) ↔ ∃ v, readScalar s = .ok (some v) ∧ ofScalar v = r := by
  rw [scalar?]
  cases readScalar s with
  | error e => simp
  | ok o => simp [Option.map_eq_some_iff]

namespace Prompt

/-! ### The two walks between quotes -/

/-- In a text without line ends the token of a string runs on to its last quote if
and only if the reader accepts what stands before that quote. -/
theorem quotedRest_concat_iff (hq : isQuote quote = true) {body : List Char}
    (hline : '\n' ∉ body) :
    quotedRest quote (body ++ [quote]) = (body ++ [quote], []) ↔
      (unescape quote body).isSome = true := by
  have hb := ne_backslash_of_isQuote hq
  induction body using Literal.content_induction quote with
  | nil => simp [quotedRest_self hb, unescape]
  | lone =>
      -- the token takes the last quote for an escaped one, and ends with it all the same
      have hend : quote ≠ '\n' := by
        rintro rfl
        exact absurd hq (by decide)
      simp [quotedRest, unescape, hend, hb.symm]
  | pair c s ih =>
      rw [List.mem_cons, List.mem_cons, not_or, not_or] at hline
      rw [Literal.isSome_unescape_pair hb]
      refine Iff.trans ?_ (ih hline.2.2)
      rw [List.cons_append, List.cons_append, quotedRest_pair (Ne.symm hline.2.1)]
      simp [Prod.ext_iff]
  | bare s => simp [Literal.unescape_bare hb, quotedRest_self hb]
  | plain c s hc hbc ih =>
      rw [List.mem_cons, not_or] at hline
      rw [Literal.unescape_plain hc hbc, Option.isSome_map]
      refine Iff.trans ?_ (ih hline.2)
      rw [List.cons_append, quotedRest_plain hc hbc]
      simp [Prod.ext_iff]

/-! ### Lines of one token -/

theorem cut_singleton_iff {g : Group} :
    Cut s [⟨g, s⟩] ↔ ∃ kind, firstMatch? s = some (kind, s, []) ∧ kind.group s [] = g := by
  constructor
  · -- the text is an index of the cut and stands in its token too, so the token is named first
    intro h
    generalize hts : [(⟨g, s⟩ : Token)] = ts at h
    cases h with
    | done => exact absurd hts (by simp)
    | @token s' kind text after ts hmatch hrest =>
        obtain ⟨htoken, rfl⟩ := List.cons.inj hts
        obtain ⟨rfl, rfl⟩ := Token.mk.inj htoken
        cases hrest with
        | done => exact ⟨kind, hmatch, rfl⟩
  · rintro ⟨kind, hmatch, rfl⟩
    exact .token hmatch .done

/-- A line with no slash at its front is one token of a group if and only if the
first kind that matches takes the whole line. -/
theorem classify_eq_singleton_iff {g : Group} (hg : g ≠ .command) :
    classify s = [⟨g, s⟩] ↔ (Text.trimLeft s).head? ≠ some '/' ∧
      ∃ kind, firstMatch? s = some (kind, s, []) ∧ kind.group s [] = g := by
  rw [classify, ← cut_singleton_iff]
  split
  · next hslash =>
      refine ⟨fun h => absurd (Token.mk.inj (List.cons.inj h).1).1 hg.symm, fun h => ?_⟩
      exact absurd (eq_of_beq hslash) h.1
  · next hslash =>
      obtain ⟨ts, hts⟩ := exists_cut s
      rw [hts.tokens_eq le_rfl]
      refine ⟨fun h => ⟨by simpa using hslash, h ▸ hts⟩, fun h => ?_⟩
      rw [← hts.tokens_eq le_rfl, h.2.tokens_eq le_rfl]

theorem head_trimLeft {c : Char} (h : Text.isBlank c = false) (s : List Char) :
    (Text.trimLeft (c :: s)).head? = some c := by
  rw [Text.trimLeft, List.dropWhile_cons_of_neg (by simp [h])]
  rfl

theorem firstMatch?_of_quote (hq : isQuote quote = true) (rest : List Char) :
    firstMatch? (quote :: rest) =
      some (.quoted, quote :: (quotedRest quote rest).1, (quotedRest quote rest).2) := by
  have harrow : takeArrow? (quote :: rest) = none := by
    unfold takeArrow?
    split
    · next h =>
        rw [(List.cons.inj h).1] at hq
        exact absurd hq (by decide)
    · rfl
  simp [firstMatch?, TokenKind.all, TokenKind.take?, harrow, takeQuoted?, hq]

theorem isQuote_of_isNumeralChar {c : Char} (h : Literal.isNumeralChar c = true) :
    isQuote c = false := by
  have hinert := Literal.isInert_of_isNumeralChar h
  simp only [Line.isInert, Bool.not_eq_true', Bool.or_eq_false_iff] at hinert
  exact hinert.1.1.1.1.1

/-- A numeral is neither an arrow nor a string, so its token is that of a number. -/
theorem firstMatch?_of_numeral {n : Numeral} {after : List Char}
    (h : Numeral.take? s = some (n, after)) :
    firstMatch? s = some (.number, n.text, after) := by
  have harrow : takeArrow? s = none := by
    unfold takeArrow?
    split
    · cases h
    · rfl
  have hquoted : takeQuoted? s = none := by
    obtain ⟨hs, hlawful⟩ := Numeral.take?_spec h
    obtain ⟨c, rest, htext, hc⟩ := Literal.exists_head_text hlawful
    rw [← hs, htext, List.cons_append, takeQuoted?, if_neg (by simp [isQuote_of_isNumeralChar hc])]
  have hnumber : takeNumber? s = some (n.text, after) := takeNumber?_eq_some.2 ⟨n, h, rfl⟩
  simp [firstMatch?, TokenKind.all, TokenKind.take?, harrow, hquoted, hnumber]

/-- A line is one string for highlighting if and only if it stands between two equal
quotes and the token runs on to the second one. -/
theorem classify_eq_string_iff :
    classify s = [⟨.string, s⟩] ↔
      ∃ quote body, isQuote quote = true ∧ s = quote :: (body ++ [quote]) ∧
        quotedRest quote (body ++ [quote]) = (body ++ [quote], []) := by
  rw [classify_eq_singleton_iff (by decide)]
  constructor
  · rintro ⟨-, kind, hmatch, hgroup⟩
    obtain rfl := TokenKind.eq_quoted_of_group (.inl hgroup)
    obtain ⟨quote, rest, rfl, hq, htext, hafter⟩ :=
      takeQuoted?_eq_some.1 (take?_of_firstMatch? hmatch)
    have hlast : rest.getLast? = some quote := by
      by_contra hlast
      rw [TokenKind.group, endsWithQuote, if_neg (by simpa using hlast)] at hgroup
      cases hgroup
    obtain ⟨body, rfl⟩ := List.getLast?_eq_some_iff.1 hlast
    exact ⟨quote, body, hq, rfl, Prod.ext (List.cons.inj htext).2.symm hafter.symm⟩
  · rintro ⟨quote, body, hq, rfl, hrest⟩
    have hmatch := firstMatch?_of_quote hq (body ++ [quote])
    rw [hrest] at hmatch
    refine ⟨?_, .quoted, hmatch, ?_⟩
    · rw [head_trimLeft (Literal.isBlank_of_isQuote hq)]
      intro hslash
      rw [Option.some.inj hslash] at hq
      exact absurd hq (by decide)
    · rw [TokenKind.group, endsWithQuote, List.getLast?_concat, beq_self_eq_true, if_pos rfl]

/-- A line is one number for highlighting if and only if it is a numeral. -/
theorem classify_eq_number_iff :
    classify s = [⟨.number, s⟩] ↔ ∃ n, Numeral.read? s = some n := by
  rw [classify_eq_singleton_iff (by decide)]
  constructor
  · rintro ⟨-, kind, hmatch, hgroup⟩
    have hkind : kind = .number := by
      cases kind with
      | number => rfl
      | quoted =>
          rw [TokenKind.group] at hgroup
          split at hgroup <;> cases hgroup
      | name =>
          rw [TokenKind.group] at hgroup
          rcases nameGroup_cases s [] with h | h | h <;> simp [h] at hgroup
      | navigation | trigger | punctuation | blanks => cases hgroup
    subst hkind
    obtain ⟨n, hn, -⟩ := takeNumber?_eq_some.1 (take?_of_firstMatch? hmatch)
    exact ⟨n, Numeral.read?_eq_some.2 hn⟩
  · rintro ⟨n, hn⟩
    obtain ⟨rfl, hlawful⟩ := Numeral.read?_spec hn
    obtain ⟨c, rest, htext, hc⟩ := Literal.exists_head_text hlawful
    refine ⟨?_, .number, firstMatch?_of_numeral (Numeral.read?_eq_some.1 hn), rfl⟩
    rw [htext, head_trimLeft (Literal.isBlank_of_isNumeralChar hc)]
    intro hslash
    rw [Option.some.inj hslash] at hc
    exact absurd hc (by decide)

/-! ### The agreement -/

/-- Highlighting and the reader agree on literals. A text without line ends and
outer blanks that is no integer of too many digits is one token of a string if
and only if it reads as a string, and one token of a number if and only if it
reads as an integer or a floating-point number. -/
theorem classify_agrees {text : List Char} (hline : '\n' ∉ text) (htrim : trim text = text)
    (hcount : ∀ sign digits, IsSign sign → Digits digits → text = sign.toList ++ digits →
      digits.length ≤ digitLimit) :
    (classify text = [⟨.string, text⟩] ↔
        ∃ r, Reading.scalar? text = .ok (some r) ∧ r.kind = .text) ∧
      (classify text = [⟨.number, text⟩] ↔
        ∃ r, Reading.scalar? text = .ok (some r) ∧ r.kind.isNumber = true) := by
  have hread (P : LiteralKind → Prop) : (∃ r, Reading.scalar? text = .ok (some r) ∧ P r.kind) ↔
      ∃ v, readTrimmed text = .ok (some v) ∧ P v.kind := by
    simp only [Reading.scalar?_eq_some_iff, readScalar, htrim]
    constructor
    · rintro ⟨_, ⟨v, hv, rfl⟩, hkind⟩
      exact ⟨v, hv, hkind⟩
    · rintro ⟨v, hv, hkind⟩
      exact ⟨_, ⟨v, hv, rfl⟩, hkind⟩
  constructor
  · rw [hread (· = .text), Literal.exists_text_iff, classify_eq_string_iff]
    refine exists_congr fun quote => exists_congr fun body => and_congr_right fun hq =>
      and_congr_right fun htext => quotedRest_concat_iff hq ?_
    rw [htext] at hline
    simp only [List.mem_cons, List.mem_append, not_or] at hline
    exact hline.2.1
  · rw [hread (·.isNumber = true), Literal.exists_number_iff hcount, classify_eq_number_iff]

/-- A string that ends in a lone backslash, and a number in every form at once: a sign,
a point and a power. -/
theorem classify_agrees_lone_backslash :
    (∃ r, Reading.scalar? "\"a\\\"".toList = .ok (some r) ∧ r.kind = .text) ∧
      ∃ r, Reading.scalar? "-.5e+3".toList = .ok (some r) ∧ r.kind.isNumber = true := by
  have hshort (text : List Char) (htext : text.length ≤ 4300) (sign : Option Char)
      (digits : List Char) (_ : IsSign sign) (_ : Digits digits)
      (h : text = sign.toList ++ digits) : digits.length ≤ digitLimit := by
    have hlength := congrArg List.length h
    rw [List.length_append] at hlength
    rw [digitLimit]
    omega
  exact ⟨(@classify_agrees "\"a\\\"".toList (by decide) (by decide)
      (hshort _ (by decide))).1.1 (by decide),
    (@classify_agrees "-.5e+3".toList (by decide) (by decide) (hshort _ (by decide))).2.1
      (by decide)⟩

end Prompt

end ObjectConsole
