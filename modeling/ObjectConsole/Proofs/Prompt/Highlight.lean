import ObjectConsole.Prompt.Highlight
import ObjectConsole.Proofs.Literal.Scalar

/-!
What highlighting does to a line. Every character begins a token of some kind,
and a token of any kind takes at least one character. So the rounds over a line
come to an end, no round is left without a token, and nothing of the line is
lost or added. An error is a string that is not closed, and nothing else.
-/

namespace ObjectConsole.Prompt

open Line (closeQuote isQuote)
open Literal (Numeral)

variable {kind : TokenKind} {s text after : List Char} {quote : Char}

/-! ### Tokens of one kind -/

theorem quotedRest_append (quote : Char) (s : List Char) :
    (quotedRest quote s).1 ++ (quotedRest quote s).2 = s := by
  fun_induction quotedRest quote s with
  | case1 => rfl
  | case2 => rfl
  | case3 c rest _ text after hrest ih =>
      rw [hrest] at ih
      rw [List.cons_append, List.cons_append, ih]
  | case4 => rfl
  | case5 => rfl
  | case6 c rest _ _ _ text after hrest ih =>
      rw [hrest] at ih
      rw [List.cons_append, ih]

theorem quotedRest_pair {c : Char} (hc : c ≠ '\n') (s : List Char) :
    quotedRest quote ('\\' :: c :: s) =
      ('\\' :: c :: (quotedRest quote s).1, (quotedRest quote s).2) := by
  rw [quotedRest, if_neg (by simpa using hc)]

theorem quotedRest_self (hq : quote ≠ '\\') (s : List Char) :
    quotedRest quote (quote :: s) = ([quote], s) := by
  rw [quotedRest, if_pos (beq_self_eq_true quote)]
  · exact fun _ _ hd => absurd hd hq
  · exact fun hd => absurd hd hq

theorem quotedRest_plain {c : Char} (hc : c ≠ quote) (hb : c ≠ '\\') (s : List Char) :
    quotedRest quote (c :: s) = (c :: (quotedRest quote s).1, (quotedRest quote s).2) := by
  rw [quotedRest, if_neg (by simpa using hc)]
  · exact fun _ _ hd => absurd hd hb
  · exact fun hd => absurd hd hb

/-- A quoted token ends with its quote, or it is not closed. -/
theorem getLast?_or_closeQuote (quote : Char) (s : List Char) :
    (quotedRest quote s).1.getLast? = some quote ∨
      closeQuote quote (quotedRest quote s).1 = none := by
  have longer {c : Char} {text : List Char} (h : text.getLast? = some quote) :
      (c :: text).getLast? = some quote := by
    rw [List.getLast?_cons, h, Option.getD_some]
  fun_induction quotedRest quote s with
  | case1 => exact .inr rfl
  | case2 => exact .inr rfl
  | case3 c rest _ text after hrest ih =>
      rw [hrest] at ih
      refine ih.imp (fun h => longer (longer h)) fun h => ?_
      rw [Literal.closeQuote_pair, h]
      rfl
  | case4 => exact .inr rfl
  | case5 c rest _ _ hc => exact .inl (by rw [eq_of_beq hc]; rfl)
  | case6 c rest hpair hlone hc text after hrest ih =>
      have hb : c ≠ '\\' := by
        rintro rfl
        cases rest with
        | nil => exact hlone rfl rfl
        | cons d rest => exact hpair d rest rfl rfl
      rw [hrest] at ih
      refine ih.imp longer fun h => ?_
      rw [Literal.closeQuote_plain (by simpa using hc) hb, h]
      rfl

theorem takeQuoted?_eq_some :
    takeQuoted? s = some (text, after) ↔
      ∃ quote rest, s = quote :: rest ∧ isQuote quote = true ∧
        text = quote :: (quotedRest quote rest).1 ∧ after = (quotedRest quote rest).2 := by
  cases s with
  | nil => simp [takeQuoted?]
  | cons c rest =>
      rw [takeQuoted?]
      split
      · next hc =>
          rw [Option.some.injEq, Prod.mk.injEq]
          constructor
          · rintro ⟨rfl, rfl⟩
            exact ⟨c, rest, rfl, hc, rfl, rfl⟩
          · rintro ⟨quote, rest', heq, -, rfl, rfl⟩
            obtain ⟨rfl, rfl⟩ := List.cons.inj heq
            exact ⟨rfl, rfl⟩
      · next hc =>
          refine ⟨fun h => absurd h (by simp), ?_⟩
          rintro ⟨quote, rest', heq, hq, -⟩
          rw [(List.cons.inj heq).1] at hc
          exact absurd hq hc

/-- The token of a number is the spelling of a numeral. -/
theorem takeNumber?_eq_some :
    takeNumber? s = some (text, after) ↔
      ∃ n, Numeral.take? s = some (n, after) ∧ text = n.text := by
  rw [takeNumber?, Option.map_eq_some_iff]
  have htake {n : Numeral} (h : Numeral.take? s = some (n, after)) :
      s.take (s.length - after.length) = n.text := by
    rw [← (Numeral.take?_spec h).1, List.length_append, Nat.add_sub_cancel, List.take_left]
  constructor
  · rintro ⟨⟨n, rest⟩, h, heq⟩
    obtain ⟨rfl, rfl⟩ := Prod.mk.inj heq
    exact ⟨n, h, htake h⟩
  · rintro ⟨n, h, rfl⟩
    exact ⟨(n, after), h, congrArg (·, after) (htake h)⟩

theorem takeChar?_spec {belongs : Char → Bool} (h : takeChar? belongs s = some (text, after)) :
    ∃ c, text = [c] ∧ belongs c = true ∧ s = c :: after := by
  cases s with
  | nil => exact absurd h (by simp [takeChar?])
  | cons c rest =>
      rw [takeChar?] at h
      split at h
      · next hc =>
          obtain ⟨rfl, rfl⟩ := Prod.mk.inj (Option.some.inj h)
          exact ⟨c, rfl, hc, rfl⟩
      · exact absurd h (by simp)

theorem takeRun?_spec {belongs : Char → Bool} (h : takeRun? belongs s = some (text, after)) :
    text ≠ [] ∧ (∀ c ∈ text, belongs c = true) ∧ text ++ after = s := by
  rw [takeRun?] at h
  split at h
  · exact absurd h (by simp)
  · next hne =>
      obtain ⟨rfl, rfl⟩ := Prod.mk.inj (Option.some.inj h)
      exact ⟨fun hnil => hne (List.isEmpty_iff.2 hnil), fun c hc => List.mem_takeWhile_imp hc,
        List.takeWhile_append_dropWhile⟩

/-- A token takes the beginning of the text, and not nothing. -/
theorem TokenKind.take?_append (h : kind.take? s = some (text, after)) :
    text ≠ [] ∧ text ++ after = s := by
  cases kind with
  | navigation =>
      rw [TokenKind.take?, takeArrow?.eq_def] at h
      split at h
      · obtain ⟨rfl, rfl⟩ := Prod.mk.inj (Option.some.inj h)
        exact ⟨by simp, rfl⟩
      · exact absurd h (by simp)
  | quoted =>
      obtain ⟨quote, rest, rfl, -, rfl, rfl⟩ := takeQuoted?_eq_some.1 h
      exact ⟨by simp, by rw [List.cons_append, quotedRest_append]⟩
  | number =>
      obtain ⟨n, hn, rfl⟩ := takeNumber?_eq_some.1 h
      obtain ⟨htext, hlawful⟩ := Numeral.take?_spec hn
      obtain ⟨c, rest, hhead, -⟩ := Literal.exists_head_text hlawful
      exact ⟨by simp [hhead], htext⟩
  | name | blanks => exact ⟨(takeRun?_spec h).1, (takeRun?_spec h).2.2⟩
  | trigger | punctuation =>
      obtain ⟨c, rfl, -, rfl⟩ := takeChar?_spec h
      exact ⟨by simp, rfl⟩

/-- Only a quoted token begins with a quote. -/
theorem TokenKind.eq_quoted_of_take? (h : kind.take? s = some (quote :: text, after))
    (hq : isQuote quote = true) : kind = .quoted := by
  cases kind with
  | quoted => rfl
  | navigation =>
      rw [TokenKind.take?, takeArrow?.eq_def] at h
      split at h
      · rw [← (List.cons.inj (Prod.mk.inj (Option.some.inj h)).1).1] at hq
        exact absurd hq (by decide)
      · exact absurd h (by simp)
  | number =>
      obtain ⟨n, hn, htext⟩ := takeNumber?_eq_some.1 h
      have hchar := (Numeral.take?_spec hn).2.isNumeralChar (htext ▸ List.mem_cons_self ..)
      have hinert := Literal.isInert_of_isNumeralChar hchar
      rw [Line.isInert, hq] at hinert
      exact absurd hinert (by simp)
  | name =>
      have hname := (takeRun?_spec h).2.1 quote (List.mem_cons_self ..)
      rw [isNameChar, hq, Bool.or_true] at hname
      exact absurd hname (by simp)
  | blanks =>
      have hblank := (takeRun?_spec h).2.1 quote (List.mem_cons_self ..)
      rw [Literal.isBlank_of_isQuote hq] at hblank
      exact absurd hblank (by simp)
  | trigger | punctuation =>
      obtain ⟨c, hc, hbelongs, -⟩ := takeChar?_spec h
      rw [← (List.cons.inj hc).1] at hbelongs
      rw [isQuote, Bool.or_eq_true, beq_iff_eq, beq_iff_eq] at hq
      rcases hq with rfl | rfl <;> exact absurd hbelongs (by decide)

/-! ### Every character begins a token -/

theorem takeChar?_isSome {belongs : Char → Bool} {c : Char} (h : belongs c = true)
    (rest : List Char) : (takeChar? belongs (c :: rest)).isSome = true := by
  rw [takeChar?, if_pos h]
  rfl

theorem takeRun?_isSome {belongs : Char → Bool} {c : Char} (h : belongs c = true)
    (rest : List Char) : (takeRun? belongs (c :: rest)).isSome = true := by
  rw [takeRun?, if_neg (by simp [List.takeWhile_cons_of_pos h])]
  rfl

/-- A character is a quote, a blank, a trigger or punctuation, and any other
character belongs to a name. -/
theorem exists_kind (c : Char) (rest : List Char) :
    ∃ kind : TokenKind, (kind.take? (c :: rest)).isSome = true := by
  by_cases hquote : isQuote c = true
  · exact ⟨.quoted, by rw [TokenKind.take?, takeQuoted?, if_pos hquote]; rfl⟩
  by_cases hblank : Text.isBlank c = true
  · exact ⟨.blanks, takeRun?_isSome hblank rest⟩
  by_cases htrigger : Line.isTrigger c = true
  · exact ⟨.trigger, takeChar?_isSome htrigger rest⟩
  by_cases hpunctuation : isPunctuation c = true
  · exact ⟨.punctuation, takeChar?_isSome hpunctuation rest⟩
  have hname : isNameChar c = true := by
    simp [isNameChar, hquote, hblank, htrigger, hpunctuation]
  exact ⟨.name, takeRun?_isSome hname rest⟩

theorem TokenKind.mem_all (kind : TokenKind) : kind ∈ TokenKind.all := by
  cases kind <;> decide

theorem firstMatch?_isSome (h : s ≠ []) : (firstMatch? s).isSome = true := by
  obtain ⟨c, rest, rfl⟩ := List.exists_cons_of_ne_nil h
  obtain ⟨kind, hkind⟩ := exists_kind c rest
  rw [firstMatch?, List.findSome?_isSome_iff]
  exact ⟨kind, kind.mem_all, by rw [Option.isSome_map]; exact hkind⟩

theorem take?_of_firstMatch? (h : firstMatch? s = some (kind, text, after)) :
    kind.take? s = some (text, after) := by
  obtain ⟨kind', -, hcut⟩ := List.exists_of_findSome?_eq_some h
  obtain ⟨cut, hcut, heq⟩ := Option.map_eq_some_iff.1 hcut
  obtain ⟨rfl, rfl⟩ := Prod.mk.inj heq
  exact hcut

/-- Every token leaves less of the text behind it. -/
theorem length_lt_of_firstMatch? (h : firstMatch? s = some (kind, text, after)) :
    after.length < s.length := by
  obtain ⟨hne, happend⟩ := TokenKind.take?_append (take?_of_firstMatch? h)
  have hpos := List.length_pos_of_ne_nil hne
  rw [← happend, List.length_append]
  omega

/-! ### The rounds over a line -/

/-- A text cut into tokens, each of the first kind that matches where the one
before it ends. There is no rule for a place where no kind matches. -/
inductive Cut : List Char → List Token → Prop
  | done : Cut [] []
  | token {s : List Char} {kind : TokenKind} {text after : List Char} {ts : List Token} :
      firstMatch? s = some (kind, text, after) → Cut after ts →
        Cut s (⟨kind.group text after, text⟩ :: ts)

theorem exists_cut (s : List Char) : ∃ ts, Cut s ts := by
  -- on the length, since a token may take more than one character
  induction hn : s.length using Nat.strong_induction_on generalizing s with
  | _ n ih =>
    by_cases hs : s = []
    · exact ⟨[], hs ▸ .done⟩
    obtain ⟨⟨kind, text, after⟩, hmatch⟩ := Option.isSome_iff_exists.1 (firstMatch?_isSome hs)
    obtain ⟨ts, hts⟩ := ih after.length (hn ▸ length_lt_of_firstMatch? hmatch) after rfl
    exact ⟨_, .token hmatch hts⟩

/-- As many rounds as there are characters are enough, and more change nothing. -/
theorem Cut.tokens_eq {ts : List Token} (h : Cut s ts) {rounds : Nat}
    (hrounds : s.length ≤ rounds) : tokens rounds s = ts := by
  induction h generalizing rounds with
  | done => rw [tokens]
  | @token s kind text after ts hmatch _ ih =>
      have hlength := length_lt_of_firstMatch? hmatch
      cases rounds with
      | zero => omega
      | succ rounds =>
          cases s with
          | nil => exact absurd hlength (Nat.not_lt_zero _)
          | cons c rest =>
              rw [tokens, firstToken, hmatch]
              exact congrArg _ (ih (by omega))

/-! ### Lines -/

/-- A text that begins with a quote and does not end with the same quote. No
quote in it closes the first one either. -/
def IsOpen (text : List Char) : Prop :=
  ∃ quote body, text = quote :: body ∧ isQuote quote = true ∧
    body.getLast? ≠ some quote ∧ closeQuote quote body = none

theorem nameGroup_cases (name after : List Char) :
    nameGroup name after = .constant ∨ nameGroup name after = .method ∨
      nameGroup name after = .member := by
  rw [nameGroup]
  split
  · exact .inl rfl
  · split
    · exact .inr (.inl rfl)
    · exact .inr (.inr rfl)

/-- Strings and errors come from quoted tokens. -/
theorem TokenKind.eq_quoted_of_group
    (h : kind.group text after = .string ∨ kind.group text after = .error) : kind = .quoted := by
  cases kind with
  | quoted => rfl
  | name =>
      rw [TokenKind.group] at h
      rcases nameGroup_cases text after with hgroup | hgroup | hgroup <;> simp [hgroup] at h
  | navigation | number | trigger | punctuation | blanks => simp [TokenKind.group] at h

/-- A token is an error if and only if it is a string that is not closed. -/
theorem TokenKind.group_eq_error_iff (h : kind.take? s = some (text, after)) :
    kind.group text after = .error ↔ IsOpen text := by
  constructor
  · intro herror
    obtain rfl := TokenKind.eq_quoted_of_group (.inr herror)
    obtain ⟨quote, rest, -, hq, rfl, -⟩ := takeQuoted?_eq_some.1 h
    have hlast : (quotedRest quote rest).1.getLast? ≠ some quote := by
      intro hlast
      rw [TokenKind.group, endsWithQuote, hlast, beq_self_eq_true, if_pos rfl] at herror
      exact absurd herror (by decide)
    exact ⟨quote, _, rfl, hq, hlast, (getLast?_or_closeQuote quote rest).resolve_left hlast⟩
  · rintro ⟨quote, body, rfl, hq, hlast, -⟩
    rw [TokenKind.eq_quoted_of_take? h hq, TokenKind.group, endsWithQuote,
      if_neg (by simpa using hlast)]

structure Token.Sound (t : Token) : Prop where
  nonempty : t.text ≠ []
  error_iff : t.group = .error ↔ IsOpen t.text

theorem Cut.sound {ts : List Token} (h : Cut s ts) : ∀ t ∈ ts, t.Sound := by
  induction h with
  | done => simp
  | token hmatch _ ih =>
      have htake := take?_of_firstMatch? hmatch
      exact List.forall_mem_cons.2
        ⟨⟨(TokenKind.take?_append htake).1, TokenKind.group_eq_error_iff htake⟩, ih⟩

theorem Cut.texts {ts : List Token} (h : Cut s ts) : ts.flatMap Token.text = s := by
  induction h with
  | done => rfl
  | token hmatch _ ih =>
      rw [List.flatMap_cons, ih]
      exact (TokenKind.take?_append (take?_of_firstMatch? hmatch)).2

/-- A line that is one command begins with a blank or a slash. -/
theorem sound_command {line : List Char} (h : (Text.trimLeft line).head? = some '/') :
    (⟨.command, line⟩ : Token).Sound where
  nonempty := by
    rintro rfl
    exact absurd h (by decide)
  error_iff := by
    refine ⟨fun herror => absurd herror (by simp), ?_⟩
    rintro ⟨quote, body, heq, hq, -⟩
    rw [show line = quote :: body from heq, Text.trimLeft,
      List.dropWhile_cons_of_neg (by simp [Literal.isBlank_of_isQuote hq])] at h
    rw [Option.some.inj h] at hq
    exact absurd hq (by decide)

/-- Highlighting loses nothing. The texts of the tokens are the line, and none
is empty. Some kind of token matches at every character, so a line has a cut
without a place where none does, which every number of rounds from the length
of the line on gives. A token is an error if and only if it is a string that is
not closed. -/
theorem classify_lossless (line : List Char) :
    (classify line).flatMap Token.text = line ∧
      (∀ t ∈ classify line, t.text ≠ [] ∧ (t.group = .error ↔ IsOpen t.text)) ∧
      (∀ c rest, (firstMatch? (c :: rest)).isSome = true) ∧
      ∃ ts, Cut line ts ∧ ∀ rounds, line.length ≤ rounds → tokens rounds line = ts := by
  obtain ⟨ts, hcut⟩ := exists_cut line
  have hlines : (classify line).flatMap Token.text = line ∧ ∀ t ∈ classify line, t.Sound := by
    rw [classify]
    split
    · next hslash =>
        exact ⟨by simp, List.forall_mem_singleton.2 (sound_command (eq_of_beq hslash))⟩
    · rw [hcut.tokens_eq le_rfl]
      exact ⟨hcut.texts, hcut.sound⟩
  exact ⟨hlines.1, fun t ht => ⟨(hlines.2 t ht).nonempty, (hlines.2 t ht).error_iff⟩,
    fun c rest => firstMatch?_isSome (by simp), ts, hcut, fun _ => hcut.tokens_eq⟩

/-- A string that a backslash ends is an error, and the backslash is a name. -/
theorem classify_lossless_lone_backslash :
    (classify "\"a\\".toList).flatMap Token.text = "\"a\\".toList ∧
      (⟨.error, "\"a".toList⟩ : Token) ∈ classify "\"a\\".toList ∧ IsOpen "\"a".toList ∧
      tokens 9 "\"a\\".toList = tokens 3 "\"a\\".toList := by
  obtain ⟨hlossless, hsound, -, ts, -, hrounds⟩ := classify_lossless "\"a\\".toList
  have hmem : (⟨.error, "\"a".toList⟩ : Token) ∈ classify "\"a\\".toList := by decide
  exact ⟨hlossless, hmem, (hsound _ hmem).2.1 rfl,
    (hrounds 9 (by decide)).trans (hrounds 3 (by decide)).symm⟩

end ObjectConsole.Prompt
