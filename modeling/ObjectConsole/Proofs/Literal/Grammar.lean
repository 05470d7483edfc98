import ObjectConsole.Proofs.Literal.Decimal

/-!
The grammar of structured data: which texts are values, and of what. It says
nothing of how a text is read. The rules follow the usual ones of nested lists
and keyed tables; a number may have a plus sign, leading zeros, and a point with
digits on one side only, and blanks may stand around every token.
-/

namespace ObjectConsole.Literal

def Spaces (s : List Char) : Prop := ∀ c ∈ s, isSpace c = true

/-! ### Strings -/

def isPlainChar (c : Char) : Bool := c != '"' && c != '\\' && 0x20 ≤ c.toNat

inductive IsUnit : List Char → Nat → Prop
  | mk {a b c d : Char} {m n p q : Nat} (ha : hexValue? a = some m) (hb : hexValue? b = some n)
      (hc : hexValue? c = some p) (hd : hexValue? d = some q) :
      IsUnit [a, b, c, d] (((m * 16 + n) * 16 + p) * 16 + q)

def pairCode (high low : Nat) : Nat := 0x10000 + (high - 0xD800) * 0x400 + (low - 0xDC00)

/-- A unit that is not the first of a surrogate pair, given the text behind it. -/
def Unpaired (u : Nat) (s : List Char) : Prop :=
  isHighHalf u = true → ∀ y v t, IsUnit y v → isLowHalf v = true → s ≠ '\\' :: 'u' :: (y ++ t)

/-- The text stands for the code point, in front of the text `s` and between double
quotes. Half of a surrogate pair alone is a code point as well. -/
inductive Spells : List Char → Nat → List Char → Prop
  | plain {c : Char} {s : List Char} (hc : isPlainChar c = true) : Spells [c] c.toNat s
  | short {e c : Char} {s : List Char} (he : shortEscape? e = some c) : Spells ['\\', e] c.toNat s
  | unit {x s : List Char} {u : Nat} (hx : IsUnit x u) (hu : Unpaired u s) :
      Spells ('\\' :: 'u' :: x) u s
  | pair {x y s : List Char} {u v : Nat} (hx : IsUnit x u) (hy : IsUnit y v)
      (hu : isHighHalf u = true) (hv : isLowHalf v = true) :
      Spells ('\\' :: 'u' :: (x ++ '\\' :: 'u' :: y)) (pairCode u v) s

inductive IsBody : List Char → Codes → Prop
  | nil : IsBody [] []
  | cons {x s : List Char} {cs : Codes} {c : Nat} (hx : Spells x c s) (hs : IsBody s cs) :
      IsBody (x ++ s) (c :: cs)

/-! ### Numbers -/

/-- The number that a numeral is: an integer, if it has neither point nor power and
is not too long, or else a double. -/
inductive IsNumber : Numeral → Tree → Prop
  | int {n : Numeral} (hn : n.isInteger = true) (hlength : n.whole.length ≤ digitLimit) :
      IsNumber n (.int n.toInt)
  | float {n : Numeral} (hn : n.isInteger = false) : IsNumber n (.float n.toFloat)

/-! ### Tables -/

/-- The entries of a table that is written as some pairs: each key once, in the
order in which the keys first appear, with the last of its values. -/
structure LastValues (pairs entries : List (Codes × Tree)) : Prop where
  keys : entries.map (·.1) = (pairs.map (·.1)).eraseDups
  values : ∀ key, entries.lookup key = pairs.reverse.lookup key

/-! ### Values -/

mutual

inductive IsValue : List Char → Tree → Prop
  | nullWord : IsValue ['n', 'u', 'l', 'l'] .null
  | trueWord : IsValue ['t', 'r', 'u', 'e'] (.bool true)
  | falseWord : IsValue ['f', 'a', 'l', 's', 'e'] (.bool false)
  | number {n : Numeral} {t : Tree} (hn : n.Complete) (ht : IsNumber n t) : IsValue n.text t
  | string {s : List Char} {cs : Codes} (h : IsBody s cs) : IsValue ('"' :: (s ++ ['"'])) (.text cs)
  | emptyList {b : List Char} (hb : Spaces b) : IsValue ('[' :: (b ++ [']'])) (.list [])
  | list {s : List Char} {items : List Tree} (h : IsItems s items) :
      IsValue ('[' :: (s ++ [']'])) (.list items)
  | emptyTable {b : List Char} (hb : Spaces b) : IsValue ('\x7b' :: (b ++ ['\x7d'])) (.table [])
  | table {s : List Char} {pairs entries : List (Codes × Tree)} (h : IsPairs s pairs)
      (hentries : LastValues pairs entries) : IsValue ('\x7b' :: (s ++ ['\x7d'])) (.table entries)

inductive IsElement : List Char → Tree → Prop
  | mk {b s b' : List Char} {t : Tree} (hb : Spaces b) (h : IsValue s t) (hb' : Spaces b') :
      IsElement (b ++ (s ++ b')) t

inductive IsItems : List Char → List Tree → Prop
  | one {s : List Char} {t : Tree} (h : IsElement s t) : IsItems s [t]
  | more {s r : List Char} {t : Tree} {ts : List Tree} (h : IsElement s t) (hs : IsItems r ts) :
      IsItems (s ++ ',' :: r) (t :: ts)

inductive IsEntry : List Char → Codes × Tree → Prop
  | mk {b k b' s : List Char} {key : Codes} {t : Tree} (hb : Spaces b) (hk : IsBody k key)
      (hb' : Spaces b') (h : IsElement s t) :
      IsEntry (b ++ '"' :: (k ++ '"' :: (b' ++ ':' :: s))) (key, t)

inductive IsPairs : List Char → List (Codes × Tree) → Prop
  | one {s : List Char} {p : Codes × Tree} (h : IsEntry s p) : IsPairs s [p]
  | more {s r : List Char} {p : Codes × Tree} {ps : List (Codes × Tree)}
      (h : IsEntry s p) (hs : IsPairs r ps) : IsPairs (s ++ ',' :: r) (p :: ps)

end

/-! ### Blanks -/

theorem Spaces.nil : Spaces [] := by simp [Spaces]

theorem Spaces.cons {c : Char} {s : List Char} (hc : isSpace c = true) (hs : Spaces s) :
    Spaces (c :: s) :=
  List.forall_mem_cons.2 ⟨hc, hs⟩

theorem Spaces.append {s t : List Char} (hs : Spaces s) (ht : Spaces t) : Spaces (s ++ t) := by
  intro c hc
  exact (List.mem_append.1 hc).elim (hs c) (ht c)

theorem exists_spaces (s : List Char) : ∃ b r, Spaces b ∧ s = b ++ r ∧ skipSpace s = r :=
  ⟨s.takeWhile isSpace, _, fun _ hc => List.mem_takeWhile_imp hc,
    List.takeWhile_append_dropWhile.symm, rfl⟩

theorem skipSpace_spaces {b : List Char} (hb : Spaces b) (s : List Char) :
    skipSpace (b ++ s) = skipSpace s :=
  List.dropWhile_append_of_pos hb

theorem skipSpace_cons {c : Char} (hc : isSpace c = false) (s : List Char) :
    skipSpace (c :: s) = c :: s :=
  List.dropWhile_cons_of_neg (by simp [hc])

/-! ### Words -/

theorem toList_null : "null".toList = ['n', 'u', 'l', 'l'] := by decide +kernel

theorem toList_true : "true".toList = ['t', 'r', 'u', 'e'] := by decide +kernel

theorem toList_false : "false".toList = ['f', 'a', 'l', 's', 'e'] := by decide +kernel

theorem takeWord_append (word rest : List Char) : takeWord word (word ++ rest) = some rest := by
  induction word with
  | nil => rfl
  | cons c word ih => rw [List.cons_append, takeWord, if_pos rfl, ih]

theorem eq_of_takeWord {word s rest : List Char} (h : takeWord word s = some rest) :
    s = word ++ rest := by
  induction word generalizing s with
  | nil => exact Option.some.inj h
  | cons w word ih =>
      cases s with
      | nil => exact absurd h (by simp [takeWord])
      | cons c s =>
          rw [takeWord] at h
          split at h
          · next hc => rw [← hc, ih h, List.cons_append]
          · exact absurd h (by simp)

/-! ### Strings, as they are read -/

theorem takeUnit_append {x : List Char} {u : Nat} (h : IsUnit x u) (rest : List Char) :
    takeUnit (x ++ rest) = some (u, rest) := by
  obtain ⟨ha, hb, hc, hd⟩ := h
  simp [takeUnit, ha, hb, hc, hd]

theorem exists_of_takeUnit {s rest : List Char} {u : Nat} (h : takeUnit s = some (u, rest)) :
    ∃ x, s = x ++ rest ∧ IsUnit x u := by
  unfold takeUnit at h
  split at h
  · next a b c d tail =>
      simp only [Option.bind_eq_bind, Option.bind_eq_some_iff, Option.pure_def,
        Option.some.injEq, Prod.mk.injEq] at h
      obtain ⟨m, ha, n, hb, p, hc, q, hd, rfl, rfl⟩ := h
      exact ⟨[a, b, c, d], rfl, .mk ha hb hc hd⟩
  · exact absurd h (by simp)

/-- A code point given by units is read as it is spelled. -/
theorem exists_of_takeUnits {s rest : List Char} {c : Nat} (h : takeUnits s = some (c, rest)) :
    ∃ x, s = x ++ rest ∧ Spells ('\\' :: 'u' :: x) c rest := by
  rw [takeUnits, Option.bind_eq_bind, Option.bind_eq_some_iff] at h
  obtain ⟨⟨u, more⟩, hu, h⟩ := h
  obtain ⟨x, rfl, hx⟩ := exists_of_takeUnit hu
  have unpaired (hfound : some (u, more) = some (c, rest)) (hu : Unpaired u more) :
      ∃ x', x ++ more = x' ++ rest ∧ Spells ('\\' :: 'u' :: x') c rest := by
    obtain ⟨rfl, rfl⟩ := Prod.mk.inj (Option.some.inj hfound)
    exact ⟨x, rfl, .unit hx hu⟩
  simp only at h
  split at h
  · next tail hhigh =>
      rw [Option.bind_eq_some_iff] at h
      obtain ⟨⟨v, after⟩, hv, h⟩ := h
      obtain ⟨y, rfl, hy⟩ := exists_of_takeUnit hv
      simp only at h
      split at h
      · next hlow =>
          obtain ⟨rfl, rfl⟩ := Prod.mk.inj (Option.some.inj h)
          exact ⟨x ++ '\\' :: 'u' :: y, by simp, .pair hx hy hhigh hlow⟩
      · next hlow =>
          refine unpaired h fun _ y' v' t hy' hlow' heq => hlow ?_
          have htail : y ++ after = y' ++ t := (List.cons.inj (List.cons.inj heq).2).2
          have hunit := takeUnit_append hy after
          rw [htail, takeUnit_append hy' t] at hunit
          obtain ⟨rfl, -⟩ := Prod.mk.inj (Option.some.inj hunit)
          exact hlow'
  · next hnot =>
      refine unpaired h fun hhigh y v t _ _ heq => ?_
      exact hnot _ hhigh heq

theorem exists_of_takeStringChar {s rest : List Char} {c : Nat}
    (h : takeStringChar s = some (some c, rest)) : ∃ x, s = x ++ rest ∧ Spells x c rest := by
  unfold takeStringChar at h
  split at h
  · exact absurd h (by simp)
  · exact absurd h (by simp)
  · next tail =>
      obtain ⟨⟨d, after⟩, hunits, hd⟩ := Option.map_eq_some_iff.1 h
      obtain ⟨rfl, rfl⟩ : d = c ∧ after = rest := by simpa using hd
      obtain ⟨x, rfl, hx⟩ := exists_of_takeUnits hunits
      exact ⟨_, rfl, hx⟩
  · next e tail _ =>
      obtain ⟨d, he, hd⟩ := Option.map_eq_some_iff.1 h
      obtain ⟨rfl, rfl⟩ : d.toNat = c ∧ tail = rest := by simpa using hd
      exact ⟨['\\', e], rfl, .short he⟩
  · next d tail hquote _ _ =>
      split at h
      · exact absurd h (by simp)
      · next hplain =>
          obtain ⟨rfl, rfl⟩ : d.toNat = c ∧ tail = rest := by simpa using h
          refine ⟨[d], rfl, .plain ?_⟩
          simp only [Bool.or_eq_true, decide_eq_true_eq, beq_iff_eq, not_or, Nat.not_lt] at hplain
          rw [isPlainChar, Bool.and_eq_true, Bool.and_eq_true, bne_iff_ne, bne_iff_ne,
            decide_eq_true_eq]
          exact ⟨⟨fun h => hquote h, hplain.2⟩, hplain.1⟩

theorem eq_of_takeStringChar {s rest : List Char} (h : takeStringChar s = some (none, rest)) :
    s = '"' :: rest := by
  unfold takeStringChar at h
  split at h
  · exact absurd h (by simp)
  · obtain rfl : _ = rest := by simpa using h
    rfl
  · simp at h
  · simp at h
  · split at h <;> simp at h

/-- What stands behind the text of a character only matters up to the closing
quote. -/
theorem Spells.of_append {x s t : List Char} {c : Nat} (h : Spells x c (s ++ t)) :
    Spells x c s := by
  cases h with
  | plain hc => exact .plain hc
  | short he => exact .short he
  | unit hx hu =>
      refine .unit hx fun hhigh y v r hy hv heq => hu hhigh y v (r ++ t) hy hv ?_
      rw [heq, List.cons_append, List.cons_append, List.append_assoc]
  | pair hx hy hu hv => exact .pair hx hy hu hv

theorem exists_of_takeString {fuel : Nat} {s rest : List Char} {cs : Codes}
    (h : takeString fuel s = some (cs, rest)) : ∃ k, s = k ++ '"' :: rest ∧ IsBody k cs := by
  induction fuel generalizing s cs with
  | zero => exact absurd h (by simp [takeString])
  | succ fuel ih =>
      rw [takeString] at h
      split at h
      · exact absurd h (by simp)
      · next hend =>
          obtain ⟨rfl, rfl⟩ := Prod.mk.inj (Option.some.inj h)
          exact ⟨[], eq_of_takeStringChar hend, .nil⟩
      · next c after hchar =>
          obtain ⟨⟨ds, r⟩, hrest, hd⟩ := Option.map_eq_some_iff.1 h
          obtain ⟨rfl, rfl⟩ : c :: ds = cs ∧ r = rest := by simpa using hd
          obtain ⟨x, rfl, hx⟩ := exists_of_takeStringChar hchar
          obtain ⟨k, rfl, hk⟩ := ih hrest
          exact ⟨x ++ k, by rw [List.append_assoc], .cons hx.of_append hk⟩

/-- Behind a backslash and the letter of units four digits follow. -/
theorem IsBody.exists_unit {s : List Char} {cs : Codes} (h : IsBody ('\\' :: 'u' :: s) cs) :
    ∃ y v t, s = y ++ t ∧ IsUnit y v := by
  generalize htext : '\\' :: 'u' :: s = text at h
  cases h with
  | nil => exact absurd htext (by simp)
  | cons hx _ =>
      cases hx with
      | plain hc =>
          rw [List.singleton_append, List.cons.injEq] at htext
          rw [← htext.1] at hc
          exact absurd hc (by decide)
      | short he =>
          rw [List.cons_append, List.singleton_append, List.cons.injEq, List.cons.injEq] at htext
          rw [← htext.2.1] at he
          exact absurd he (by simp [shortEscape?])
      | unit hx _ =>
          simp only [List.cons_append, List.cons.injEq, true_and] at htext
          exact ⟨_, _, _, htext, hx⟩
      | pair hx _ _ _ =>
          simp only [List.cons_append, List.append_assoc, List.cons.injEq, true_and] at htext
          exact ⟨_, _, _, htext, hx⟩

/-- A unit that is not paired is read alone, whatever follows the closing quote. -/
theorem takeUnits_unit {x s : List Char} {cs : Codes} {u : Nat} (hx : IsUnit x u)
    (hu : Unpaired u s)
    (hs : IsBody s cs) (rest : List Char) :
    takeUnits (x ++ (s ++ '"' :: rest)) = some (u, s ++ '"' :: rest) := by
  rw [takeUnits, takeUnit_append hx]
  simp only [Option.bind_eq_bind, Option.bind_some]
  split
  · next tail hhigh htail =>
      -- the text behind the unit goes on within the string
      obtain ⟨t, rfl, rfl⟩ : ∃ t, s = '\\' :: 'u' :: t ∧ tail = t ++ '"' :: rest := by
        rcases s with _ | ⟨c, _ | ⟨d, t⟩⟩
        · simp at htail
        · simp at htail
        · simp only [List.cons_append, List.cons.injEq] at htail
          obtain ⟨rfl, rfl, rfl⟩ := htail
          exact ⟨t, rfl, rfl⟩
      obtain ⟨y, v, r, rfl, hy⟩ := hs.exists_unit
      rw [List.append_assoc, takeUnit_append hy]
      simp only [Option.bind_some]
      split
      · next hlow => exact absurd rfl (hu hhigh y v r hy hlow)
      · rfl
  · rfl

theorem takeUnits_pair {x y : List Char} {u v : Nat} (hx : IsUnit x u) (hy : IsUnit y v)
    (hu : isHighHalf u = true) (hv : isLowHalf v = true) (rest : List Char) :
    takeUnits (x ++ '\\' :: 'u' :: (y ++ rest)) = some (pairCode u v, rest) := by
  rw [takeUnits, takeUnit_append hx]
  simp only [Option.bind_eq_bind, Option.bind_some, hu, takeUnit_append hy, hv, if_true]
  rfl

theorem takeStringChar_plain {c : Char} (hc : isPlainChar c = true) (rest : List Char) :
    takeStringChar (c :: rest) = some (some c.toNat, rest) := by
  simp only [isPlainChar, Bool.and_eq_true, bne_iff_ne, decide_eq_true_eq] at hc
  unfold takeStringChar
  split
  · next h => exact nomatch h
  · next h => exact absurd (List.cons.inj h).1 hc.1.1
  · next h => exact absurd (List.cons.inj h).1 hc.1.2
  · next h => exact absurd (List.cons.inj h).1 hc.1.2
  · next h =>
      obtain ⟨rfl, rfl⟩ := List.cons.inj h
      rw [if_neg]
      simpa [hc.1.2] using hc.2

theorem takeStringChar_short {e c : Char} (he : shortEscape? e = some c) (rest : List Char) :
    takeStringChar ('\\' :: e :: rest) = some (some c.toNat, rest) := by
  have hletter : e ≠ 'u' := by
    rintro rfl
    exact absurd he (by simp [shortEscape?])
  rw [takeStringChar, he]
  · rfl
  · exact hletter

theorem takeStringChar_append {x s : List Char} {cs : Codes} {c : Nat} (h : Spells x c s)
    (hs : IsBody s cs) (rest : List Char) :
    takeStringChar (x ++ (s ++ '"' :: rest)) = some (some c, s ++ '"' :: rest) := by
  cases h with
  | plain hc => exact takeStringChar_plain hc _
  | short he => exact takeStringChar_short he _
  | unit hx hu =>
      rw [List.cons_append, List.cons_append, takeStringChar, takeUnits_unit hx hu hs]
      rfl
  | pair hx hy hu hv =>
      rw [List.cons_append, List.cons_append, List.append_assoc, List.cons_append,
        List.cons_append, takeStringChar, takeUnits_pair hx hy hu hv]
      rfl

/-- A string is taken through its closing quote. -/
theorem takeString_append {k : List Char} {cs : Codes} (h : IsBody k cs) (rest : List Char)
    {fuel : Nat}
    (hfuel : k.length < fuel) : takeString fuel (k ++ '"' :: rest) = some (cs, rest) := by
  induction h generalizing fuel with
  | nil =>
      obtain ⟨fuel, rfl⟩ := Nat.exists_eq_add_one_of_ne_zero (Nat.ne_of_gt hfuel)
      rfl
  | @cons x s cs c hx hs ih =>
      obtain ⟨fuel, rfl⟩ :=
        Nat.exists_eq_add_one_of_ne_zero (Nat.ne_of_gt (Nat.zero_lt_of_lt hfuel))
      have hpos : 0 < x.length := by cases hx <;> simp
      rw [List.length_append] at hfuel
      rw [List.append_assoc, takeString, takeStringChar_append hx hs]
      simp only
      rw [ih (by omega)]
      rfl

/-- The characters of a text from the opening quote on are enough to take a string. -/
theorem takeString_quoted {k : List Char} {cs : Codes} (h : IsBody k cs) (rest : List Char) :
    takeString ('"' :: (k ++ '"' :: rest)).length (k ++ '"' :: rest) = some (cs, rest) := by
  refine takeString_append h rest ?_
  rw [List.length_cons, List.length_append]
  omega

end ObjectConsole.Literal
