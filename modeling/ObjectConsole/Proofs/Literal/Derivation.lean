import ObjectConsole.Proofs.Literal.Grammar
import Mathlib.Data.List.Induction

/-!
The reader of structured data reads the grammar. What it takes from the head of a
text is a value of the grammar, and in front of a text that cannot go on with a
numeral it takes every value of the grammar, in whatever context. So a text is
structured data exactly if the grammar derives it, and then of one tree only.
-/

namespace ObjectConsole.Literal

variable {pairs entries entries' : List (Codes × Tree)} {key : Codes} {value : Tree}

/-! ### Tables -/

theorem eraseDups_append_singleton (keys : List Codes) (key : Codes) :
    (keys ++ [key]).eraseDups = if key ∈ keys then keys.eraseDups else keys.eraseDups ++ [key] := by
  rw [List.eraseDups_append]
  split
  · next h => simp [List.removeAll, h]
  · next h => simp [List.removeAll, List.eraseDups_cons, h]

theorem nodup_eraseDups (keys : List Codes) : keys.eraseDups.Nodup := by
  induction keys using List.reverseRecOn with
  | nil => simp
  | append_singleton keys key ih =>
      rw [eraseDups_append_singleton]
      split
      · exact ih
      · next h =>
          refine List.nodup_append.2 ⟨ih, by simp, fun k hk k' hk' heq => h ?_⟩
          rwa [← List.mem_singleton.1 hk', ← heq, ← List.mem_eraseDups]

theorem keys_setKey (key : Codes) (value : Tree) (entries : List (Codes × Tree)) :
    (setKey key value entries).map (·.1) =
      if key ∈ entries.map (·.1) then entries.map (·.1) else entries.map (·.1) ++ [key] := by
  induction entries with
  | nil => simp [setKey]
  | cons entry entries ih =>
      obtain ⟨k, v⟩ := entry
      rw [setKey]
      by_cases hk : k = key
      · simp [hk]
      · rw [if_neg hk, List.map_cons, ih]
        by_cases hkey : key ∈ entries.map (·.1)
        · simp [hkey]
        · simp [hkey, Ne.symm hk]

theorem lookup_cons_ite (key k : Codes) (value : Tree) (entries : List (Codes × Tree)) :
    ((key, value) :: entries).lookup k = if k = key then some value else entries.lookup k := by
  rw [List.lookup_cons]
  split
  · next h => rw [if_pos (eq_of_beq h)]
  · next h => rw [if_neg (ne_of_beq_false h)]

theorem lookup_of_not_mem (h : key ∉ entries.map (·.1)) : entries.lookup key = none := by
  refine List.lookup_eq_none_iff.2 fun p hp => ?_
  rw [bne_iff_ne]
  exact fun hkey => h (hkey ▸ List.mem_map_of_mem hp)

theorem lookup_setKey (key k : Codes) (value : Tree) (entries : List (Codes × Tree)) :
    (setKey key value entries).lookup k = if k = key then some value else entries.lookup k := by
  induction entries with
  | nil => exact lookup_cons_ite key k value []
  | cons entry entries ih =>
      obtain ⟨k', v⟩ := entry
      rw [setKey]
      split
      · next h =>
          subst h
          rw [lookup_cons_ite, lookup_cons_ite]
          split <;> rfl
      · next h =>
          rw [lookup_cons_ite, lookup_cons_ite, ih]
          by_cases hk : k = k'
          · rw [if_pos hk, if_pos hk, if_neg (by rwa [hk])]
          · rw [if_neg hk, if_neg hk]

/-- The table that the reader makes of some pairs. -/
theorem lastValues_tableOf (pairs : List (Codes × Tree)) :
    LastValues pairs (tableOf pairs) := by
  induction pairs using List.reverseRecOn with
  | nil => exact ⟨rfl, fun key => rfl⟩
  | append_singleton pairs pair ih =>
      obtain ⟨key, value⟩ := pair
      have hstep : tableOf (pairs ++ [(key, value)]) = setKey key value (tableOf pairs) := by
        simp [tableOf]
      constructor
      · rw [hstep, keys_setKey, ih.keys, List.map_append, List.map_singleton,
          eraseDups_append_singleton]
        simp only [List.mem_eraseDups]
      · intro k
        rw [hstep, lookup_setKey, ih.values, List.reverse_append, List.reverse_singleton,
          List.singleton_append, lookup_cons_ite]

theorem eq_of_lookup_eq (hkeys : entries.map (·.1) = entries'.map (·.1))
    (hnodup : (entries.map (·.1)).Nodup) (h : ∀ key, entries.lookup key = entries'.lookup key) :
    entries = entries' := by
  induction entries generalizing entries' with
  | nil => exact (List.map_eq_nil_iff.1 hkeys.symm).symm
  | cons entry entries ih =>
      obtain ⟨k, v⟩ := entry
      rcases entries' with _ | ⟨⟨k', v'⟩, entries'⟩
      · simp at hkeys
      · simp only [List.map_cons, List.cons.injEq] at hkeys
        obtain ⟨rfl, hkeys⟩ := hkeys
        rw [List.map_cons, List.nodup_cons] at hnodup
        have hv := h k
        rw [lookup_cons_ite, lookup_cons_ite, if_pos rfl, if_pos rfl, Option.some.injEq] at hv
        rw [hv, ih hkeys hnodup.2 fun key => ?_]
        by_cases hk : key = k
        · have hnone := hnodup.1
          rw [hk, lookup_of_not_mem hnone, lookup_of_not_mem (hkeys ▸ hnone)]
        · have hkey := h key
          rwa [lookup_cons_ite, lookup_cons_ite, if_neg hk, if_neg hk] at hkey

theorem LastValues.unique (h : LastValues pairs entries) (h' : LastValues pairs entries') :
    entries = entries' := by
  refine eq_of_lookup_eq (h.keys.trans h'.keys.symm) ?_ fun key => ?_
  · rw [h.keys]
    exact nodup_eraseDups _
  · rw [h.values, h'.values]

/-! ### What is taken is derived -/

theorem IsElement.spaces {b s : List Char} {t : Tree} (hb : Spaces b) (h : IsElement s t) :
    IsElement (b ++ s) t := by
  obtain ⟨hb', hs, hb''⟩ := h
  rw [← List.append_assoc]
  exact .mk (hb.append hb') hs hb''

theorem IsElement.behind {v b : List Char} {t : Tree} (h : IsValue v t) (hb : Spaces b) :
    IsElement (v ++ b) t :=
  .mk .nil h hb

theorem IsValue.element {v : List Char} {t : Tree} (h : IsValue v t) : IsElement v t := by
  rw [← List.append_nil v]
  exact .behind h .nil

theorem IsItems.spaces {b s : List Char} {ts : List Tree} (hb : Spaces b) (h : IsItems s ts) :
    IsItems (b ++ s) ts := by
  cases h with
  | one h => exact .one (h.spaces hb)
  | more h hs =>
      rw [← List.append_assoc]
      exact .more (h.spaces hb) hs

theorem IsEntry.spaces {b s : List Char} {p : Codes × Tree} (hb : Spaces b)
    (h : IsEntry s p) : IsEntry (b ++ s) p := by
  obtain ⟨hb', hk, hb'', hs⟩ := h
  rw [← List.append_assoc]
  exact .mk (hb.append hb') hk hb'' hs

theorem IsPairs.spaces {b s : List Char} {ps : List (Codes × Tree)} (hb : Spaces b)
    (h : IsPairs s ps) : IsPairs (b ++ s) ps := by
  cases h with
  | one h => exact .one (h.spaces hb)
  | more h hs =>
      rw [← List.append_assoc]
      exact .more (h.spaces hb) hs

theorem exists_of_takeNumber {s rest : List Char} {t : Tree}
    (h : takeNumber s = some (t, rest)) : ∃ v, s = v ++ rest ∧ IsValue v t := by
  rw [takeNumber, Option.bind_eq_bind, Option.bind_eq_some_iff] at h
  obtain ⟨⟨n, after⟩, hn, h⟩ := h
  have hcomplete := Numeral.complete_of_take? hn
  have htext := (Numeral.take?_spec hn).1
  simp only at h
  split at h
  · next hint =>
      split at h
      · exact absurd h (by simp)
      · next hlength =>
          obtain ⟨rfl, rfl⟩ : Tree.int n.toInt = t ∧ after = rest := by simpa using h
          exact ⟨n.text, htext.symm, .number hcomplete (.int hint (Nat.not_lt.1 hlength))⟩
  · next hfloat =>
      obtain ⟨rfl, rfl⟩ : Tree.float n.toFloat = t ∧ after = rest := by simpa using h
      exact ⟨n.text, htext.symm, .number hcomplete (.float (by simpa using hfloat))⟩

theorem exists_of_takeWord {word s rest : List Char} {t u : Tree} (hword : IsValue word u)
    (h : ((takeWord word s).map fun after => (u, after)) = some (t, rest)) :
    ∃ v, s = v ++ rest ∧ IsValue v t := by
  obtain ⟨after, htake, heq⟩ := Option.map_eq_some_iff.1 h
  obtain ⟨rfl, rfl⟩ := Prod.mk.inj heq
  exact ⟨word, eq_of_takeWord htake, hword⟩

mutual

/-- What the reader takes is a value. -/
theorem exists_of_takeValue {fuel : Nat} {s rest : List Char} {t : Tree}
    (h : takeValue fuel s = some (t, rest)) : ∃ v, s = v ++ rest ∧ IsValue v t := by
  cases fuel with
  | zero => exact absurd h (by simp [takeValue])
  | succ fuel =>
      unfold takeValue at h
      split at h
      · exact absurd h (by simp)
      · next tail =>
          obtain ⟨b, r, hb, rfl, hskip⟩ := exists_spaces tail
          rw [hskip] at h
          split at h
          · obtain ⟨rfl, rfl⟩ := Prod.mk.inj (Option.some.inj h)
            exact ⟨'[' :: (b ++ [']']), by simp, .emptyList hb⟩
          · obtain ⟨⟨items, after⟩, hitems, heq⟩ := Option.map_eq_some_iff.1 h
            obtain ⟨rfl, rfl⟩ := Prod.mk.inj heq
            obtain ⟨u, rfl, hu⟩ := exists_of_takeItems hitems
            exact ⟨'[' :: ((b ++ u) ++ [']']), by simp, .list (hu.spaces hb)⟩
      · next tail =>
          obtain ⟨b, r, hb, rfl, hskip⟩ := exists_spaces tail
          rw [hskip] at h
          split at h
          · obtain ⟨rfl, rfl⟩ := Prod.mk.inj (Option.some.inj h)
            exact ⟨'\x7b' :: (b ++ ['\x7d']), by simp, .emptyTable hb⟩
          · obtain ⟨⟨pairs, after⟩, hpairs, heq⟩ := Option.map_eq_some_iff.1 h
            obtain ⟨rfl, rfl⟩ := Prod.mk.inj heq
            obtain ⟨u, rfl, hu⟩ := exists_of_takePairs hpairs
            exact ⟨'\x7b' :: ((b ++ u) ++ ['\x7d']), by simp,
              .table (hu.spaces hb) (lastValues_tableOf pairs)⟩
      · obtain ⟨⟨cs, after⟩, hstring, heq⟩ := Option.map_eq_some_iff.1 h
        obtain ⟨rfl, rfl⟩ := Prod.mk.inj heq
        obtain ⟨k, rfl, hk⟩ := exists_of_takeString hstring
        exact ⟨'"' :: (k ++ ['"']), by simp, .string hk⟩
      · exact exists_of_takeWord .trueWord (by rwa [toList_true] at h)
      · exact exists_of_takeWord .falseWord (by rwa [toList_false] at h)
      · exact exists_of_takeWord .nullWord (by rwa [toList_null] at h)
      · exact exists_of_takeNumber h
termination_by fuel

/-- What the reader takes in a list is its items and the closing bracket. -/
theorem exists_of_takeItems {fuel : Nat} {s rest : List Char} {ts : List Tree}
    (h : takeItems fuel s = some (ts, rest)) : ∃ u, s = u ++ ']' :: rest ∧ IsItems u ts := by
  cases fuel with
  | zero => exact absurd h (by simp [takeItems])
  | succ fuel =>
      rw [takeItems, Option.bind_eq_bind, Option.bind_eq_some_iff] at h
      obtain ⟨⟨item, behind⟩, hitem, h⟩ := h
      obtain ⟨v, rfl, hv⟩ := exists_of_takeValue hitem
      obtain ⟨b, r, hb, rfl, hskip⟩ := exists_spaces behind
      have helement : IsElement (v ++ b) item := .behind hv hb
      simp only [hskip] at h
      split at h
      · next more =>
          obtain ⟨⟨items, after⟩, hitems, heq⟩ := Option.bind_eq_some_iff.1 h
          obtain ⟨rfl, rfl⟩ := Prod.mk.inj (Option.some.inj heq)
          obtain ⟨b', r, hb', rfl, hskip'⟩ := exists_spaces more
          rw [hskip'] at hitems
          obtain ⟨u, rfl, hu⟩ := exists_of_takeItems hitems
          exact ⟨(v ++ b) ++ ',' :: (b' ++ u), by simp, .more helement (hu.spaces hb')⟩
      · obtain ⟨rfl, rfl⟩ := Prod.mk.inj (Option.some.inj h)
        exact ⟨v ++ b, by simp, .one helement⟩
      · exact absurd h (by simp)
termination_by fuel

/-- What the reader takes in a table is its pairs and the closing brace. -/
theorem exists_of_takePairs {fuel : Nat} {s rest : List Char} {ps : List (Codes × Tree)}
    (h : takePairs fuel s = some (ps, rest)) : ∃ u, s = u ++ '\x7d' :: rest ∧ IsPairs u ps := by
  cases fuel with
  | zero => exact absurd h (by simp [takePairs])
  | succ fuel =>
      unfold takePairs at h
      split at h
      · next tail =>
          obtain ⟨⟨key, colon⟩, hkey, hcolon⟩ := Option.bind_eq_some_iff.1 h
          obtain ⟨k, rfl, hk⟩ := exists_of_takeString hkey
          obtain ⟨b, r, hb, rfl, hskip⟩ := exists_spaces colon
          simp only [hskip] at hcolon
          split at hcolon
          · next front =>
              obtain ⟨b', r, hb', rfl, hskip'⟩ := exists_spaces front
              rw [hskip'] at hcolon
              obtain ⟨⟨value, behind⟩, hvalue, hbehind⟩ := Option.bind_eq_some_iff.1 hcolon
              obtain ⟨v, rfl, hv⟩ := exists_of_takeValue hvalue
              obtain ⟨b'', r, hb'', rfl, hskip''⟩ := exists_spaces behind
              have hentry : IsEntry ('"' :: (k ++ '"' :: (b ++ ':' :: (b' ++ (v ++ b'')))))
                  (key, value) := .mk .nil hk hb (.mk hb' hv hb'')
              simp only [hskip''] at hbehind
              split at hbehind
              · next more =>
                  obtain ⟨⟨pairs, after⟩, hpairs, heq⟩ := Option.bind_eq_some_iff.1 hbehind
                  obtain ⟨rfl, rfl⟩ := Prod.mk.inj (Option.some.inj heq)
                  obtain ⟨b₃, r, hb₃, rfl, hskip₃⟩ := exists_spaces more
                  rw [hskip₃] at hpairs
                  obtain ⟨u, rfl, hu⟩ := exists_of_takePairs hpairs
                  exact ⟨_, by simp, .more hentry (hu.spaces hb₃)⟩
              · obtain ⟨rfl, rfl⟩ := Prod.mk.inj (Option.some.inj hbehind)
                exact ⟨_, by simp, .one hentry⟩
              · exact absurd hbehind (by simp)
          · exact absurd hcolon (by simp)
      · exact absurd h (by simp)
termination_by fuel

end

/-! ### What is derived is taken -/

theorem not_isSpace_of_isNumeralChar {c : Char} (hc : isNumeralChar c = true) :
    isSpace c = false := by
  rw [Bool.eq_false_iff]
  intro hspace
  simp only [isSpace, Bool.or_eq_true, beq_iff_eq] at hspace
  rcases hspace with (((rfl | rfl) | rfl) | rfl) | rfl <;> exact absurd hc (by decide)

/-- A value begins with neither a blank nor a closing bracket. -/
theorem IsValue.exists_head {s : List Char} {t : Tree} (h : IsValue s t) :
    ∃ c r, s = c :: r ∧ isSpace c = false ∧ c ≠ ']' := by
  cases h with
  | number hn _ =>
      obtain ⟨c, r, htext, hc⟩ := exists_head_text hn.toLawful
      refine ⟨c, r, htext, not_isSpace_of_isNumeralChar hc, ?_⟩
      rintro rfl
      exact absurd hc (by decide)
  | _ => exact ⟨_, _, rfl, by decide, by decide⟩

theorem skipSpace_value {b s : List Char} {t : Tree} (hb : Spaces b) (h : IsValue s t)
    (rest : List Char) : skipSpace (b ++ (s ++ rest)) = s ++ rest := by
  obtain ⟨c, r, rfl, hc, -⟩ := h.exists_head
  rw [skipSpace_spaces hb, List.cons_append, skipSpace_cons hc]

/-- No numeral goes on behind a value with blanks behind it. -/
theorem endsNumeral_spaces {b : List Char} (hb : Spaces b) {c : Char}
    (hc : isNumeralChar c = false) (rest : List Char) : EndsNumeral (b ++ c :: rest) := by
  cases b with
  | nil => exact endsNumeral_cons hc rest
  | cons d b =>
      refine endsNumeral_cons ?_ _
      rw [Bool.eq_false_iff]
      intro hd
      exact absurd (hb d (List.mem_cons_self ..)) (by simp [not_isSpace_of_isNumeralChar hd])

theorem takeValue_number {n : Numeral} {t : Tree} (hn : n.Complete) (ht : IsNumber n t)
    {rest : List Char} (hrest : EndsNumeral rest) (fuel : Nat) :
    takeValue (fuel + 1) (n.text ++ rest) = some (t, rest) := by
  have htake : takeNumber (n.text ++ rest) = some (t, rest) := by
    rw [takeNumber, Numeral.take?_text hn hrest]
    cases ht with
    | int hint hlength => simp [hint, Nat.not_lt.2 hlength]
    | float hfloat => simp [hfloat]
  obtain ⟨c, s, htext, hc⟩ := exists_head_text hn.toLawful
  rw [htext, List.cons_append] at htake ⊢
  unfold takeValue
  split
  · next h => exact absurd h (List.cons_ne_nil c _)
  -- none of the characters that begin other data begins a numeral
  all_goals first
    | exact htake
    | next h =>
        rw [(List.cons.inj h).1] at hc
        exact absurd hc (by decide)

section

variable {fuel : Nat} {v b k b' more rest : List Char} {t : Tree} {ts : List Tree}
  {ps : List (Codes × Tree)}

theorem takeItems_last (hb : Spaces b)
    (hvalue : takeValue fuel (v ++ (b ++ ']' :: rest)) = some (t, b ++ ']' :: rest)) :
    takeItems (fuel + 1) (v ++ (b ++ ']' :: rest)) = some ([t], rest) := by
  rw [takeItems, hvalue]
  simp only [Option.bind_eq_bind, Option.bind_some]
  rw [skipSpace_spaces hb, skipSpace_cons (by decide)]
  rfl

theorem takeItems_more (hb : Spaces b)
    (hvalue : takeValue fuel (v ++ (b ++ ',' :: more)) = some (t, b ++ ',' :: more))
    (hitems : takeItems fuel (skipSpace more) = some (ts, rest)) :
    takeItems (fuel + 1) (v ++ (b ++ ',' :: more)) = some (t :: ts, rest) := by
  rw [takeItems, hvalue]
  simp only [Option.bind_eq_bind, Option.bind_some]
  rw [skipSpace_spaces hb, skipSpace_cons (by decide)]
  simp only [hitems]
  rfl

theorem takePairs_last (hk : IsBody k key) (hb : Spaces b) (hb' : Spaces b')
    (hvalue : takeValue fuel (skipSpace v) = some (t, b' ++ '\x7d' :: rest)) :
    takePairs (fuel + 1) ('"' :: (k ++ '"' :: (b ++ ':' :: v))) = some ([(key, t)], rest) := by
  rw [takePairs, takeString_quoted hk]
  simp only [Option.bind_eq_bind, Option.bind_some]
  rw [skipSpace_spaces hb, skipSpace_cons (by decide)]
  simp only [hvalue, Option.bind_some]
  rw [skipSpace_spaces hb', skipSpace_cons (by decide)]
  rfl

theorem takePairs_more (hk : IsBody k key) (hb : Spaces b) (hb' : Spaces b')
    (hvalue : takeValue fuel (skipSpace v) = some (t, b' ++ ',' :: more))
    (hpairs : takePairs fuel (skipSpace more) = some (ps, rest)) :
    takePairs (fuel + 1) ('"' :: (k ++ '"' :: (b ++ ':' :: v))) = some ((key, t) :: ps, rest) := by
  rw [takePairs, takeString_quoted hk]
  simp only [Option.bind_eq_bind, Option.bind_some]
  rw [skipSpace_spaces hb, skipSpace_cons (by decide)]
  simp only [hvalue, Option.bind_some]
  rw [skipSpace_spaces hb', skipSpace_cons (by decide)]
  simp only [hpairs]
  rfl

end

theorem IsElement.head_skipSpace {s : List Char} {t : Tree} (h : IsElement s t)
    (x : List Char) : ∃ c r, skipSpace (s ++ x) = c :: r ∧ c ≠ ']' := by
  obtain ⟨hb, hv, -⟩ := h
  rw [List.append_assoc, List.append_assoc, skipSpace_value hb hv]
  obtain ⟨c, r, rfl, -, hc⟩ := hv.exists_head
  exact ⟨c, _, rfl, hc⟩

theorem IsItems.head_skipSpace {s : List Char} {ts : List Tree} (h : IsItems s ts)
    (x : List Char) : ∃ c r, skipSpace (s ++ x) = c :: r ∧ c ≠ ']' := by
  cases h with
  | one helement => exact helement.head_skipSpace x
  | more helement _ =>
      rw [List.append_assoc]
      exact helement.head_skipSpace _

theorem IsEntry.head_skipSpace {s : List Char} {p : Codes × Tree} (h : IsEntry s p)
    (x : List Char) : ∃ r, skipSpace (s ++ x) = '"' :: r := by
  obtain ⟨hb, -, -, -⟩ := h
  rw [List.append_assoc, skipSpace_spaces hb, List.cons_append, skipSpace_cons (by decide)]
  exact ⟨_, rfl⟩

theorem IsPairs.head_skipSpace {s : List Char} {ps : List (Codes × Tree)} (h : IsPairs s ps)
    (x : List Char) : ∃ r, skipSpace (s ++ x) = '"' :: r := by
  cases h with
  | one hentry => exact hentry.head_skipSpace x
  | more hentry _ =>
      rw [List.append_assoc]
      exact hentry.head_skipSpace _

mutual

/-- The reader takes a value in front of whatever is no numeral any more. -/
theorem takeValue_append {s : List Char} {t : Tree} (h : IsValue s t) {fuel : Nat}
    (hfuel : s.length < fuel) {rest : List Char} (hrest : EndsNumeral rest) :
    takeValue fuel (s ++ rest) = some (t, rest) := by
  obtain ⟨fuel, rfl⟩ := Nat.exists_eq_add_one_of_ne_zero (Nat.ne_of_gt (Nat.zero_lt_of_lt hfuel))
  cases h with
  | nullWord =>
      rw [List.cons_append, takeValue, toList_null, ← List.cons_append, takeWord_append]
      rfl
  | trueWord =>
      rw [List.cons_append, takeValue, toList_true, ← List.cons_append, takeWord_append]
      rfl
  | falseWord =>
      rw [List.cons_append, takeValue, toList_false, ← List.cons_append, takeWord_append]
      rfl
  | number hn ht => exact takeValue_number hn ht hrest fuel
  | string hk =>
      rw [List.cons_append, List.append_assoc, List.singleton_append, takeValue,
        takeString_quoted hk]
      rfl
  | emptyList hb =>
      rw [List.cons_append, List.append_assoc, List.singleton_append, takeValue,
        skipSpace_spaces hb, skipSpace_cons (by decide)]
      rfl
  | @list s items hitems =>
      rw [List.cons_append, List.append_assoc, List.singleton_append, takeValue]
      obtain ⟨c, r, hhead, hc⟩ := hitems.head_skipSpace (']' :: rest)
      have hlength : s.length + 1 < fuel := by
        rw [List.length_cons, List.length_append] at hfuel
        exact Nat.lt_of_succ_lt_succ hfuel
      have htake := takeItems_append hitems hlength rest
      rw [hhead] at htake ⊢
      split
      · next hclose => exact absurd (List.cons.inj hclose).1 hc
      · rw [htake]
        rfl
  | emptyTable hb =>
      rw [List.cons_append, List.append_assoc, List.singleton_append, takeValue,
        skipSpace_spaces hb, skipSpace_cons (by decide)]
      rfl
  | @table s pairs entries hpairs hentries =>
      rw [List.cons_append, List.append_assoc, List.singleton_append, takeValue]
      obtain ⟨r, hhead⟩ := hpairs.head_skipSpace ('\x7d' :: rest)
      have hlength : s.length + 1 < fuel := by
        rw [List.length_cons, List.length_append] at hfuel
        exact Nat.lt_of_succ_lt_succ hfuel
      have htake := takePairs_append hpairs hlength rest
      rw [hhead] at htake ⊢
      split
      · next hclose => exact absurd (List.cons.inj hclose).1 (by decide)
      · rw [htake, hentries.unique (lastValues_tableOf _)]
        rfl
termination_by fuel

/-- The reader takes the items of a list through the closing bracket. -/
theorem takeItems_append {s : List Char} {ts : List Tree} (h : IsItems s ts) {fuel : Nat}
    (hfuel : s.length + 1 < fuel) (rest : List Char) :
    takeItems fuel (skipSpace (s ++ ']' :: rest)) = some (ts, rest) := by
  obtain ⟨fuel, rfl⟩ := Nat.exists_eq_add_one_of_ne_zero (Nat.ne_of_gt (Nat.zero_lt_of_lt hfuel))
  cases h with
  | one helement =>
      obtain ⟨hb, hv, hb'⟩ := helement
      simp only [List.length_append] at hfuel
      have hends := endsNumeral_spaces hb' (c := ']') (by decide) rest
      simp only [List.append_assoc]
      rw [skipSpace_value hb hv]
      exact takeItems_last hb' (takeValue_append hv (by omega) hends)
  | more helement hs =>
      obtain ⟨hb, hv, hb'⟩ := helement
      simp only [List.length_append, List.length_cons] at hfuel
      have hends := endsNumeral_spaces hb' (c := ',') (by decide)
      simp only [List.append_assoc, List.cons_append]
      rw [skipSpace_value hb hv]
      exact takeItems_more hb' (takeValue_append hv (by omega) (hends _))
        (takeItems_append hs (by omega) rest)
termination_by fuel

/-- The reader takes the pairs of a table through the closing brace. -/
theorem takePairs_append {s : List Char} {ps : List (Codes × Tree)} (h : IsPairs s ps)
    {fuel : Nat} (hfuel : s.length + 1 < fuel) (rest : List Char) :
    takePairs fuel (skipSpace (s ++ '\x7d' :: rest)) = some (ps, rest) := by
  obtain ⟨fuel, rfl⟩ := Nat.exists_eq_add_one_of_ne_zero (Nat.ne_of_gt (Nat.zero_lt_of_lt hfuel))
  cases h with
  | one hentry =>
      obtain ⟨hb, hk, hb', helement⟩ := hentry
      obtain ⟨hb₁, hv, hb₂⟩ := helement
      simp only [List.length_append, List.length_cons] at hfuel
      have hends := endsNumeral_spaces hb₂ (c := '\x7d') (by decide) rest
      simp only [List.append_assoc, List.cons_append]
      rw [skipSpace_spaces hb, skipSpace_cons (by decide)]
      refine takePairs_last hk hb' hb₂ ?_
      rw [skipSpace_value hb₁ hv]
      exact takeValue_append hv (by omega) hends
  | more hentry hs =>
      obtain ⟨hb, hk, hb', helement⟩ := hentry
      obtain ⟨hb₁, hv, hb₂⟩ := helement
      simp only [List.length_append, List.length_cons] at hfuel
      have hends := endsNumeral_spaces hb₂ (c := ',') (by decide)
      simp only [List.append_assoc, List.cons_append]
      rw [skipSpace_spaces hb, skipSpace_cons (by decide)]
      refine takePairs_more hk hb' hb₂ ?_ (takePairs_append hs (by omega) rest)
      rw [skipSpace_value hb₁ hv]
      exact takeValue_append hv (by omega) (hends _)
termination_by fuel

end

/-! ### The whole text -/

theorem endsNumeral_of_spaces {b : List Char} (hb : Spaces b) : EndsNumeral b := by
  cases b with
  | nil => simp [EndsNumeral]
  | cons c b =>
      rw [← List.nil_append (c :: b)]
      refine endsNumeral_spaces .nil ?_ b
      rw [Bool.eq_false_iff]
      intro hc
      exact absurd (hb c (List.mem_cons_self ..)) (by simp [not_isSpace_of_isNumeralChar hc])

/-- A text is structured data if the grammar derives it, blanks around it included. -/
theorem readStructured_eq_some_iff {s : List Char} {t : Tree} :
    readStructured s = some t ↔ IsElement s t := by
  rw [readStructured]
  constructor
  · intro h
    obtain ⟨⟨u, behind⟩, hvalue, hrest⟩ := Option.bind_eq_some_iff.1 h
    obtain ⟨b, r, hb, rfl, hskip⟩ := exists_spaces s
    rw [hskip] at hvalue
    obtain ⟨v, rfl, hv⟩ := exists_of_takeValue hvalue
    obtain ⟨b', r, hb', rfl, hskip'⟩ := exists_spaces behind
    simp only [hskip'] at hrest
    split at hrest
    · next hend =>
        obtain rfl := Option.some.inj hrest
        obtain rfl := List.isEmpty_iff.1 hend
        rw [List.append_nil]
        exact .mk hb hv hb'
    · exact absurd hrest (by simp)
  · rintro ⟨hb, hv, hb'⟩
    have hfuel (b v b' : List Char) : v.length < (b ++ (v ++ b')).length + 1 := by
      rw [List.length_append, List.length_append]
      omega
    rw [skipSpace_value hb hv, takeValue_append hv (hfuel ..) (endsNumeral_of_spaces hb')]
    have hskip := skipSpace_spaces hb' []
    rw [List.append_nil] at hskip
    simp only [Option.bind_eq_bind, Option.bind_some, hskip]
    rfl

example : IsElement ['+', '0', '1', '\n'] (.int 1) := readStructured_eq_some_iff.1 rfl

theorem IsElement.unique {s : List Char} {t t' : Tree} (h : IsElement s t)
    (h' : IsElement s t') : t = t' := by
  rw [← readStructured_eq_some_iff] at h h'
  rw [h, Option.some.injEq] at h'
  exact h'

end ObjectConsole.Literal
