import ObjectConsole.Proofs.Literal.Derivation

/-!
Structured data as it is printed, and reading it back. The printed form has a
blank behind each comma and colon and inside the braces of a table that is not
empty, and strings stand between their quotes as they are. So a tree is printed
faithfully if no string in it needs an escape and no integer is too long: the
grammar then derives the printed form, of this tree.
-/

namespace ObjectConsole.Literal

/-! ### Strings without escapes -/

def Codes.ofText (s : List Char) : Codes := s.map Char.toNat

/-- Whether a string is printed faithfully: all code points are characters that
need no escapes. -/
def Codes.isPlain (s : Codes) : Bool :=
  s.all fun u => (Char.ofNat u).toNat == u && isPlainChar (Char.ofNat u)

theorem isHalf_toNat (c : Char) : isHalf c.toNat = false := by
  have hvalid : c.toNat < 0xD800 ∨ 0xDFFF < c.toNat ∧ c.toNat < 0x110000 := c.valid
  simp only [isHalf, isHighHalf, isLowHalf, Bool.or_eq_false_iff, Bool.and_eq_false_iff,
    decide_eq_false_iff_not]
  omega

theorem Codes.text_ofText (s : List Char) : (Codes.ofText s).text = s := by
  rw [ofText, text, List.map_map]
  conv_rhs => rw [← List.map_id s]
  refine List.map_congr_left fun c _ => ?_
  simp [isHalf_toNat]

theorem Codes.ofText_text {s : Codes} (h : s.isPlain = true) : Codes.ofText s.text = s := by
  rw [ofText, text, List.map_map]
  conv_rhs => rw [← List.map_id s]
  refine List.map_congr_left fun u hu => ?_
  have hcode : (Char.ofNat u).toNat = u :=
    beq_iff_eq.1 (Bool.and_eq_true_iff.1 (List.all_eq_true.1 h u hu)).1
  have hwhole : isHalf u = false := hcode ▸ isHalf_toNat _
  simp [hwhole, hcode]

/-! ### The printed form -/

mutual

/-- The printed form of structured data. Numbers with a point have none that is
read back in all cases, and are left out. -/
def Tree.print : Tree → List Char
  | .null => ['n', 'u', 'l', 'l']
  | .bool true => ['t', 'r', 'u', 'e']
  | .bool false => ['f', 'a', 'l', 's', 'e']
  | .int n => (toString n).toList
  | .float _ => []
  | .text s => '"' :: (s.text ++ ['"'])
  | .list [] => ['[', ']']
  | .list (item :: items) => '[' :: (item.print ++ printItems items)
  | .table [] => ['\x7b', '\x7d']
  | .table ((key, tree) :: entries) =>
    '\x7b' :: ' ' :: '"' :: (key.text ++ '"' :: ':' :: ' ' :: (tree.print ++ printEntries entries))

def printItems : List Tree → List Char
  | [] => [']']
  | item :: items => ',' :: ' ' :: (item.print ++ printItems items)

def printEntries : List (Codes × Tree) → List Char
  | [] => [' ', '\x7d']
  | (key, tree) :: entries =>
    ',' :: ' ' :: '"' :: (key.text ++ '"' :: ':' :: ' ' :: (tree.print ++ printEntries entries))

end

def separator : List Char := [',', ' ']

def printEntry (entry : Codes × Tree) : List Char :=
  '"' :: (entry.1.text ++ '"' :: ':' :: ' ' :: entry.2.print)

theorem print_list (items : List Tree) :
    (Tree.list items).print = '[' :: (separator.intercalate (items.map Tree.print) ++ [']']) := by
  cases items with
  | nil => rfl
  | cons item items =>
      rw [Tree.print]
      congr 1
      induction items generalizing item with
      | nil => rw [List.map_singleton, List.intercalate_singleton, printItems]
      | cons next items ih =>
          rw [printItems, ih next]
          simp [separator]

theorem print_table {entries : List (Codes × Tree)} (h : entries ≠ []) :
    (Tree.table entries).print =
      '\x7b' :: ' ' :: (separator.intercalate (entries.map printEntry) ++ [' ', '\x7d']) := by
  obtain ⟨⟨key, tree⟩, entries, rfl⟩ := List.exists_cons_of_ne_nil h
  clear h
  rw [Tree.print]
  congr 2
  induction entries generalizing key tree with
  | nil => simp [printEntries, printEntry]
  | cons next entries ih =>
      obtain ⟨next, item⟩ := next
      rw [printEntries, ih next item]
      simp [separator, printEntry]

mutual

/-- Structured data that is printed faithfully: without floats, with integers that
are short enough, with strings that need no escapes, and with distinct keys. -/
def Tree.isPrintable : Tree → Bool
  | .null | .bool _ => true
  | .int n => decide (n.natAbs < 10 ^ digitLimit)
  | .float _ => false
  | .text s => s.isPlain
  | .list items => itemsPrintable items
  | .table entries => decide (entries.map (·.1)).Nodup && entriesPrintable entries

def itemsPrintable : List Tree → Bool
  | [] => true
  | item :: items => item.isPrintable && itemsPrintable items

def entriesPrintable : List (Codes × Tree) → Bool
  | [] => true
  | (key, tree) :: entries => key.isPlain && tree.isPrintable && entriesPrintable entries

end

/-! ### Tables -/

theorem setKey_of_not_mem {key : Codes} {value : Tree} {entries : List (Codes × Tree)}
    (h : key ∉ entries.map (·.1)) : setKey key value entries = entries ++ [(key, value)] := by
  induction entries with
  | nil => rfl
  | cons entry entries ih =>
      obtain ⟨k, v⟩ := entry
      rw [List.map_cons, List.mem_cons, not_or] at h
      rw [setKey, if_neg (Ne.symm h.1), ih h.2, List.cons_append]

/-- Pairs with distinct keys are the entries of their table. -/
theorem tableOf_of_nodup {pairs : List (Codes × Tree)} (h : (pairs.map (·.1)).Nodup) :
    tableOf pairs = pairs := by
  have hfold (entries : List (Codes × Tree)) (hall : ((entries ++ pairs).map (·.1)).Nodup) :
      pairs.foldl (fun entries e => setKey e.1 e.2 entries) entries =
        entries ++ pairs := by
    induction pairs generalizing entries with
    | nil => simp
    | cons pair pairs ih =>
        obtain ⟨key, value⟩ := pair
        have hnew : key ∉ entries.map (·.1) := by
          rw [List.map_append, List.nodup_append] at hall
          exact fun hmem => hall.2.2 _ hmem _ (List.mem_map_of_mem (List.mem_cons_self ..)) rfl
        have hstep : entries ++ (key, value) :: pairs = (entries ++ [(key, value)]) ++ pairs := by
          simp
        rw [List.foldl_cons, setKey_of_not_mem hnew, hstep]
        exact ih (List.nodup_cons.1 h).2 _ (hstep ▸ hall)
  exact hfold [] h

theorem lastValues_of_nodup {pairs : List (Codes × Tree)} (h : (pairs.map (·.1)).Nodup) :
    LastValues pairs pairs := by
  have hlast := lastValues_tableOf pairs
  rwa [tableOf_of_nodup h] at hlast

/-! ### The printed form in the grammar -/

/-- A string without escapes stands between its quotes as it is. -/
theorem isBody_plain {s : Codes} (hs : s.isPlain = true) : IsBody s.text s := by
  induction s with
  | nil => exact .nil
  | cons u s ih =>
      rw [Codes.isPlain, List.all_cons, Bool.and_eq_true, Bool.and_eq_true, beq_iff_eq] at hs
      obtain ⟨⟨hcode, hplain⟩, hs⟩ := hs
      have hwhole : isHalf u = false := hcode ▸ isHalf_toNat _
      have hbody : IsBody ([Char.ofNat u] ++ Codes.text s) ((Char.ofNat u).toNat :: s) :=
        .cons (.plain hplain) (ih hs)
      rw [hcode] at hbody
      rwa [Codes.text, List.map_cons, if_neg (by simp [hwhole])]

theorem isValue_toString {n : Int} (hn : n.natAbs < 10 ^ digitLimit) :
    IsValue (toString n).toList (.int n) := by
  have hcomplete : Numeral.Complete ⟨decimalSign n, decimalDigits n, none, none⟩ :=
    ⟨⟨isSign_decimalSign n, digits_decimalDigits n, by simp, by simp,
      .inl (decimalDigits_ne_nil n)⟩, by simp⟩
  have hlength : (decimalDigits n).length ≤ digitLimit := (length_decimalDigits_le (by decide)).2 hn
  have hnumber := IsNumber.int (n := ⟨decimalSign n, decimalDigits n, none, none⟩) rfl hlength
  have htext : Numeral.text ⟨decimalSign n, decimalDigits n, none, none⟩ = (toString n).toList := by
    rw [toList_toString, Numeral.text]
    simp [fractionText, powerText]
  rw [toInt_decimal] at hnumber
  rw [← htext]
  exact .number hcomplete hnumber

mutual

/-- The printed form of a tree is a value, and the tree is what it is a value of. -/
theorem isValue_print (t : Tree) (ht : t.isPrintable = true) : IsValue t.print t := by
  cases t with
  | null => exact .nullWord
  | bool b =>
      cases b with
      | true => exact .trueWord
      | false => exact .falseWord
  | int n => exact isValue_toString (by simpa [Tree.isPrintable] using ht)
  | float x => exact nomatch ht
  | text s => exact .string (isBody_plain (by simpa [Tree.isPrintable] using ht))
  | list items =>
      cases items with
      | nil => exact .emptyList .nil
      | cons item items =>
          obtain ⟨u, hu, hitems⟩ := isItems_print item items (by simpa [Tree.isPrintable] using ht)
          rw [Tree.print, hu]
          exact .list hitems
  | table entries =>
      cases entries with
      | nil => exact .emptyTable .nil
      | cons entry entries =>
          cases entry with
          | mk key tree =>
              rw [Tree.isPrintable, Bool.and_eq_true, decide_eq_true_eq] at ht
              obtain ⟨u, hu, hpairs⟩ := isPairs_print key tree entries ht.2
              rw [Tree.print, hu]
              exact .table hpairs (lastValues_of_nodup ht.1)
termination_by sizeOf t

theorem isItems_print (item : Tree) (items : List Tree)
    (h : itemsPrintable (item :: items) = true) :
    ∃ u, item.print ++ printItems items = u ++ [']'] ∧ IsItems u (item :: items) := by
  rw [itemsPrintable, Bool.and_eq_true] at h
  have hitem := (isValue_print item h.1).element
  cases items with
  | nil => exact ⟨item.print, rfl, .one hitem⟩
  | cons next items =>
      obtain ⟨u, hu, hitems⟩ := isItems_print next items h.2
      have hspace : Spaces [' '] := .cons (by decide) .nil
      exact ⟨item.print ++ ',' :: ([' '] ++ u), by simp [printItems, hu],
        .more hitem (hitems.spaces hspace)⟩
termination_by sizeOf item + sizeOf items + 1

theorem isPairs_print (key : Codes) (tree : Tree) (entries : List (Codes × Tree))
    (h : entriesPrintable ((key, tree) :: entries) = true) :
    ∃ u, ' ' :: '"' :: (key.text ++ '"' :: ':' :: ' ' :: (tree.print ++ printEntries entries)) =
        u ++ ['\x7d'] ∧ IsPairs u ((key, tree) :: entries) := by
  rw [entriesPrintable, Bool.and_eq_true, Bool.and_eq_true] at h
  have hspace : Spaces [' '] := .cons (by decide) .nil
  have htree := isValue_print tree h.1.2
  cases entries with
  | nil =>
      have hentry := IsEntry.mk hspace (isBody_plain h.1.1) .nil (.mk hspace htree hspace)
      exact ⟨_, by simp [printEntries], .one hentry⟩
  | cons entry entries =>
      cases entry with
      | mk next item =>
          obtain ⟨u, hu, hpairs⟩ := isPairs_print next item entries h.2
          have hentry := IsEntry.mk hspace (isBody_plain h.1.1) .nil (.mk hspace htree .nil)
          exact ⟨_, by simp [printEntries, hu], .more hentry hpairs⟩
termination_by sizeOf tree + sizeOf entries + 1

end

/-- Printed data is read back in full. -/
theorem readStructured_print {t : Tree} (ht : t.isPrintable = true) :
    readStructured t.print = some t :=
  readStructured_eq_some_iff.2 (isValue_print t ht).element

end ObjectConsole.Literal
