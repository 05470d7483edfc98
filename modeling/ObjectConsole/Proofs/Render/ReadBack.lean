import ObjectConsole.Proofs.Literal.Stored
import ObjectConsole.Proofs.Render.Tree
import ObjectConsole.Sample.Catalog

/-!
What the console prints can be read back. The text of a list or a table of
structured data is the printed form of its tree, which the reader of structured
data takes in full; the tree is then put into the world again. So values with
the same text are the same data, in whatever worlds they are. Only trees that
are higher than the printer goes have no text.
-/

namespace ObjectConsole

open Literal (Tree Codes)

variable {w w' : World} {v : Value} {t : Tree} {cat : Catalog}

/-! ### Putting a tree into the world -/

mutual

/-- Data that can be printed is the tree of the value that holds it. -/
theorem isTree_of_heldBy (t : Tree) (ht : t.isPrintable = true) {v : Value}
    (h : t.HeldBy w v) : IsTree w t v := by
  cases t with
  | null =>
      subst h
      exact .null
  | bool b =>
      subst h
      exact .bool b
  | int n =>
      subst h
      exact .int rfl
  | float x => exact nomatch ht
  | text s =>
      subst h
      have htext : IsTree w _ (.text (String.ofList s.text)) := .text _
      rwa [String.toList_ofList, Codes.ofText_text (by simpa [Tree.isPrintable] using ht)] at htext
  | list items =>
      obtain ⟨r, vs, rfl, hr, hitems⟩ := h
      exact .list hr (areItems_of_heldBy items ht hitems)
  | table entries =>
      obtain ⟨r, ps, rfl, hr, hentries⟩ := h
      exact .table hr (areEntries_of_heldBy entries (Bool.and_eq_true _ _ ▸ ht : _ ∧ _).2 hentries)

theorem areItems_of_heldBy (items : List Tree) (ht : Literal.itemsPrintable items = true)
    {vs : List Value} (h : Literal.itemsHeldBy w vs items) : AreItems w items vs := by
  cases items with
  | nil =>
      subst h
      exact .nil
  | cons item items =>
      rw [Literal.itemsPrintable, Bool.and_eq_true] at ht
      obtain ⟨u, us, rfl, hu, hus⟩ := h
      exact .cons (isTree_of_heldBy item ht.1 hu) (areItems_of_heldBy items ht.2 hus)

theorem areEntries_of_heldBy (entries : List (Codes × Tree))
    (ht : Literal.entriesPrintable entries = true) {ps : List (Value × Value)}
    (h : Literal.entriesHeldBy w ps entries) : AreEntries w entries ps := by
  cases entries with
  | nil =>
      subst h
      exact .nil
  | cons entry entries =>
      obtain ⟨key, tree⟩ := entry
      rw [Literal.entriesPrintable, Bool.and_eq_true, Bool.and_eq_true] at ht
      obtain ⟨u, us, rfl, hu, hus⟩ := h
      have hentry : AreEntries w _ ((.text (String.ofList key.text), u) :: us) :=
        .cons (isTree_of_heldBy tree ht.1.2 hu) (areEntries_of_heldBy entries ht.2 hus)
      rwa [String.toList_ofList, Codes.ofText_text ht.1.1] at hentry

end

/-- A tree that can be printed is put into every world, which grows by it. -/
theorem store_isTree (t : Tree) (ht : t.isPrintable = true) (w : World) :
    ∃ v w', t.store w = .ok v w' ∧ w.Extends w' ∧ IsTree w' t v := by
  obtain ⟨v, w', hstore, hext, hv⟩ := t.store_heldBy w
  exact ⟨v, w', hstore, hext, isTree_of_heldBy t ht hv⟩

/-! ### Reading back -/

def Literal.Tree.isNested : Tree → Bool
  | .list _ | .table _ => true
  | _ => false

theorem format_isTree (h : IsTree w t v) (hroot : t.isNested = true)
    (ht : t.isPrintable = true) :
    cat.format w v =
      if t.height ≤ cat.limits.prints then .ok t.string else .error (.tooDeep "") := by
  have hitem : cat.itemWithin w (cat.limits.prints + 1) v = _ := h.itemWithin ht _
  simp only [Nat.lt_succ_iff] at hitem
  cases h with
  | list hr hitems => exact hitem
  | table hr hentries => exact hitem
  | _ => cases hroot

theorem readStructured_string (ht : t.isPrintable = true) :
    Literal.readStructured t.string.toList = some t := by
  rw [Tree.string, String.toList_ofList, Literal.readStructured_print ht]

theorem eq_string_of_format {text : String} (h : IsTree w t v) (hroot : t.isNested = true)
    (ht : t.isPrintable = true) (htext : cat.format w v = .ok text) : t.string = text := by
  rw [format_isTree h hroot ht] at htext
  split at htext
  · exact Except.ok.inj htext
  · exact absurd htext (by simp)

def mixedTree : Tree :=
  .table [(.ofText "a".toList, .list [.int (-20), .null, .bool true,
      .text (.ofText "[1, 2]".toList)]),
    (.ofText "".toList, .table []), (.ofText "b c".toList, .list [.list []])]

def nestedList : Nat → Tree
  | 0 => .list []
  | n + 1 => .list [nestedList n]

theorem height_nestedList (n : Nat) : (nestedList n).height = n := by
  induction n with
  | zero => rfl
  | succ n ih => simp [nestedList, Literal.Tree.height, Literal.Tree.itemsHeight, ih]

theorem isPrintable_nestedList (n : Nat) : (nestedList n).isPrintable = true := by
  induction n with
  | zero => rfl
  | succ n ih => simp [nestedList, Tree.isPrintable, Literal.itemsPrintable, ih]

theorem isNested_nestedList (n : Nat) : (nestedList n).isNested = true := by
  cases n <;> rfl

end ObjectConsole
