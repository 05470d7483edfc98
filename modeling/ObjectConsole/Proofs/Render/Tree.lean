import ObjectConsole.Proofs.Coercion.Display
import ObjectConsole.Proofs.Literal.Printed
import ObjectConsole.Render

/-!
Structured data in the world, and its text. A value is a tree in a world if its
cells unfold to the tree. The text of the value is the printed form of the tree,
as long as the tree is no higher than the printer goes; of a higher one there is
no text.
-/

namespace ObjectConsole

open Literal (Tree Codes)

mutual

inductive IsTree (w : World) : Tree → Value → Prop
  | null : IsTree w .null .null
  | bool (b : Bool) : IsTree w (.bool b) (.bool b)
  | int {v : Value} {n : Int} (h : v.asInt? = some n) : IsTree w (.int n) v
  | text (s : String) : IsTree w (.text (.ofText s.toList)) (.text s)
  | list {r : Ref} {items : List Tree} {values : List Value}
      (hr : w.get? r = some (.list values)) (h : AreItems w items values) :
      IsTree w (.list items) (.object r)
  | table {r : Ref} {entries : List (Codes × Tree)} {pairs : List (Value × Value)}
      (hr : w.get? r = some (.table false pairs)) (h : AreEntries w entries pairs) :
      IsTree w (.table entries) (.object r)

inductive AreItems (w : World) : List Tree → List Value → Prop
  | nil : AreItems w [] []
  | cons {t : Tree} {ts : List Tree} {v : Value} {vs : List Value} (h : IsTree w t v)
      (hs : AreItems w ts vs) : AreItems w (t :: ts) (v :: vs)

inductive AreEntries (w : World) : List (Codes × Tree) → List (Value × Value) → Prop
  | nil : AreEntries w [] []
  | cons {key : String} {t : Tree} {entries : List (Codes × Tree)} {v : Value}
      {pairs : List (Value × Value)} (h : IsTree w t v) (hs : AreEntries w entries pairs) :
      AreEntries w ((.ofText key.toList, t) :: entries) ((.text key, v) :: pairs)

end

mutual

/-- How many levels of items and entries are below a tree. -/
def Literal.Tree.height : Tree → Nat
  | .list items => itemsHeight items
  | .table entries => entriesHeight entries
  | _ => 0

def Literal.Tree.itemsHeight : List Tree → Nat
  | [] => 0
  | item :: items => max (item.height + 1) (itemsHeight items)

def Literal.Tree.entriesHeight : List (Codes × Tree) → Nat
  | [] => 0
  | (_, tree) :: entries => max (tree.height + 1) (entriesHeight entries)

end

variable {w : World} {v : Value} {cat : Catalog}

/-! ### The printed form as a string -/

theorem toList_commaList (texts : List String) :
    (commaList texts).toList = Literal.separator.intercalate (texts.map String.toList) := by
  have hcomma : ", ".toList = Literal.separator := by decide +kernel
  rw [commaList, String.toList_intercalate, hcomma]

def Literal.Tree.string (t : Tree) : String := String.ofList t.print

theorem listText_string (items : List Tree) :
    listText (items.map Tree.string) = (Tree.list items).string := by
  have hparts : (items.map Tree.string).map String.toList = items.map Tree.print := by
    rw [List.map_map]
    exact List.map_congr_left fun t _ => String.toList_ofList
  refine String.toList_inj.1 ?_
  rw [listText, Tree.string, Literal.print_list]
  simp [toList_commaList, hparts]

def Literal.entryStrings (entry : Codes × Tree) : String × String :=
  (quotedItem (String.ofList entry.1.text), entry.2.string)

theorem toList_quotedItem (s : String) : (quotedItem s).toList = '"' :: (s.toList ++ ['"']) := by
  rw [quotedItem, String.toList_append, String.toList_append]
  rfl

theorem tableText_string (entries : List (Codes × Tree)) :
    tableText (entries.map Literal.entryStrings) = (Tree.table entries).string := by
  cases entries with
  | nil => rfl
  | cons entry entries =>
      have hparts : (((entry :: entries).map Literal.entryStrings).map fun p =>
          p.1 ++ ": " ++ p.2).map String.toList = (entry :: entries).map Literal.printEntry := by
        rw [List.map_map, List.map_map]
        refine List.map_congr_left fun e _ => ?_
        have hcolon : ": ".toList = [':', ' '] := by decide +kernel
        simp [Literal.entryStrings, Literal.printEntry, Tree.string, toList_quotedItem, hcolon]
      refine String.toList_inj.1 ?_
      rw [tableText, if_neg (by simp), Tree.string,
        Literal.print_table (List.cons_ne_nil entry entries), String.toList_append,
        String.toList_append, toList_commaList, hparts]
      simp

/-! ### The text of a tree -/

theorem summary_of_asInt? (o : Outlines) {n : Int} (h : v.asInt? = some n) :
    o.summary w v = integerText n := by
  cases v with
  | int m =>
      obtain rfl := Option.some.inj h
      rfl
  | sized width m own =>
      obtain rfl := Option.some.inj h
      rfl
  | _ => exact nomatch h

theorem itemWithin_of_asInt? (cat : Catalog) {n : Int} (h : v.asInt? = some n) (levels : Nat) :
    cat.itemWithin w (levels + 1) v = integerText n := by
  have hsummary := summary_of_asInt? (w := w) cat.toOutlines h
  cases v with
  | int m => exact hsummary
  | sized width m own => exact hsummary
  | _ => exact nomatch h

theorem format_of_asInt? (cat : Catalog) {n : Int} (h : v.asInt? = some n) :
    cat.format w v = integerText n := by
  have hitem := itemWithin_of_asInt? (w := w) cat h cat.limits.prints
  cases v with
  | int m => exact hitem
  | sized width m own => exact hitem
  | _ => exact nomatch h

/-- Two parts that fail with one error make a whole that fails with it. -/
theorem bind_ite_error {ε α β γ : Type} {p q : Prop} [Decidable p] [Decidable q] (a : α) (b : β)
    (f : α → β → γ) (e : ε) :
    ((if p then .ok a else .error e : Except ε α) >>= fun x =>
        (if q then .ok b else .error e : Except ε β) >>= fun y => .ok (f x y)) =
      if p ∧ q then .ok (f a b) else .error e := by
  by_cases hp : p <;> by_cases hq : q <;> simp only [hp, hq, and_self, and_true, and_false,
    if_true, if_false] <;> rfl

mutual

/-- The printer has a text for a tree if it may go down to the lowest level, and
else it fails. -/
theorem IsTree.itemWithin {t : Tree} {v : Value} (h : IsTree w t v) (ht : t.isPrintable = true)
    (levels : Nat) :
    cat.itemWithin w levels v =
      if t.height < levels then .ok t.string else .error (.tooDeep "") := by
  cases levels with
  | zero => rfl
  | succ levels =>
      cases h with
      | null => rfl
      | bool b => cases b <;> rfl
      | int hn =>
          rw [itemWithin_of_asInt? cat hn,
            integerText_of_lt (by simpa [Tree.isPrintable] using ht), Tree.string, Tree.print,
            String.ofList_toList]
          rfl
      | text s =>
          have htext : cat.itemWithin w (levels + 1) (.text s) = .ok (quotedItem s) := rfl
          rw [htext, Tree.string, Tree.print, Codes.text_ofText, ← toList_quotedItem,
            String.ofList_toList]
          rfl
      | list hr hitems =>
          rw [Catalog.itemWithin, hr]
          simp only
          rw [hitems.mapM_itemWithin ht levels, Literal.Tree.height]
          simp only [Nat.lt_succ_iff]
          split
          · exact congrArg Except.ok (listText_string _)
          · rfl
      | table hr hentries =>
          rw [Tree.isPrintable, Bool.and_eq_true] at ht
          rw [Catalog.itemWithin, hr]
          simp only
          rw [hentries.mapM_itemWithin ht.2 levels, Literal.Tree.height]
          simp only [Nat.lt_succ_iff]
          split
          · exact congrArg Except.ok (tableText_string _)
          · rfl

theorem AreItems.mapM_itemWithin {ts : List Tree} {vs : List Value} (h : AreItems w ts vs)
    (ht : Literal.itemsPrintable ts = true) (levels : Nat) :
    vs.mapM (cat.itemWithin w levels) =
      if Literal.Tree.itemsHeight ts ≤ levels then .ok (ts.map Tree.string)
      else .error (.tooDeep "") := by
  cases h with
  | nil => rfl
  | cons hitem hitems =>
      rw [Literal.itemsPrintable, Bool.and_eq_true] at ht
      rw [List.mapM_cons, hitem.itemWithin ht.1, hitems.mapM_itemWithin ht.2,
        Literal.Tree.itemsHeight]
      simp only [Nat.max_le, Nat.succ_le_iff]
      exact bind_ite_error _ _ List.cons _

theorem AreEntries.mapM_itemWithin {es : List (Codes × Tree)} {ps : List (Value × Value)}
    (h : AreEntries w es ps) (ht : Literal.entriesPrintable es = true) (levels : Nat) :
    (ps.mapM fun (k, x) => do
      return (← cat.itemWithin w levels k, ← cat.itemWithin w levels x)) =
      if Literal.Tree.entriesHeight es ≤ levels then .ok (es.map Literal.entryStrings)
      else .error (.tooDeep "") := by
  cases h with
  | nil => rfl
  | @cons key t es v ps hentry hentries =>
      rw [Literal.entriesPrintable, Bool.and_eq_true, Bool.and_eq_true] at ht
      rw [List.mapM_cons, hentries.mapM_itemWithin ht.2, Literal.Tree.entriesHeight]
      cases levels with
      | zero =>
          have hdeep : ¬max (t.height + 1) (Literal.Tree.entriesHeight es) ≤ 0 := by
            rw [Nat.max_le]
            exact fun hle => absurd hle.1 (by simp)
          rw [if_neg hdeep]
          rfl
      | succ levels =>
          have hkey : cat.itemWithin w (levels + 1) (.text key) = .ok (quotedItem key) := rfl
          have hboth := bind_ite_error (p := t.height < levels + 1)
            (q := Literal.Tree.entriesHeight es ≤ levels + 1) t.string
            (es.map Literal.entryStrings) (fun x y => (quotedItem key, x) :: y) (Raised.tooDeep "")
          simp only [hkey, hentry.itemWithin ht.1.2, Nat.max_le, Nat.succ_le_iff, List.map_cons,
            Literal.entryStrings, Codes.text_ofText, String.ofList_toList]
          rw [← hboth]
          split <;> rfl

end

end ObjectConsole
