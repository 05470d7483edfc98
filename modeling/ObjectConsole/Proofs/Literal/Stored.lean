import ObjectConsole.Proofs.Evaluation.Comparison
import ObjectConsole.Proofs.Literal.Derivation
import ObjectConsole.Proofs.World.Change
import ObjectConsole.Reading

/-!
Structured data as it is put into the world. Scalars become values at once, and
each list and each table gets a cell of its own, which holds its items and entries
in their order. No cell that is there already is touched, and nothing fails: a
token is structured data exactly if the grammar derives it.
-/

namespace ObjectConsole

open Literal (Tree IsElement)

namespace Literal

mutual

/-- The value is the data, in the world. -/
def Tree.HeldBy (w : World) (v : Value) : Tree → Prop
  | .null => v = .null
  | .bool b => v = .bool b
  | .int n => v = .int n
  | .float x => v = .float x
  | .text s => v = .text (String.ofList s.text)
  | .list items => ∃ r vs, v = .object r ∧ w.get? r = some (.list vs) ∧ itemsHeldBy w vs items
  | .table entries =>
    ∃ r ps, v = .object r ∧ w.get? r = some (.table false ps) ∧ entriesHeldBy w ps entries

def itemsHeldBy (w : World) (vs : List Value) : List Tree → Prop
  | [] => vs = []
  | item :: items => ∃ u us, vs = u :: us ∧ item.HeldBy w u ∧ itemsHeldBy w us items

def entriesHeldBy (w : World) (ps : List (Value × Value)) : List (Codes × Tree) → Prop
  | [] => ps = []
  | (key, tree) :: entries =>
    ∃ u us, ps = (.text (String.ofList key.text), u) :: us ∧ tree.HeldBy w u ∧
      entriesHeldBy w us entries

end

variable {w w' : World} {v : Value}

mutual

/-- Where a world only grows, a value stays the data that it is. -/
theorem Tree.HeldBy.mono {t : Tree} {v : Value} (h : t.HeldBy w v) (hext : w.Extends w') :
    t.HeldBy w' v := by
  cases t with
  | null | bool _ | int _ | float _ | text _ => exact h
  | list items =>
      obtain ⟨r, vs, hv, hr, hitems⟩ := h
      exact ⟨r, vs, hv, hext _ _ hr, itemsHeldBy_mono hext items hitems⟩
  | table entries =>
      obtain ⟨r, ps, hv, hr, hentries⟩ := h
      exact ⟨r, ps, hv, hext _ _ hr, entriesHeldBy_mono hext entries hentries⟩

theorem itemsHeldBy_mono (hext : w.Extends w') :
    ∀ (items : List Tree) {vs : List Value}, itemsHeldBy w vs items → itemsHeldBy w' vs items
  | [], _, h => h
  | _ :: items, _, ⟨u, us, hvs, hu, hus⟩ =>
    ⟨u, us, hvs, hu.mono hext, itemsHeldBy_mono hext items hus⟩

theorem entriesHeldBy_mono (hext : w.Extends w') :
    ∀ (entries : List (Codes × Tree)) {ps : List (Value × Value)},
      entriesHeldBy w ps entries → entriesHeldBy w' ps entries
  | [], _, h => h
  | _ :: entries, _, ⟨u, us, hps, hu, hus⟩ =>
    ⟨u, us, hps, hu.mono hext, entriesHeldBy_mono hext entries hus⟩

end

mutual

/-- Every tree can be put into every world, which grows by it. -/
theorem Tree.store_heldBy (t : Tree) (w : World) :
    ∃ v w', t.store w = .ok v w' ∧ w.Extends w' ∧ t.HeldBy w' v := by
  cases t with
  | null | bool _ | int _ | float _ | text _ => exact ⟨_, w, rfl, .refl w, rfl⟩
  | list items =>
      obtain ⟨vs, w', hstore, hext, hitems⟩ := storeItems_heldBy items w
      have halloc := w'.extends_alloc (.list vs)
      refine ⟨_, (w'.alloc (.list vs)).2, ?_, hext.trans halloc,
        ⟨_, vs, rfl, World.get?_alloc_self w' _, itemsHeldBy_mono halloc items hitems⟩⟩
      rw [Tree.store, Eval.bind_apply, hstore]
      rfl
  | table entries =>
      obtain ⟨ps, w', hstore, hext, hentries⟩ := storeEntries_heldBy entries w
      have halloc := w'.extends_alloc (.table false ps)
      refine ⟨_, (w'.alloc (.table false ps)).2, ?_, hext.trans halloc,
        ⟨_, ps, rfl, World.get?_alloc_self w' _, entriesHeldBy_mono halloc entries hentries⟩⟩
      rw [Tree.store, Eval.bind_apply, hstore]
      rfl

theorem storeItems_heldBy (items : List Tree) (w : World) :
    ∃ vs w', Tree.storeItems items w = .ok vs w' ∧ w.Extends w' ∧ itemsHeldBy w' vs items := by
  cases items with
  | nil => exact ⟨[], w, rfl, .refl w, rfl⟩
  | cons item items =>
      obtain ⟨v, w₁, hitem, hext₁, hv⟩ := item.store_heldBy w
      obtain ⟨vs, w₂, hitems, hext₂, hvs⟩ := storeItems_heldBy items w₁
      refine ⟨v :: vs, w₂, ?_, hext₁.trans hext₂, v, vs, rfl, hv.mono hext₂, hvs⟩
      rw [Tree.storeItems, Eval.bind_apply, hitem]
      simp only [Eval.bind_apply, hitems]
      rfl

theorem storeEntries_heldBy (entries : List (Codes × Tree)) (w : World) :
    ∃ ps w', Tree.storeEntries entries w = .ok ps w' ∧ w.Extends w' ∧
      entriesHeldBy w' ps entries := by
  cases entries with
  | nil => exact ⟨[], w, rfl, .refl w, rfl⟩
  | cons entry entries =>
      obtain ⟨key, tree⟩ := entry
      obtain ⟨v, w₁, htree, hext₁, hv⟩ := tree.store_heldBy w
      obtain ⟨ps, w₂, hentries, hext₂, hps⟩ := storeEntries_heldBy entries w₁
      refine ⟨_, w₂, ?_, hext₁.trans hext₂, v, ps, rfl, hv.mono hext₂, hps⟩
      rw [Tree.storeEntries, Eval.bind_apply, htree]
      simp only [Eval.bind_apply, hentries]
      rfl

end

end Literal

/-- Structured data is exactly what the grammar derives. A derivable text is of one
tree only, which is put into the world without touching what is there, and of any
other text nothing is made; reading never fails. -/
theorem Reading.structured?_grammar (s : List Char) :
    (∀ t, Literal.readStructured s = some t ↔ IsElement s t) ∧
    (∀ t t', IsElement s t → IsElement s t' → t = t') ∧
    ∀ w : World,
      (∀ t, IsElement s t → ∃ v w', Reading.structured? s w = .ok (some ⟨.structured, v⟩) w' ∧
        w.Extends w' ∧ t.HeldBy w' v) ∧
      ((∀ t, ¬IsElement s t) → Reading.structured? s w = .ok none w) := by
  refine ⟨fun t => Literal.readStructured_eq_some_iff, fun t t' h h' => h.unique h',
    fun w => ⟨fun t h => ?_, fun hnone => ?_⟩⟩
  · obtain ⟨v, w', hstore, hext, hv⟩ := t.store_heldBy w
    refine ⟨v, w', ?_, hext, hv⟩
    rw [Reading.structured?, Literal.readStructured_eq_some_iff.2 h]
    simp only [Eval.bind_apply, hstore]
    rfl
  · have hread : Literal.readStructured s = none :=
      Option.eq_none_iff_forall_ne_some.2 fun t h =>
        hnone t (Literal.readStructured_eq_some_iff.1 h)
    rw [Reading.structured?, hread]
    rfl

def repeatedKey : List Char := "\x7b\"a\": [true], \"b\" : \"\\/\", \"a\":null\x7d ".toList

def halfKeys : List Char := "\x7b\"\\ud800\":true,\"\\ud801\":null\x7d".toList

/-- A key that is there twice keeps its first place and its last value, but two
halves of surrogate pairs are two keys; a comma at the end of a list is not
derived. -/
theorem Reading.structured?_repeatedKey :
    IsElement repeatedKey (.table [([0x61], .null), ([0x62], .text [0x2f])]) ∧
      (∃ v w', Reading.structured? repeatedKey World.empty = .ok (some ⟨.structured, v⟩) w' ∧
        (Tree.table [([0x61], .null), ([0x62], .text [0x2f])]).HeldBy w' v) ∧
      IsElement halfKeys (.table [([0xd800], .bool true), ([0xd801], .null)]) ∧
      Reading.structured? "[null,]".toList World.empty = .ok none World.empty := by
  have hkey : Literal.readStructured repeatedKey =
      some (.table [([0x61], .null), ([0x62], .text [0x2f])]) := by cbv
  have hhalf : Literal.readStructured halfKeys =
      some (.table [([0xd800], .bool true), ([0xd801], .null)]) := by cbv
  have hcomma : Literal.readStructured "[null,]".toList = none := by cbv
  obtain ⟨hread, -, hworld⟩ := Reading.structured?_grammar repeatedKey
  obtain ⟨hread', -, hworld'⟩ := Reading.structured?_grammar "[null,]".toList
  have htree := (hread _).1 hkey
  obtain ⟨v, w', hv, -, hheld⟩ := (hworld World.empty).1 _ htree
  refine ⟨htree, ⟨v, w', hv, hheld⟩, ((Reading.structured?_grammar halfKeys).1 _).1 hhalf,
    (hworld' World.empty).2 fun t ht => ?_⟩
  rw [← hread', hcomma] at ht
  exact absurd ht (by simp)

end ObjectConsole
