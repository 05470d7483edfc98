import ObjectConsole.Proofs.Builtin.Scalar
import Mathlib.Data.List.InsertIdx

/-!
The conduct of collections. The members of lists, tuples and tables make new
lists and tables of values that they know, and put such values into the list
or table that is the context; nothing else is changed.
-/

namespace ObjectConsole

open Builtin

namespace Builtin

/-! ### Sorting -/

theorem mem_firstRun {less : Order} {items run rest : List Value}
    (h : firstRun less items = .ok (run, rest)) {v : Value} (hv : v ∈ run ∨ v ∈ rest) :
    v ∈ items := by
  unfold firstRun at h
  split at h
  · next a b more =>
      cases hless : less b a with
      | error e => rw [hless] at h; exact absurd h (by simp [bind, Except.bind])
      | ok descending =>
          cases hlength : runLength less descending b more with
          | error e =>
              rw [hless] at h
              simp only [bind, Except.bind, hlength] at h
              exact absurd h (by simp)
          | ok length =>
              rw [hless] at h
              simp only [bind, Except.bind, hlength, List.splitAt_eq, pure, Except.pure] at h
              obtain ⟨rfl, rfl⟩ := Prod.mk.inj (Except.ok.inj h)
              rcases hv with hv | hv
              · refine List.mem_of_mem_take (i := length + 2) ?_
                split at hv
                · exact List.mem_reverse.1 hv
                · exact hv
              · exact List.mem_of_mem_drop hv
  · obtain ⟨rfl, rfl⟩ := Prod.mk.inj (Except.ok.inj h)
    simpa using hv

theorem mem_insertAll {less : Order} {sorted items : List Value} {v : Value}
    (h : v ∈ (insertAll less sorted items).1) : v ∈ sorted ∨ v ∈ items := by
  induction items generalizing sorted with
  | nil => exact .inl h
  | cons a items ih =>
      rw [insertAll] at h
      split at h
      · rcases ih h with h | h
        · rcases List.eq_or_mem_of_mem_insertIdx h with rfl | h
          · exact .inr (List.mem_cons_self ..)
          · exact .inl h
        · exact .inr (List.mem_cons_of_mem _ h)
      · exact List.mem_append.1 h

/-- Sorting adds nothing. -/
theorem mem_of_mem_sortItems {less : Order} {items : List Value} {v : Value}
    (h : v ∈ (sortItems less items).1) : v ∈ items := by
  rw [sortItems] at h
  split at h
  · next hrun => exact mem_firstRun hrun (mem_insertAll h)
  · exact h

end Builtin

namespace Discipline

variable {D : Discipline} {cat : Catalog} {f : Visit} {w : World} {E : Raised → Prop}

/-- The changes that the built-in classes make: new collections of known
values, known values in the place of what the context holds, and attributes of
an integer of a fixed width. -/
structure Builds (D : Discipline) : Prop where
  makesLists : D.MakesLists
  makesTable {f w entries} : D.holds f w →
    (∀ e ∈ entries, D.knows f w e.1 ∧ D.knows f w e.2) →
    D.Leads f w (w.alloc (.table false entries)).2 ∧
      D.knows f (w.alloc (.table false entries)).2 (.object (w.alloc (.table false entries)).1)
  fillsList {f w r old items} : D.holds f w → f.context = .object r →
    w.get? r = some (.list old) → (∀ v ∈ items, D.knows f w v) →
    D.Leads f w (w.set r (.list items))
  fillsTable {f w r old entries} : D.holds f w → f.context = .object r →
    w.get? r = some (.table false old) → (∀ e ∈ entries, D.knows f w e.1 ∧ D.knows f w e.2) →
    D.Leads f w (w.set r (.table false entries))
  marks {f w width name v} : D.holds f w → w.classOf f.context = .ofWidth width →
    D.knows f w v → D.Leads f w (w.setOwn f.context name v)

/-! ### Reading -/

section Readers

variable (h : D.holds f w)

include h

theorem keeps_itemsOf (v : Value) :
    D.Keeps f E (fun w' items => w' = w ∧ items = (w.items? v).getD []) (itemsOf v) w :=
  keeps_get_bind (keeps_pure h ⟨rfl, rfl⟩)

theorem keeps_entriesOf (v : Value) :
    D.Keeps f E (fun w' entries => w' = w ∧ entries = ((w.table? v).map (·.2)).getD [])
      (entriesOf v) w :=
  keeps_get_bind (keeps_pure h ⟨rfl, rfl⟩)

theorem keeps_keyArg (hE : ∀ e, E e) (o : Outlines) (v : Value) :
    D.Keeps f E (fun w' u => w' = w ∧ u = v) (keyArg o v) w := by
  rw [keyArg]
  refine keeps_get_bind ?_
  split
  · exact keeps_pure h ⟨rfl, rfl⟩
  · exact keeps_throw h (hE _)

theorem Lawful.knows_items (hD : D.Lawful cat) {v : Value} (hv : v = f.context ∨ D.knows f w v) :
    ∀ u ∈ (w.items? v).getD [], D.knows f w u := by
  intro u hu
  cases hitems : w.items? v with
  | none => exact absurd hu (by simp [hitems])
  | some items =>
      rw [hitems] at hu
      exact hD.contents h hv (by rwa [World.contents_of_items hitems])

theorem Lawful.knows_entries (hD : D.Lawful cat) {v : Value}
    (hv : v = f.context ∨ D.knows f w v) :
    ∀ e ∈ ((w.table? v).map (·.2)).getD [], D.knows f w e.1 ∧ D.knows f w e.2 := by
  intro e he
  cases htable : w.table? v with
  | none => exact absurd he (by simp [htable])
  | some table =>
      rw [htable] at he
      have hmem := World.mem_contents_of_table htable he
      exact ⟨hD.contents h hv hmem.1, hD.contents h hv hmem.2⟩

theorem Lawful.keeps_iterate (hD : D.Lawful cat) (hE : ∀ e, E e) {v : Value}
    (hv : D.knows f w v) :
    D.Keeps f E (fun w' items => w' = w ∧ ∀ u ∈ items, D.knows f w u) (iterate v) w := by
  rw [iterate]
  refine keeps_get_bind ?_
  split
  · refine keeps_pure h ⟨rfl, fun u hu => ?_⟩
    obtain ⟨c, -, rfl⟩ := List.mem_map.1 hu
    exact hD.plain h rfl
  · refine keeps_pure h ⟨rfl, fun u hu => ?_⟩
    obtain ⟨b, -, rfl⟩ := List.mem_map.1 hu
    exact hD.plain h rfl
  · split
    · next items hitems =>
        refine keeps_pure h ⟨rfl, ?_⟩
        simpa [hitems] using hD.knows_items h (.inr hv)
    · next htable =>
        refine keeps_pure h ⟨rfl, fun u hu => ?_⟩
        obtain ⟨e, he, rfl⟩ := List.mem_map.1 hu
        exact (hD.knows_entries h (.inr hv) e (by simpa [htable] using he)).1
    · exact keeps_throw h (hE _)

end Readers

theorem Lawful.knows_arg (hD : D.Lawful cat) (h : D.holds f w) {args : List Value}
    (hargs : ∀ v ∈ args, D.knows f w v) (i : Nat) : D.knows f w (arg args i) := by
  rw [arg]
  cases hv : args[i]? with
  | none => exact hD.plain h rfl
  | some v => exact hargs v (List.mem_of_getElem? hv)

/-! ### Lists -/

def OnList (f : Visit) (w : World) : Prop :=
  ∃ r items, f.context = .object r ∧ w.get? r = some (.list items)

theorem OnList.mono (hlist : OnList f w) {w' : World} (hw : w.Extends w') : OnList f w' := by
  obtain ⟨r, items, hr, hc⟩ := hlist
  exact ⟨r, items, hr, hw r _ hc⟩

/-- A method that puts known values into the list that is the context, and
gives a value that was known before. -/
theorem Builds.keeps_fillList (hB : D.Builds) (h : D.holds f w) (hlist : OnList f w)
    {items : List Value} (hitems : ∀ v ∈ items, D.knows f w v) {v : Value}
    (hv : D.knows f w v) {next : Act Value}
    (hnext : ∀ w', D.holds f w' → D.knows f w' v → D.Keeps f E (D.knows f) next w') :
    D.Keeps f E (D.knows f) (Act.store f.context (.list items) >>= fun _ => next) w := by
  obtain ⟨r, old, hr, hc⟩ := hlist
  have hleads := hB.fillsList h hr hc hitems
  rw [hr, Act.store]
  exact (keeps_modify (Q := fun w' _ => D.knows f w' v) hleads (hleads.keeps v hv)).bind
    fun _ w' hw' hv => hnext w' hw'.holds hv

theorem Lawful.runs_index (hD : D.Lawful cat) (o : Outlines)
    (missing : World → Value → Except Raised String) : D.Runs f w (runIndex o missing) := by
  refine hD.runs_plain fun w' args hw' => ?_
  rw [runIndex]
  refine (keeps_boundArg (fun _ => trivial) hw' _).bind fun _ _ hw₁ _ => ?_
  refine (keeps_boundArg (fun _ => trivial) hw₁.holds _).bind fun _ _ hw₂ _ => ?_
  refine keeps_get_bind ?_
  refine (keeps_itemsOf hw₂.holds _).bind fun _ _ hw₃ _ => ?_
  split
  · exact keeps_pure hw₃.holds rfl
  · split <;> exact keeps_throw hw₃.holds trivial

theorem Lawful.runs_count (hD : D.Lawful cat) (o : Outlines) : D.Runs f w (runCount o) := by
  refine hD.runs_plain fun w' args hw' => ?_
  rw [runCount]
  refine (keeps_itemsOf hw' _).bind fun _ _ hw₁ _ => ?_
  exact keeps_get_bind (keeps_pure hw₁.holds rfl)

section List

variable (hD : D.Lawful cat) (hB : D.Builds) (hlist : OnList f w)

include hD hB hlist

theorem Builds.runs_fillList (update : List Value → List Value → List Value)
    (hupdate : ∀ items args, ∀ v ∈ update items args, v ∈ items ∨ ∃ i, v = arg args i) :
    D.Runs f w fun v args => do
      Act.store v (.list (update (← itemsOf v) args))
      return .null := by
  intro w' args hw' hext hargs
  refine (keeps_itemsOf hw'.holds _).bind ?_
  rintro _ _ hw₁ ⟨rfl, rfl⟩
  refine hB.keeps_fillList hw₁.holds (hlist.mono hext) ?_ (hD.plain hw₁.holds (v := .null) rfl)
    fun w'' hw'' hv => keeps_pure hw'' hv
  intro u hu
  rcases hupdate _ _ u hu with hu | ⟨i, rfl⟩
  · exact hD.knows_items hw₁.holds (.inl rfl) u hu
  · exact hD.knows_arg hw₁.holds hargs i

theorem Builds.runs_insert : D.Runs f w runInsert := by
  intro w' args hw' hext hargs
  rw [runInsert]
  refine (keeps_indexArg (fun _ => trivial) hw'.holds _).bind ?_
  rintro i _ hw₁ rfl
  refine (keeps_itemsOf hw₁.holds _).bind ?_
  rintro _ _ hw₂ ⟨rfl, rfl⟩
  refine hB.keeps_fillList hw₂.holds (hlist.mono hext) ?_ (hD.plain hw₂.holds (v := .null) rfl)
    fun w'' hw'' hv => keeps_pure hw'' hv
  intro u hu
  have hitems := hD.knows_items hw₂.holds (.inl rfl)
  rcases List.mem_append.1 hu with hu | hu
  · exact hitems u (List.mem_of_mem_take hu)
  · rcases List.mem_cons.1 hu with rfl | hu
    · exact hD.knows_arg hw₂.holds hargs 1
    · exact hitems u (List.mem_of_mem_drop hu)

theorem Builds.runs_pop : D.Runs f w runPop := by
  intro w' args hw' hext _
  rw [runPop]
  refine (keeps_indexArg (fun _ => trivial) hw'.holds _).bind ?_
  rintro i _ hw₁ rfl
  refine (keeps_itemsOf hw₁.holds _).bind ?_
  rintro _ _ hw₂ ⟨rfl, rfl⟩
  have hitems := hD.knows_items hw₂.holds (.inl rfl)
  split
  · exact keeps_throw hw₂.holds trivial
  · dsimp only
    split
    · next item hitem =>
        refine hB.keeps_fillList hw₂.holds (hlist.mono hext)
          (fun u hu => hitems u (List.mem_of_mem_eraseIdx hu)) (hitems item ?_)
          fun w'' hw'' hv => keeps_pure hw'' hv
        exact List.mem_of_getElem? (Option.ite_none_left_eq_some.1 hitem).2
    · exact keeps_throw hw₂.holds trivial

theorem Builds.runs_remove (o : Outlines) : D.Runs f w (runRemove o) := by
  intro w' args hw' hext _
  rw [runRemove]
  refine (keeps_itemsOf hw'.holds _).bind ?_
  rintro _ _ hw₁ ⟨rfl, rfl⟩
  refine keeps_get_bind ?_
  split
  · exact hB.keeps_fillList hw₁.holds (hlist.mono hext)
      (fun u hu => hD.knows_items hw₁.holds (.inl rfl) u (List.mem_of_mem_eraseIdx hu))
      (hD.plain hw₁.holds (v := .null) rfl) fun w'' hw'' hv => keeps_pure hw'' hv
  · exact keeps_throw hw₁.holds trivial

theorem Builds.runs_extend : D.Runs f w runExtend := by
  intro w' args hw' hext hargs
  rw [runExtend]
  refine (hD.keeps_iterate hw'.holds (fun _ => trivial) (hD.knows_arg hw'.holds hargs 0)).bind ?_
  rintro more _ hw₁ ⟨rfl, hmore⟩
  refine (keeps_itemsOf hw₁.holds _).bind ?_
  rintro _ _ hw₂ ⟨rfl, rfl⟩
  refine hB.keeps_fillList hw₂.holds (hlist.mono hext) ?_ (hD.plain hw₂.holds (v := .null) rfl)
    fun w'' hw'' hv => keeps_pure hw'' hv
  intro u hu
  rcases List.mem_append.1 hu with hu | hu
  · exact hD.knows_items hw₂.holds (.inl rfl) u hu
  · exact hmore u hu

theorem Builds.runs_sort (o : Outlines) : D.Runs f w (runSort o) := by
  intro w' args hw' hext _
  rw [runSort]
  refine keeps_get_bind ?_
  refine (keeps_itemsOf hw'.holds _).bind ?_
  rintro _ _ hw₁ ⟨rfl, rfl⟩
  refine hB.keeps_fillList hw₁.holds (hlist.mono hext)
    (fun u hu => hD.knows_items hw₁.holds (.inl rfl) u (mem_of_mem_sortItems hu))
    (hD.plain hw₁.holds (v := .null) rfl) fun w'' hw'' hv => ?_
  split
  · exact keeps_pure hw'' hv
  · exact keeps_throw hw'' trivial

theorem Builds.obeys_listBody (h : D.holds f w) (o : Outlines) :
    ∀ e ∈ (listBody o).members, D.Obeys cat f w e.2 := by
  have hcopy : D.Runs f w (fun v _ => do Act.alloc (.list (← itemsOf v))) := by
    intro w' args hw' _ _
    refine (keeps_itemsOf hw'.holds _).bind ?_
    rintro _ _ hw₁ ⟨rfl, rfl⟩
    exact keeps_allocList hB.makesLists hw₁.holds (hD.knows_items hw₁.holds (.inl rfl))
  have hclear : D.Runs f w (fun v _ => do
      Act.store v (.list [])
      return .null) := by
    intro w' args hw' hext _
    exact hB.keeps_fillList hw'.holds (hlist.mono hext) (by simp)
      (hD.plain hw'.holds (v := .null) rfl) fun w'' hw'' hv => keeps_pure hw'' hv
  have hmethod {run : Value → List Value → Act Value} (hrun : D.Runs f w run) {name : String}
      {params : List Param} (hparams : PlainDefaults params) :
      D.Obeys cat f w (method name params run).2 :=
    hD.obeys_plainMethod h hrun hparams
  simp only [listBody, List.forall_mem_cons, List.not_mem_nil, false_imp_iff, implies_true,
    and_true]
  refine ⟨hmethod hclear rfl, hmethod hcopy rfl, hmethod ?_ rfl,
    hmethod (hB.runs_insert hD hlist) rfl, hmethod (hB.runs_extend hD hlist) rfl,
    hmethod (hB.runs_pop hD hlist) rfl, hmethod (hB.runs_remove hD hlist o) rfl,
    hmethod (hD.runs_index o _) rfl, hmethod (hD.runs_count o) rfl, hmethod ?_ rfl,
    hmethod (hB.runs_sort hD hlist o) rfl⟩
  · refine hB.runs_fillList hD hlist (fun items args => items ++ [arg args 0]) ?_
    intro items args v hv
    exact (List.mem_append.1 hv).imp_right fun hv => ⟨0, List.mem_singleton.1 hv⟩
  · refine hB.runs_fillList hD hlist (fun items _ => items.reverse) ?_
    exact fun items args v hv => .inl (List.mem_reverse.1 hv)

end List

theorem Lawful.obeys_tupleBody (hD : D.Lawful cat) (h : D.holds f w) (o : Outlines) :
    ∀ e ∈ (tupleBody o).members, D.Obeys cat f w e.2 := by
  simp only [tupleBody, List.forall_mem_cons, List.not_mem_nil, false_imp_iff, implies_true,
    and_true]
  exact ⟨hD.obeys_plainMethod h
      (hD.runs_index o fun _ _ => .ok "tuple.index(x): x not in tuple") rfl,
    hD.obeys_plainMethod h (hD.runs_count o) rfl⟩

/-! ### Tables -/

def OnTable (f : Visit) (w : World) : Prop :=
  ∃ r entries, f.context = .object r ∧ w.get? r = some (.table false entries)

theorem OnTable.mono (htable : OnTable f w) {w' : World} (hw : w.Extends w') : OnTable f w' := by
  obtain ⟨r, entries, hr, hc⟩ := htable
  exact ⟨r, entries, hr, hw r _ hc⟩

theorem Builds.keeps_fillTable (hB : D.Builds) (h : D.holds f w) (htable : OnTable f w)
    {entries : List (Value × Value)}
    (hentries : ∀ e ∈ entries, D.knows f w e.1 ∧ D.knows f w e.2) {v : Value}
    (hv : D.knows f w v) :
    D.Keeps f E (D.knows f)
      (Act.store f.context (.table false entries) >>= fun _ => pure v) w := by
  obtain ⟨r, old, hr, hc⟩ := htable
  have hleads := hB.fillsTable h hr hc hentries
  rw [hr, Act.store]
  exact (keeps_modify (Q := fun w' _ => D.knows f w' v) hleads (hleads.keeps v hv)).bind
    fun _ w' hw' hv => keeps_pure hw'.holds hv

theorem Lawful.runs_get (hD : D.Lawful cat) (o : Outlines) : D.Runs f w (runGet o) := by
  intro w' args hw' _ hargs
  rw [runGet]
  refine (keeps_keyArg hw'.holds (fun _ => trivial) o _).bind ?_
  rintro _ _ hw₁ ⟨rfl, rfl⟩
  refine keeps_get_bind ?_
  refine (keeps_entriesOf hw₁.holds _).bind ?_
  rintro _ _ hw₂ ⟨rfl, rfl⟩
  refine keeps_pure hw₂.holds ?_
  cases hfound : o.lookup _ (arg args 0) _ with
  | none => exact hD.knows_arg hw₂.holds hargs 1
  | some v =>
      obtain ⟨k, hk⟩ := Outlines.mem_of_lookup hfound
      exact (hD.knows_entries hw₂.holds (.inl rfl) _ hk).2

section Table

variable (hD : D.Lawful cat) (hB : D.Builds) (htable : OnTable f w)

include hD hB htable

theorem Builds.runs_setDefault (o : Outlines) : D.Runs f w (runSetDefault o) := by
  intro w' args hw' hext hargs
  rw [runSetDefault]
  refine (keeps_keyArg hw'.holds (fun _ => trivial) o _).bind ?_
  rintro _ _ hw₁ ⟨rfl, rfl⟩
  refine (keeps_entriesOf hw₁.holds _).bind ?_
  rintro _ _ hw₂ ⟨rfl, rfl⟩
  have hentries := hD.knows_entries hw₂.holds (.inl rfl)
  refine keeps_get_bind ?_
  split
  · next v hfound =>
      obtain ⟨k, hk⟩ := Outlines.mem_of_lookup hfound
      exact keeps_pure hw₂.holds (hentries _ hk).2
  · refine hB.keeps_fillTable hw₂.holds (htable.mono hext) ?_
      (hD.knows_arg hw₂.holds hargs 1)
    intro e he
    rcases List.mem_append.1 he with he | he
    · exact hentries e he
    · rw [List.mem_singleton.1 he]
      exact ⟨hD.knows_arg hw₂.holds hargs 0, hD.knows_arg hw₂.holds hargs 1⟩

theorem Builds.runs_popItem : D.Runs f w runPopItem := by
  intro w' args hw' hext _
  rw [runPopItem]
  refine (keeps_entriesOf hw'.holds _).bind ?_
  rintro _ _ hw₁ ⟨rfl, rfl⟩
  have hentries := hD.knows_entries hw₁.holds (.inl rfl)
  split
  · next key value hlast =>
      have hpair := hentries _ (List.mem_of_getLast? hlast)
      refine hB.keeps_fillTable hw₁.holds (htable.mono hext)
        (fun e he => hentries e (List.dropLast_subset _ he)) (hD.tuple hw₁.holds ?_)
      simpa using hpair
  · exact keeps_throw hw₁.holds trivial

omit htable in
theorem Builds.runs_fromKeys (o : Outlines) : D.Runs f w (runFromKeys o) := by
  intro w' args hw' _ hargs
  rw [runFromKeys]
  refine (hD.keeps_iterate hw'.holds (fun _ => trivial) (hD.knows_arg hw'.holds hargs 0)).bind ?_
  rintro items _ hw₁ ⟨rfl, hitems⟩
  have hkey : ∀ v ∈ items, ∀ w'', D.Leads f _ w'' →
      D.Keeps f (fun _ => True) (D.knows f) (keyArg o v) w'' := fun v hv w'' hw'' =>
    (keeps_keyArg hw''.holds (fun _ => trivial) o v).imp fun u _ hw₃ hu => by
      rw [hu.2]
      exact hw₃.keeps v (hw''.keeps v (hitems v hv))
  refine (keeps_mapM items hw₁.holds hkey).bind fun keys w₂ hw₂ hkeys => ?_
  have hvalue := hw₂.keeps _ (hD.knows_arg hw₁.holds hargs 1)
  refine keeps_get_bind ?_
  refine hB.makesTable hw₂.holds fun e he => ?_
  obtain ⟨hk, hv⟩ := Outlines.mem_foldl_insert he
  refine ⟨hkeys e.1 (hk.resolve_right (by simp)), ?_⟩
  rwa [hv.resolve_right (by simp)]

theorem Builds.obeys_tableBody (h : D.holds f w) (o : Outlines) :
    ∀ e ∈ (tableBody o).members, D.Obeys cat f w e.2 := by
  simp only [tableBody, List.forall_mem_cons, List.not_mem_nil, false_imp_iff, implies_true,
    and_true]
  exact ⟨hD.obeys_plainMethod h (hD.runs_get o) rfl,
    hD.obeys_plainMethod h (hB.runs_setDefault hD htable o) rfl,
    hD.obeys_plainMethod h (hB.runs_popItem hD htable) rfl,
    hD.obeys_plainMethod h (hB.runs_fromKeys hD o) rfl⟩

end Table

end Discipline

end ObjectConsole
