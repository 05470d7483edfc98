import ObjectConsole.Proofs.Evaluation.Steady
import ObjectConsole.Proofs.Sample.Failure

/-!
Reading the demonstration and structured data. A line that calls nothing and
assigns nothing leaves every object as it was, and evaluated once more against
the same context it comes to the same. It may add cells: an integer of a fixed
width gets one before the rest of a chain is evaluated against it.
-/

namespace ObjectConsole.Sample

open Builtin

section

variable [Host] {w w' : World} {v u : Value} {s : Session}

/-! ### Integers -/

omit [Host] in
theorem showsInteger_integerBody (lib : Library) :
    ∀ e ∈ (integerBody lib).members, e.2.ShowsInteger := by
  simp only [integerBody, List.forall_mem_cons, List.not_mem_nil, false_imp_iff, implies_true,
    and_true]
  exact ⟨trivial, trivial, trivial, trivial, trivial, ⟨rfl, id, rfl⟩, ⟨rfl, fun _ => 0, rfl⟩,
    ⟨rfl, id, rfl⟩, ⟨rfl, fun _ => 1, rfl⟩⟩

omit [Host] in
theorem showsInteger_widthBody (width : Width) :
    ∀ e ∈ (widthBody width).members ++ (sizedBody width).members, e.2.ShowsInteger := by
  simp only [widthBody, sizedBody, List.cons_append, List.nil_append, List.forall_mem_cons,
    List.not_mem_nil, false_imp_iff, implies_true, and_true]
  exact ⟨⟨_, rfl⟩, ⟨_, rfl⟩, ⟨_, rfl⟩, trivial⟩

theorem plainIntegers : catalog.PlainIntegers where
  core e he := by
    have hlineage : catalog.lineage (.core "int") = [integerBody Host.library] := rfl
    rw [hlineage] at he
    exact showsInteger_integerBody _ e (by simpa using he)
  ofWidth width e he := by
    rw [lineage_ofWidth] at he
    have hmem : e ∈ (widthBody width).members ++ (sizedBody width).members ∨
        e ∈ (integerBody Host.library).members := by
      simpa [or_assoc] using he
    exact hmem.elim (showsInteger_widthBody width e) (showsInteger_integerBody _ e)

/-! ### The outlook -/

/-- The places of an evaluation that began in the world: at a value that was there,
or at an integer that has got a cell since then. -/
inductive Place (w₀ : World) where
  | value (v : Value) (h : Fits w₀ v)
  | integer (width : Width) (n : Int)

def outlook (w₀ : World) : Outlook where
  Place := Place w₀
  Stands
    | .value u _, v, w => v = u ∧ w₀.Extends w
    | .integer width n, v, w => IsInteger w v (.ofWidth width) n ∧ w₀.Extends w
  Known v := Fits w₀ v

variable {w₀ : World}

omit [Host] in
theorem extends_of_stands {p : Place w₀} (h : (outlook w₀).Stands p v w) : w₀.Extends w := by
  cases p <;> exact h.2

omit [Host] in
/-- What a value that was there is seen as does not change when the world is added to. -/
theorem get?_of_extends (hv : Fits w₀ v) (hext : w₀.Extends w) :
    ∀ r, v.own? = some r → w.get? r = w₀.get? r := by
  intro r hr
  obtain ⟨c, hc⟩ := hv.own hr
  rw [hext r c hc, hc]

theorem knows_property (hw : WellTyped w₀) (hv : Fits w₀ v) {label : String}
    (hu : resultOutcome (catalog.readProperty v label w₀) = .ok u) : Fits w₀ u := by
  have hholds : typing.holds ⟨v, w₀⟩ w₀ := ⟨hw, hv⟩
  have hworld := readProperty_typed hw hv label
  have hread : typing.Keeps _ _ _ (catalog.readProperty v label) w₀ := typing_access.read hholds
  rw [Discipline.Keeps] at hread
  cases hrun : catalog.readProperty v label w₀ with
  | error e w' => rw [hrun] at hu; cases hu
  | ok a w' =>
      rw [hrun] at hu hworld hread
      obtain rfl : w' = w₀ := hworld
      obtain rfl : a = u := Except.ok.inj hu
      exact hread.2

theorem steady_readProperty (hw : WellTyped w₀) (p : Place w₀) (label : String) :
    (outlook w₀).Steady p (fun v => catalog.readProperty v label) (Fits w₀) := by
  cases p with
  | value u hu =>
      refine ⟨resultOutcome (catalog.readProperty u label w₀), fun a ha => knows_property hw hu ha,
        fun v w h => ?_⟩
      obtain ⟨rfl, hext⟩ := h
      have hsame := get?_of_extends hu hext
      have hclass : catalog.classOf w v = catalog.classOf w₀ v :=
        Catalog.classOf_congr (World.face_of_get? hsame).1
      have hmodest : w.table? v = none → (catalog.classOf w v).Modest := fun _ =>
        hclass ▸ modest_of_fits hw hu
      have hworld : resultWorld (catalog.readProperty v label w) = w :=
        Catalog.readProperty_world hmodest label
      refine ⟨Catalog.outcome_readProperty (fun _ => modest_of_fits hw hu) hsame label, ?_, ?_⟩
      · rw [hworld]
        exact .refl w
      · rw [hworld]
  | integer width n =>
      obtain ⟨out, hint, hrun⟩ := Catalog.uniform_readProperty (plainIntegers.ofWidth width) n label
      refine ⟨out, fun a ha => ?_, fun v w h => ?_⟩
      · obtain ⟨m, rfl⟩ := hint a ha
        exact fits_of_plain rfl
      · obtain ⟨hout, hworld⟩ := hrun v w h.1
        dsimp only at hworld
        refine ⟨hout, ?_, ?_⟩
        · rw [hworld]
          exact .refl w
        · rw [hworld]

theorem lawful_outlook (hw : WellTyped w₀) : (outlook w₀).Lawful catalog where
  grow {p v w w'} h hext := by
    cases p with
    | value u hu => exact ⟨h.1, h.2.trans hext⟩
    | integer width n => exact ⟨h.1.mono hext, h.2.trans hext⟩
  scalar s := fits_of_plain (Discipline.isPlain_scalar s)
  read p label := steady_readProperty hw p label
  face p := by
    cases p with
    | value u hu =>
        refine ⟨u.isNull, w₀.className u, catalog.findProperty? w₀ u, fun v w h => ?_⟩
        obtain ⟨rfl, hext⟩ := h
        have hsame := get?_of_extends hu hext
        refine ⟨rfl, congrArg ClassName.name (World.face_of_get? hsame).1, fun label => ?_⟩
        rw [Catalog.findProperty?, Catalog.findProperty?, Catalog.properties_of_get? hsame]
    | integer width n =>
        refine ⟨false, (ClassName.ofWidth width).name, fun label => (Subject.properties
          ⟨⟨catalog.find (.ofWidth width), catalog.lineage (.ofWidth width)⟩, []⟩).find? fun p =>
            p.label == label, fun v w h => ?_⟩
        exact ⟨h.1.isNull, congrArg ClassName.name h.1.classOf,
          Catalog.findProperty?_integer h.1⟩
  sequence p := by
    cases p with
    | value u hu => exact .inr ⟨u, hu, fun v w h => h.1⟩
    | integer width n => exact .inl fun v w h => h.1.items?
  known {u} hu := by
    refine ⟨w₀.items? u, w₀.className u, fun xs hxs x hx => ?_, fun p v w h => ?_⟩
    · have hholds : typing.holds ⟨u, w₀⟩ w₀ := ⟨hw, hu⟩
      exact typing_lawful.contents hholds (.inl rfl) (World.contents_of_items hxs ▸ hx)
    · have hext := extends_of_stands h
      exact ⟨items?_of_extends hu hext,
        congrArg ClassName.name (World.face_of_get? (get?_of_extends hu hext)).1⟩
  enter {u} hu := by
    by_cases hheld : u.IsHeld
    · refine ⟨.value u hu, fun q v w h => ?_⟩
      rcases w.adopt_cases u with hsame | ⟨width, n, rfl, -⟩
      · rw [hsame]
        exact ⟨rfl, extends_of_stands h⟩
      · exact absurd rfl (hheld width n)
    · obtain ⟨width, n, rfl⟩ : ∃ width n, u = .sized width n none := by
        simpa [Value.IsHeld] using hheld
      refine ⟨.integer width n, fun q v w h => ?_⟩
      exact ⟨.adopt w width n, (extends_of_stands h).trans (w.extends_adopt _)⟩

/-! ### Lines that only read -/

/-- A line that only reads has one outcome against the current context, in the world
and in each that extends it. -/
theorem Reached.reads (hs : Reached s) {line : List Char} (hline : IsReading line) :
    ∃ outcome, ∀ w, s.world.Extends w →
      (catalog.evaluate line s.stack.current w).1 = outcome ∧
      w.Extends (catalog.evaluate line s.stack.current w).2 ∧
      (catalog.evaluate line s.stack.current w).2.printed = w.printed := by
  obtain ⟨outcome, hrun⟩ :=
    (lawful_outlook hs.sound.wellTyped).steady_evaluate (.value _ hs.sound.current.1) hline
  exact ⟨outcome, fun w hext => hrun s.stack.current w ⟨rfl, hext⟩⟩

/-- The cells of a session are as they were after a line that only reads. -/
theorem Reached.extends_runLine (hs : Reached s) {line : List Char} (hline : IsReading line) :
    s.world.Extends (s.runLine catalog line).2.world ∧
      (s.runLine catalog line).2.world.printed = s.world.printed := by
  obtain ⟨outcome, hrun⟩ := hs.reads hline
  obtain ⟨-, hgrows, hprints⟩ := hrun s.world (.refl _)
  rcases s.runLine_effect catalog line with ⟨hworld, -⟩ | ⟨outcome, w, heval, hstack⟩
  · rw [hworld]
    exact ⟨.refl _, rfl⟩
  · rw [catalog.evaluate_trim] at heval
    rw [heval] at hgrows hprints
    rcases hstack with ⟨-, hworld⟩ | ⟨v, -, -, hworld⟩
    · rw [hworld]
      exact ⟨hgrows, hprints⟩
    · rw [hworld]
      exact ⟨hgrows.trans (w.extends_adopt v), (w.printed_adopt v).trans hprints⟩

/-- A line without an opening parenthesis and an equals sign, whether it fails, gives
a value or navigates, leaves every object with the properties and items that it
had. Evaluated again against the same context it has the same outcome. -/
theorem reading_changes_nothing (hs : Reached s) {line : List Char} (hcall : '(' ∉ line)
    (hassignment : '=' ∉ line) :
    let after := (s.runLine catalog line).2.world
    s.world.Extends after ∧ after.printed = s.world.printed ∧
      (∀ v, Fits s.world v →
        catalog.properties after v = catalog.properties s.world v ∧
        (∀ label, catalog.property? after v label = catalog.property? s.world v label) ∧
        after.items? v = s.world.items? v) ∧
      (catalog.evaluate line s.stack.current after).1 =
        (catalog.evaluate line s.stack.current s.world).1 := by
  have hline : IsReading line := ⟨hcall, hassignment⟩
  obtain ⟨outcome, hrun⟩ := hs.reads hline
  obtain ⟨hext, hprinted⟩ := hs.extends_runLine hline
  refine ⟨hext, hprinted, fun v hv => ⟨?_, ?_, ?_⟩, ?_⟩
  · exact Catalog.properties_of_get? (get?_of_extends hv hext)
  · exact property?_of_extends hs.sound.wellTyped hv hext
  · exact items?_of_extends hv hext
  · exact (hrun _ hext).1.trans (hrun _ (.refl _)).1.symm

end

/-- The line navigates into an item of a list, and the list and the table that it
stands in are as before. -/
theorem reading_item_keeps_table :
    let line := "->l[0]".toList
    let after := (listSession.runLine catalog line).2
    Reached listSession ∧ '(' ∉ line ∧ '=' ∉ line ∧
      after.stack.pushed.length = 1 ∧
      after.world.items? (.object 1) = some [.int 1] ∧
      catalog.property? after.world (.object 2) "a" =
        catalog.property? listSession.world (.object 2) "a" ∧
      (catalog.evaluate line listSession.stack.current after.world).1 =
        (catalog.evaluate line listSession.stack.current listSession.world).1 := by
  have hcall : '(' ∉ "->l[0]".toList := by decide
  have hassignment : '=' ∉ "->l[0]".toList := by decide
  have hpushed : (listSession.runLine catalog "->l[0]".toList).2.stack.pushed.length = 1 := by
    decide +kernel
  obtain ⟨-, -, hkept, hagain⟩ := reading_changes_nothing reached_listSession hcall hassignment
  have hlist : Fits listSession.world (.object 1) := fits_object rfl
  have htable : Fits listSession.world (.object 2) := fits_object rfl
  exact ⟨reached_listSession, hcall, hassignment, hpushed, (hkept _ hlist).2.2,
    (hkept _ htable).2.1 "a", hagain⟩

end ObjectConsole.Sample
