import ObjectConsole.Proofs.Evaluation.Effects
import ObjectConsole.Proofs.Literal.Printed
import ObjectConsole.Proofs.Sample.Reached
import ObjectConsole.Proofs.Session.History

/-!
Lines that fail. No property changes but by a call of a method, or by an
assignment that has stored its value. So a line that fails has changed no more than
what assignments within it had stored before; nothing of that is taken back.
-/

namespace ObjectConsole.Sample

variable {w w' : World} {v : Value} {s : Session}

/-- Without a call, each property is what was stored there last, or else what it
was, and no list has changed. -/
def Accounted [Host] (w : World) (effects : List Effect) (w' : World) : Prop :=
  (∀ e ∈ effects, e.isCall = false) → ∀ v, Fits w v → w'.items? v = w.items? v ∧
    ∀ label, catalog.property? w' v label =
      (lastStored effects v label).or (catalog.property? w v label)

theorem accounted_of_extends [Host] (hw : WellTyped w) (h : w.Extends w') : Accounted w [] w' :=
  fun _ _ hv => ⟨items?_of_extends hv h, property?_of_extends hw hv h⟩

theorem accounted_store [Host] {label : String} {u : Value} (h : Sets w v label u w') :
    Accounted w [.store v label u] w' := by
  intro _ x hx
  refine ⟨h.items x hx, fun l => ?_⟩
  have hlast : lastStored [.store v label u] x l =
      if x.isSameObject v = true ∧ l = label then some u else none := by
    rw [lastStored, List.reverse_singleton, List.findSome?_singleton, Effect.stored?]
  rw [h.property x hx, hlast]
  split <;> rfl

theorem accounted_books [Host] : Books catalog typing Accounted Value.IsHeld where
  still w _ v _ := ⟨rfl, fun _ => rfl⟩
  trans {f w w₁ w₂ l l'} hleads h h' hcalls v hv := by
    obtain ⟨hitems, hproperty⟩ := h (fun e he => hcalls e (List.mem_append_left _ he)) v hv
    obtain ⟨hitems', hproperty'⟩ :=
      h' (fun e he => hcalls e (List.mem_append_right _ he)) v (hleads.keeps v hv)
    refine ⟨hitems'.trans hitems, fun label => ?_⟩
    rw [hproperty', hproperty, lastStored_append, Option.or_assoc]
  adopt {f w v} h hv := ⟨accounted_of_extends h.1 (w.extends_adopt v), w.isHeld_adopt v⟩
  read {f w} label h := by
    rw [readProperty_typed h.1 h.2 label]
    exact accounted_of_extends h.1 (.refl w)
  refused {f w label v e w'} h hheld hv hrefused := by
    rcases writeProperty_typed h.1 h.2 hheld hv label with ⟨e', w₁, hwrite, hext⟩ |
      ⟨u, w₁, hwrite, -⟩
    · obtain ⟨-, rfl⟩ := EStateM.Result.error.inj (hrefused.symm.trans hwrite)
      exact accounted_of_extends h.1 hext
    · exact absurd (hrefused.symm.trans hwrite) (by simp)
  stored {f w label v u w'} h hheld hv hstored := by
    rcases writeProperty_typed h.1 h.2 hheld hv label with ⟨e', w₁, hwrite, -⟩ |
      ⟨u', w₁, hwrite, -, hsets⟩
    · exact absurd (hstored.symm.trans hwrite) (by simp)
    · obtain ⟨rfl, rfl⟩ := EStateM.Result.ok.inj (hstored.symm.trans hwrite)
      exact accounted_store hsets
  called _ _ _ hcalls := absurd (hcalls _ (List.mem_cons_self ..)) (by simp [Effect.isCall])

/-- A line that fails without a call of a method leaves the stack as it is, and
all lists. Each property is what an assignment in the line has stored there
last, or else what it was before the line. -/
theorem failed_line_changes_only_stored [Host] (hs : Reached s) {line : List Char}
    {e : ConsoleError}
    (he : (s.runLine catalog line).1.error? = some e)
    (hcalls : ∀ x ∈ s.effects catalog line, x.isCall = false) :
    (s.runLine catalog line).2.stack = s.stack ∧
      ∀ v, Fits s.world v → (s.runLine catalog line).2.world.items? v = s.world.items? v ∧
        ∀ label, catalog.property? (s.runLine catalog line).2.world v label =
          (lastStored (s.effects catalog line) v label).or
            (catalog.property? s.world v label) := by
  refine ⟨?_, Books.runLine_books accounted_books typing_lawful typing_access hs.sound.visit
    hs.sound.current.2 line hcalls⟩
  -- the stack moves only where a line navigates or returns, and then it has no error
  have law := Session.runLine_law catalog s line
  have hnone := (law.refuses (by rw [he]; rfl)).1
  refine law.keeps (fun h => absurd h.2 (by simp [hnone])) fun h => ?_
  have hvalue := (law.returns h.1 h.2).2
  rw [hvalue] at hnone
  exact absurd hnone (by simp [Outcome.value?])

def listTable : Literal.Tree :=
  .table [(.ofText "a".toList, .int 1), (.ofText "l".toList, .list [.int 1])]

def listWorld : World :=
  ⟨#[.record (.ofWidth .w8) [], .list [.int 1],
    .table false [(.text "a", .int 1), (.text "l", .object 1)]], ""⟩

theorem store_listTable : listTable.store initialWorld = .ok (.object 2) listWorld := rfl

def listSession : Session := Session.start (.object 2) listWorld

def heldInt? (s : Session) : Option Int :=
  (catalog.property? s.world (.object 2) "a").bind Value.asInt?

/-- The index is assigned before the list turns out to be too short for it. -/
theorem listSession_runLine :
    (listSession.runLine catalog "l[a=7]".toList).1.error?.isSome = true ∧
      ((listSession.effects catalog "l[a=7]".toList).all fun x => !x.isCall) = true ∧
      heldInt? listSession = some 1 ∧
      heldInt? (listSession.runLine catalog "l[a=7]".toList).2 = some 7 := by
  decide +kernel

theorem listSession_fails :
    ∃ e, (listSession.runLine catalog "l[a=7]".toList).1.error? = some e ∧
      ∀ x ∈ listSession.effects catalog "l[a=7]".toList, x.isCall = false := by
  obtain ⟨hfails, hcalls, -⟩ := listSession_runLine
  obtain ⟨e, he⟩ := Option.isSome_iff_exists.1 hfails
  refine ⟨e, he, fun x hx => ?_⟩
  simpa using List.all_eq_true.1 hcalls x hx

theorem reached_listSession : Reached listSession := reached_store store_listTable

/-- The line fails and calls no method, and leaves the list of the table as it is. -/
theorem failed_line_keeps_list :
    ∃ e, (listSession.runLine catalog "l[a=7]".toList).1.error? = some e ∧
      (∀ x ∈ listSession.effects catalog "l[a=7]".toList, x.isCall = false) ∧
      (listSession.runLine catalog "l[a=7]".toList).2.stack = listSession.stack ∧
      (listSession.runLine catalog "l[a=7]".toList).2.world.items? (.object 1) =
        some [.int 1] := by
  obtain ⟨e, he, hcalls⟩ := listSession_fails
  obtain ⟨hstack, hkept⟩ := failed_line_changes_only_stored reached_listSession he hcalls
  have hlist : Fits listSession.world (.object 1) := fits_object rfl
  exact ⟨e, he, hcalls, hstack, (hkept _ hlist).1⟩

/-- A line that fails without a call of a method can leave a property changed. -/
theorem failed_line_not_without_effect :
    ¬∀ (s : Session) (line : List Char) (e : ConsoleError), Reached s →
      (s.runLine catalog line).1.error? = some e →
      (∀ x ∈ s.effects catalog line, x.isCall = false) →
      ∀ v, Fits s.world v → ∀ label,
        catalog.property? (s.runLine catalog line).2.world v label =
          catalog.property? s.world v label := by
  intro h
  obtain ⟨e, he, hcalls⟩ := listSession_fails
  obtain ⟨-, -, hbefore, hafter⟩ := listSession_runLine
  have htable : Fits listSession.world (.object 2) := fits_object rfl
  have hsame := h listSession _ e reached_listSession he hcalls _ htable "a"
  have hint : heldInt? _ = heldInt? _ := congrArg (·.bind Value.asInt?) hsame
  exact absurd (hafter.symm.trans (hint.trans hbefore)) (by decide)

end ObjectConsole.Sample
