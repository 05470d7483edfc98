import ObjectConsole.Proofs.Literal.Structured
import ObjectConsole.Proofs.Render.Depth
import ObjectConsole.Proofs.Sample.Confined

/-!
Graphs that grow from structured data. A tree has no cycles, and none arises:
whatever is put into a list or a table was found below it, for the whole line
is evaluated against the list or the table itself. So every value has a text.
-/

namespace ObjectConsole.Sample

open Builtin

section

variable [Host] {w : World} {v : Value} {r : Ref}

/-- A graph of lists and tables without cycles, where the only instances are
integers of the widths. -/
structure TreeGraph (w : World) : Prop where
  acyclic : w.Acyclic
  records : ∀ r cls as, w.get? r = some (.record cls as) → ∃ width, cls = .ofWidth width

omit [Host] in
theorem TreeGraph.demoRecords (h : TreeGraph w) : DemoRecords w :=
  fun r cls as hr => .inr (.inr (h.records r cls as hr))

/-- A new cell closes no cycle, for nothing points to it. -/
theorem acyclic_alloc (hw : w.Whole catalog) (h : w.Acyclic) {c : Cell}
    (hc : ∀ v ∈ c.values, w.Admits catalog v) : (w.alloc c).2.Acyclic := by
  refine h.redirect (K := fun s => s < w.cells.size) (fun _ _ => World.points_alloc) ?_ ?_
    (Nat.lt_irrefl _)
  · intro b hb
    obtain ⟨v, hv, hrefers⟩ := World.points_alloc_self hb
    exact (hc v hv).refs b hrefers
  · intro a b ha hab
    obtain ⟨d, hd, v, hv, hrefers⟩ := World.points_alloc (Nat.ne_of_lt ha) hab
    exact (hw a d hd v hv).refs b hrefers

/-- The context's own cell is not found on a visit to the context, so that what
is found may stand in it. -/
theorem acyclic_set {f : Visit} (h : Confined catalog TreeGraph f w)
    (hown : f.context.own? = some r) {c : Cell} (hc : ∀ v ∈ c.values, f.Finds v) :
    (w.set r c).Acyclic := by
  have hr : ¬ f.Grasps r := by
    rintro (hbelow | hnew)
    · exact h.before.acyclic.not_below hown hbelow
    · exact absurd (h.context.refs r (Value.refers_of_own hown)) (Nat.not_lt.2 hnew)
  refine h.now.acyclic.redirect (fun _ _ => World.points_set) ?_ ?_ hr
  · intro b hb
    obtain ⟨v, hv, hrefers⟩ := World.points_set_self hb
    exact hc v hv b hrefers
  · intro a b ha hab
    have hne : a ≠ r := fun heq => hr (heq ▸ ha)
    exact h.grasps_of_points ha (World.points_set hne hab)

theorem treeGraph_upheld : Upheld catalog TreeGraph where
  alloc h hvalues hc := by
    refine ⟨acyclic_alloc h.whole h.now.acyclic fun v hv => (hvalues v hv).1, ?_⟩
    intro r cls as hr
    rcases World.get?_alloc hr with hr | ⟨-, hnew⟩
    · exact h.now.records r cls as hr
    · exact hc cls as hnew.symm
  set {f w r c c'} h hown hr hkind hvalues := by
    refine ⟨acyclic_set h hown fun v hv => (hvalues v hv).2, ?_⟩
    intro s cls as hs
    rcases World.get?_set hs with ⟨-, hs⟩ | ⟨-, hnew⟩
    · exact h.now.records s cls as hs
    · subst hnew
      cases hkind
      exact h.now.records r cls _ hr

abbrev treeConfinement : Discipline := confinement catalog TreeGraph

theorem tree_lawful : treeConfinement.Lawful catalog := confinement_lawful treeGraph_upheld

theorem tree_conduct : treeConfinement.Conduct catalog := by
  refine confinement_conduct treeGraph_upheld (fun _ h => h.demoRecords) fun h _ hr => ?_
  obtain ⟨width, hwidth⟩ := h.now.records _ _ _ hr
  cases width <;> exact absurd hwidth (by decide)

theorem tree_access : treeConfinement.Access catalog fun _ => True :=
  tree_conduct.access tree_lawful Discipline.allowsSteps_all

/-! ### The start -/

omit [Host] in
theorem treeGraph_initialWorld : TreeGraph initialWorld := by
  have hcell : ∀ r c, initialWorld.get? r = some c → c = .record (.ofWidth .w8) [] := by
    intro r c hc
    cases r with
    | zero => exact (Option.some.inj hc).symm
    | succ r => exact absurd hc (by simp [initialWorld, World.get?])
  refine ⟨fun r hr => ?_, fun r cls as hr => ⟨.w8, (Cell.record.inj (hcell r _ hr)).1⟩⟩
  obtain ⟨s, ⟨c, hc, v, hv, -⟩, -⟩ := Relation.TransGen.head'_iff.1 hr
  rw [hcell r c hc] at hv
  exact absurd hv (by simp [Cell.values])

/-- Nothing is found in the world at the start. -/
theorem tree_holds_initialWorld : treeConfinement.holds ⟨.null, initialWorld⟩ initialWorld := by
  refine confined_start (fun r c hc v hv => ?_) (World.admits_of_plain rfl) treeGraph_initialWorld
  exact wellTyped_initialWorld.demoGraph.whole r c hc v hv

/-- The session on what a text stands for, a scalar or structured data. -/
def startOn? (text : List Char) : Option Session :=
  match Reading.ofToken? text initialWorld with
  | .ok (some reading) w =>
    let (base, w) := w.adopt reading.value
    some (Session.start base w)
  | _ => none

theorem tree_store (tree : Literal.Tree) :
    ∃ base w, tree.store initialWorld = .ok base w ∧ treeConfinement.holds ⟨base, w⟩ w := by
  have hstore := (confinement_builds treeGraph_upheld).keeps_store (E := fun _ => False)
    tree_lawful tree_holds_initialWorld tree
  rw [Discipline.Keeps] at hstore
  cases h : tree.store initialWorld with
  | ok base w =>
      rw [h] at hstore
      exact ⟨base, w, rfl, tree_lawful.enter hstore.1.holds (.inr hstore.2)⟩
  | error e w =>
      rw [h] at hstore
      exact hstore.2.elim

theorem tree_startOn? {text : List Char} {s : Session} (h : startOn? text = some s) :
    ∃ base w, s = Session.start base w ∧ treeConfinement.holds ⟨base, w⟩ w := by
  have hread := (confinement_builds treeGraph_upheld).keeps_ofToken? tree_lawful
    tree_holds_initialWorld text
  rw [startOn?] at h
  split at h
  · next reading w hreading =>
      rw [Discipline.Keeps, hreading] at hread
      obtain ⟨hadopt, hadopted⟩ := tree_lawful.adopt hread.1.holds (hread.2 reading rfl)
      exact ⟨_, _, (Option.some.inj h).symm, tree_lawful.enter hadopt.holds (.inr hadopted)⟩
  · exact absurd h (by simp)

/-! ### Lines -/

/-- No object is reachable from itself, and the printer comes to the end of every
value within the levels of the value: more make no difference, and if the text is
missing then for want of a display. -/
structure Unfolds (w : World) : Prop where
  acyclic : w.Acyclic
  text : ∀ v, (∀ more, catalog.itemWithin w (w.extent v + more) v =
      catalog.itemWithin w (w.extent v) v) ∧
    ErrsIn IsDisplayError (catalog.itemWithin w (w.extent v) v)

theorem unfolds_runLines {base : Value} (h : treeConfinement.holds ⟨base, w⟩ w)
    (lines : List (List Char)) :
    Unfolds ((Session.start base w).runLines catalog lines).world := by
  have hrun := (tree_lawful.runLines_start tree_access h lines).1
  exact ⟨hrun.holds.now.acyclic, catalog.itemWithin_of_extent hrun.holds.now.acyclic⟩

def SharesIn (w : World) (r s : Ref) : Prop :=
  ∃ c, w.get? r = some c ∧ 2 ≤ c.values.countP fun v => v.own? == some s

instance (w : World) (r s : Ref) : Decidable (SharesIn w r s) :=
  match h : w.get? r with
  | some c =>
    decidable_of_iff (2 ≤ c.values.countP fun v => v.own? == some s)
      ⟨fun hc => ⟨c, h, hc⟩, fun ⟨_, hd, hc⟩ => Option.some.inj (h.symm.trans hd) ▸ hc⟩
  | none => .isFalse fun ⟨_, hd, _⟩ => absurd (h.symm.trans hd) (by simp)

/-- Whatever lines are run on structured data, be it put into the world as it is
or read from a text, all values unfold. Objects may come to be shared. -/
theorem unfolds_of_lines :
    (∀ tree : Literal.Tree, ∃ base w, tree.store initialWorld = .ok base w ∧
      ∀ lines, Unfolds ((Session.start base w).runLines catalog lines).world) ∧
    (∀ text s, startOn? text = some s → ∀ lines, Unfolds (s.runLines catalog lines).world) ∧
    ∃ text s lines q r, startOn? text = some s ∧
      SharesIn (s.runLines (@catalog .usual) lines).world q r := by
  refine ⟨fun tree => ?_, fun text s hs lines => ?_, ?_⟩
  · obtain ⟨base, w, hstore, h⟩ := tree_store tree
    exact ⟨base, w, hstore, unfolds_runLines h⟩
  · obtain ⟨base, w, rfl, h⟩ := tree_startOn? hs
    exact unfolds_runLines h lines
  · have hshared : ((startOn? "\x7b\"a\": [1], \"b\": null\x7d".toList).any fun s =>
        SharesIn (s.runLines (@catalog .usual) ["b=a".toList]).world 2 1) = true := by
      decide +kernel
    obtain ⟨s, hs, hsame⟩ := (Option.any_eq_true ..).1 hshared
    exact ⟨_, s, _, 2, 1, hs, of_decide_eq_true hsame⟩

end

end ObjectConsole.Sample
