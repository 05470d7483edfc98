import ObjectConsole.Proofs.Evaluation.Confinement
import ObjectConsole.Proofs.Sample.TypedRun

/-!
Confinement in the demonstration. A line changes only cells that are reachable
from the value it is evaluated against, and gives a value made of such cells
and of new ones. The lines between a navigation into a value and the return
from it are all on one visit to that value, so they too leave everything alone
that is not reachable from it.
-/

namespace ObjectConsole

/-- No cell changes but those that are reachable from the value, and none is
removed. -/
def World.KeepsOutside (w : World) (v : Value) (w' : World) : Prop :=
  ∀ r c, w.get? r = some c → ¬ w.Reaches v r → w'.get? r = some c

/-- All that is reachable from `u` in `w'` is reachable from `v` in `w`, or was
made after `w`. -/
def World.Confines (w : World) (v : Value) (w' : World) (u : Value) : Prop :=
  ∀ r, w'.Reaches u r → w.Reaches v r ∨ w.cells.size ≤ r

/-- None of the lines, run in turn, takes the stack back to the given size. -/
def Session.StaysAbove (cat : Catalog) (s : Session) (size : Nat) (lines : List (List Char)) :
    Prop :=
  ∀ run, run <+: lines → size < (s.runLines cat run).frames.length

section

variable {cat : Catalog} {J : World → Prop} {f : Visit} {w : World} {v : Value}

theorem Visit.reaches_of_grasps {r : Ref} (h : f.Grasps r) :
    f.start.Reaches f.context r ∨ f.start.cells.size ≤ r :=
  h.imp_left fun hbelow => World.reaches_iff.2 (.inr hbelow)

theorem Confined.keepsOutside (h : Confined cat J f w) :
    f.start.KeepsOutside f.context w := by
  intro r c hc hr
  obtain ⟨d, hd⟩ := World.get?_of_lt (Nat.lt_of_lt_of_le (World.lt_of_get? hc) h.grows)
  rcases h.cells r d hd with hsame | ⟨hown | hgrasps, -⟩
  · rwa [← Option.some.inj (hsame.symm.trans hc)]
  · exact absurd (World.reaches_of_refers (Value.refers_of_own hown)) hr
  · rcases Visit.reaches_of_grasps hgrasps with hreaches | hnew
    · exact absurd hreaches hr
    · exact absurd (World.lt_of_get? hc) (Nat.not_lt.2 hnew)

theorem Confined.confines (h : Confined cat J f w) (hv : f.Finds v) :
    f.start.Confines f.context w v :=
  fun _ hr => Visit.reaches_of_grasps (hr.of_closed (fun _ _ => h.grasps_of_points) hv)

end

namespace Sample

open Builtin

section

variable [Host] {J : World → Prop} {f : Visit} {w w' : World} {v : Value} {r : Ref}

/-! ### The graphs of the demonstration -/

def DemoRecords (w : World) : Prop :=
  ∀ r cls as, w.get? r = some (.record cls as) →
    cls = personName ∨ cls = petName ∨ ∃ width, cls = .ofWidth width

/-- A graph of objects made of lists, tables, and instances of the demonstration
classes. Attributes and items may be anything, also what a slot does not take. -/
structure DemoGraph (w : World) : Prop where
  whole : w.Whole catalog
  records : DemoRecords w

omit [Host] in
theorem demoRecords_alloc {c : Cell} (h : DemoRecords w)
    (hc : ∀ cls as, c = .record cls as →
      cls = personName ∨ cls = petName ∨ ∃ width, cls = .ofWidth width) :
    DemoRecords (w.alloc c).2 := by
  intro r cls as hr
  rcases World.get?_alloc hr with hr | ⟨-, hnew⟩
  · exact h r cls as hr
  · exact hc cls as hnew.symm

omit [Host] in
theorem demoRecords_set {c : Cell} (h : DemoRecords w)
    (hc : ∀ cls as, c = .record cls as →
      cls = personName ∨ cls = petName ∨ ∃ width, cls = .ofWidth width) :
    DemoRecords (w.set r c) := by
  intro s cls as hs
  rcases World.get?_set hs with ⟨-, hs⟩ | ⟨-, hnew⟩
  · exact h s cls as hs
  · exact hc cls as hnew.symm

theorem demoRecords_upheld : Upheld catalog DemoRecords where
  alloc h _ hc := demoRecords_alloc h.now fun cls as hnew => .inr (.inr (hc cls as hnew))
  set {f w r c c'} h _ hr hkind _ := by
    refine demoRecords_set h.now fun cls as hnew => ?_
    subst hnew
    cases hkind
    exact h.now r cls _ hr

/-! ### Members -/

theorem confined_value_cases (hrecords : ∀ w, J w → DemoRecords w)
    (h : Confined catalog J f w) :
    IsBuiltin w f.context ∨ (∃ s, f.context = species s) ∨
      (∃ r as, f.context = .object r ∧ w.get? r = some (.record personName as)) ∨
      ∃ r as, f.context = .object r ∧ w.get? r = some (.record petName as) := by
  refine value_cases (fun c s hc => ?_) fun r cls as _ hr => hrecords w h.now r cls as hr
  exact (species_of_isSome (h.context.choice c s (hc ▸ .self _))).1

/-- Assigning to a member sets attributes of the context only. -/
theorem confined_assign (hJ : Upheld catalog J) (hrecords : ∀ w, J w → DemoRecords w)
    (h : Confined catalog J f w) (hv : (confinement catalog J).knows f w v) (name : String) :
    (confinement catalog J).Keeps f (fun _ => True) (fun _ _ => True)
      (catalog.assign f.context name v) w := by
  have hown : ∀ hidden, (confinement catalog J).Leads f w (w.setOwn f.context hidden v) :=
    fun hidden => leads_setOwn hJ h hv hidden
  rcases confined_value_cases hrecords h with hbuiltin | ⟨s, hs⟩ | ⟨r, as, hcontext, hr⟩ |
    ⟨r, as, hcontext, hr⟩
  · exact (confinement_builds hJ).keeps_assign h hbuiltin hv
  · exact Discipline.keeps_assign_species h hs
  · refine Discipline.keeps_assign h (fun m hm => ?_) fun _ => hown name
    have hmem := Catalog.mem_of_member? hm
    rw [hcontext, members_person hr] at hmem
    exact Discipline.accepts_personBody h hown _ hmem
  · refine Discipline.keeps_assign h (fun m hm => ?_) fun _ => hown name
    have hmem := Catalog.mem_of_member? hm
    rw [hcontext, members_pet hr] at hmem
    have hall : (petBody.members.all fun e => e.2.hasNoSetter) = true := rfl
    exact Discipline.accepts_of_hasNoSetter (List.all_eq_true.1 hall _ hmem)

/-- All members are confined, if those of persons are. -/
theorem confinement_conduct (hJ : Upheld catalog J) (hrecords : ∀ w, J w → DemoRecords w)
    (hperson : ∀ {f w r as}, Confined catalog J f w → f.context = .object r →
      w.get? r = some (.record personName as) →
      ∀ e ∈ personBody.members, (confinement catalog J).Obeys catalog f w e.2) :
    (confinement catalog J).Conduct catalog where
  obeys {f w name m} h hm := by
    have hlawful := confinement_lawful hJ
    rcases confined_value_cases hrecords h with hbuiltin | ⟨s, hs⟩ | ⟨r, as, hcontext, hr⟩ |
      ⟨r, as, hcontext, hr⟩
    · exact hlawful.obeys_builtin (confinement_builds hJ) h hbuiltin hm
    · exact hlawful.obeys_species h hs hm
    · rw [hcontext, members_person hr] at hm
      exact hperson h hcontext hr _ hm
    · rw [hcontext, members_pet hr] at hm
      exact hlawful.obeys_petBody h _ hm
  assign h _ _ hv hu := by
    have hknown := (confinement_lawful hJ).knows_of_fittedFrom h hv
      (Outlines.fittedFrom_coerce _ hu)
    obtain ⟨hleads, hadopted⟩ := knows_adopt hJ h hknown
    exact confined_assign hJ hrecords hleads.holds hadopted _
  insert h hcontext hr hentries := (confinement_builds hJ).fillsTable h hcontext hr hentries

abbrev demoConfinement : Discipline := confinement catalog DemoRecords

theorem demo_lawful : demoConfinement.Lawful catalog := confinement_lawful demoRecords_upheld

/-- The friends of a person are found below the person. -/
theorem demo_runs_addFriend :
    demoConfinement.Runs f w fun v args => appendOwn v "_friends" (arg args 0) := by
  intro w' args hw' _ hargs
  have hitem := demo_lawful.knows_arg hw'.holds hargs 0
  simp only [appendOwn]
  refine (demo_lawful.keeps_own hw'.holds "_friends").bind fun list w₁ hw₁ hlist => ?_
  refine (Discipline.keeps_itemsOf hw₁.holds list).bind ?_
  rintro items w₂ hw₂ ⟨rfl, rfl⟩
  have hitems : ∀ u ∈ (w₂.items? list).getD [] ++ [arg args 0], demoConfinement.knows f w₂ u := by
    intro u hu
    rcases List.mem_append.1 hu with hu | hu
    · exact demo_lawful.knows_items hw₁.holds (.inr hlist) u hu
    · rw [List.mem_singleton.1 hu]
      exact hw₁.keeps _ hitem
  have hstore : demoConfinement.Keeps f (fun _ => True) (fun _ _ => True)
      (Act.store list (.list ((w₂.items? list).getD [] ++ [arg args 0]))) w₂ := by
    cases list with
    | object s =>
        have hgrasps : f.Grasps s := hlist.2 s (Value.refers_of_own rfl)
        exact Discipline.keeps_modify (hw₁.holds.leads_set (.inr hgrasps) hitems
          (demoRecords_set hw₁.holds.now (by simp))) trivial
    | _ => exact Discipline.keeps_pure hw₁.holds trivial
  exact hstore.bind fun _ w₃ hw₃ _ =>
    Discipline.keeps_pure hw₃.holds (demo_lawful.plain hw₃.holds rfl)

/-- Adopting makes a pet of what is known, and an attribute of the person. -/
theorem demo_runs_adopt {m : Method}
    (hm : personBody.members.lookup "adopt" = some (.method m)) :
    demoConfinement.Runs f w m.run := by
  obtain rfl := Member.method.inj (Option.some.inj hm)
  intro w' args hw' _ hargs
  have harg := demo_lawful.knows_arg hw'.holds hargs
  have hvalues : ∀ u ∈ (Cell.record petName
      [("name", arg args 0), ("species", arg args 1), ("age", .int 0)]).values,
      demoConfinement.knows f w' u := by
    simp only [Cell.values, List.map_cons, List.map_nil, List.forall_mem_cons]
    exact ⟨harg 0, harg 1, demo_lawful.plain hw'.holds rfl, by simp⟩
  have halloc : demoConfinement.Keeps f (fun _ => True) (demoConfinement.knows f)
      (Act.alloc (.record petName
        [("name", arg args 0), ("species", arg args 1), ("age", .int 0)])) w' := by
    refine ⟨hw'.holds.leads_alloc hvalues (demoRecords_alloc hw'.holds.now fun cls as hc => ?_),
      hw'.holds.knows_alloc _ rfl⟩
    exact .inr (.inl (Cell.record.inj hc).1.symm)
  refine halloc.bind fun pet w₁ hw₁ hpet => ?_
  have hassign := leads_setOwn demoRecords_upheld hw₁.holds hpet "_pet"
  exact (Discipline.keeps_modify (Q := fun w' _ => demoConfinement.knows f w' pet) hassign
    (hassign.keeps _ hpet)).bind fun _ w₂ hw₂ hpet => Discipline.keeps_pure hw₂.holds hpet

theorem demo_conduct : demoConfinement.Conduct catalog := by
  refine confinement_conduct demoRecords_upheld (fun _ h => h) fun h hcontext hr => ?_
  refine demo_lawful.obeys_personBody (fun h line => ?_) h ?_ ?_
  · have hsize : ∀ w : World, w.cells.size ≤ (w.print line).cells.size := fun w => Nat.le_refl _
    exact Confined.leads
      { h with whole := fun r c hc v hv => (h.whole r c hc v hv).mono (hsize _) } (hsize _)
  · intro m hm
    obtain rfl := Option.some.inj hm
    exact demo_lawful.obeys_plainMethod h demo_runs_addFriend rfl
  · intro m hm
    obtain ⟨method, rfl⟩ : ∃ method, m = .method method := ⟨_, (Option.some.inj hm).symm⟩
    refine demo_lawful.obeys_method h (demo_runs_adopt hm) ?_
    obtain rfl := Member.method.inj (Option.some.inj hm)
    simp only [List.forall_mem_cons]
    exact ⟨by simp, fun v hv => .inr ⟨speciesName, "DOG", (Option.some.inj hv).symm, rfl⟩,
      by simp⟩

/-! ### Lines -/

theorem demo_access : demoConfinement.Access catalog fun _ => True :=
  demo_conduct.access demo_lawful Discipline.allowsSteps_all

/-- Evaluation keeps to what is reachable from the context. -/
theorem demo_evaluate {o : Value} (hw : DemoGraph w) (ho : w.Admits catalog o)
    {text : List Char} {outcome : Outcome} (heval : catalog.evaluate text o w = (outcome, w')) :
    demoConfinement.Leads ⟨o, w⟩ w w' ∧
      demoConfinement.AllowsOutcome ⟨o, w⟩ (fun _ => True) w' outcome := by
  have h := demo_lawful.evaluate demo_access (Discipline.allows_all text)
    (confined_start hw.whole ho hw.records)
  rwa [heval] at h

theorem Fits.admits (h : Fits w v) : w.Admits catalog v := by
  refine ⟨?_, fun c s hs => ?_⟩
  swap
  · obtain ⟨rfl, hchoice⟩ := h.choice c s hs
    exact hchoice
  rintro r ⟨u, hu, hr⟩
  cases u with
  | object s =>
      obtain rfl := Option.some.inj hr
      obtain ⟨c, hc⟩ := h.object s hu
      exact World.lt_of_get? hc
  | sized width n own =>
      obtain rfl : own = some r := hr
      obtain ⟨as, has⟩ := h.sized width n r hu
      exact World.lt_of_get? has
  | _ => exact absurd hr (by simp [Value.own?])

theorem WellTyped.demoGraph (h : WellTyped w) : DemoGraph w where
  whole r c hr v hv := ((h r c hr).fits v hv).admits
  records r cls as hr := by
    rcases (h r _ hr).record cls as rfl with ⟨hcls, -⟩ | ⟨hcls, -⟩ | hcls
    · exact .inl hcls
    · exact .inr (.inl hcls)
    · exact .inr (.inr hcls)

/-- A line evaluated against a value leaves all cells as they are that are not
reachable from it, and its value is made of cells that are, and of new ones.
After a navigation, all lines before the return from it together leave the
cells as they are that were not reachable from the value navigated into. -/
theorem lines_confined {o : Value} (hw : DemoGraph w) (ho : w.Admits catalog o) :
    (∀ line outcome w', catalog.evaluate line o w = (outcome, w') →
      w.KeepsOutside o w' ∧
        ∀ v navigates, outcome = .value v navigates → w.Confines o w' v) ∧
    ∀ (s t : Session) line v, s.world = w → s.stack.current = o →
      s.runLine catalog line = (.value v true, t) →
      ∀ lines, t.StaysAbove catalog s.frames.length lines →
        t.world.KeepsOutside t.stack.current (t.runLines catalog lines).world := by
  refine ⟨fun line outcome w' heval => ?_, ?_⟩
  · obtain ⟨hleads, houtcome⟩ := demo_evaluate hw ho heval
    refine ⟨hleads.holds.keepsOutside, ?_⟩
    rintro v navigates rfl
    exact hleads.holds.confines houtcome.2
  · rintro s t line v rfl rfl hrun lines hstays
    obtain ⟨u, w', heval, rfl⟩ := Session.pushed_of_navigated catalog s hrun
    obtain ⟨hleads, hknown⟩ := demo_evaluate hw ho heval
    obtain ⟨hadopt, hadopted⟩ := demo_lawful.adopt hleads.holds hknown
    have hvisit := demo_lawful.enter hadopt.holds (.inr hadopted)
    have hgoverns : demoConfinement.Governs ⟨(w'.adopt u).1, (w'.adopt u).2⟩ s.frames
        { s with stack := s.stack.push (w'.adopt u).1, world := (w'.adopt u).2 } :=
      ⟨hvisit, [(w'.adopt u).1], by simp, rfl, by simp⟩
    exact (demo_lawful.governs_runLines demo_access hgoverns lines hstays).1.holds.keepsOutside

end

/-- So it is with the pet of the demonstration person, from which the person is
not reachable. -/
theorem petRex_confined :
    demonstration.1 = .object 2 ∧ demonstration.2.get? 0 = some (.record petName
        [("name", .text "Rex"), ("species", species "DOG"), ("age", .int 4)]) ∧
      DemoGraph demonstration.2 ∧ demonstration.2.Admits catalog (.object 0) ∧
      (∀ line, (catalog.evaluate line (.object 0) demonstration.2).2.get? 2 =
        demonstration.2.get? 2) ∧
      ∀ line v t, (Session.start (.object 0) demonstration.2).runLine catalog line =
          (.value v true, t) →
        ∀ lines, t.StaysAbove catalog 1 lines →
          t.world.KeepsOutside t.stack.current (t.runLines catalog lines).world := by
  have hrex : demonstration.2.get? 0 = some (.record petName
      [("name", .text "Rex"), ("species", species "DOG"), ("age", .int 4)]) := rfl
  have hgraph := wellTyped_demonstration.demoGraph
  have hadmits : demonstration.2.Admits catalog (.object 0) :=
    World.admits_object (World.lt_of_get? hrex)
  have hreaches : ¬ demonstration.2.Reaches (.object 0) 2 := by
    rw [World.reaches_iff]
    rintro (hself | ⟨u, hu, r, hr, -⟩)
    · exact absurd hself (by decide)
    · rw [World.contents_of_own rfl hrex] at hu
      simp only [Cell.values, List.map_cons, List.map_nil, List.mem_cons, List.not_mem_nil,
        or_false] at hu
      rcases hu with rfl | rfl | rfl
      · exact Value.not_refers_of_plain rfl hr
      · exact Value.not_refers_choice _ _ r hr
      · exact Value.not_refers_of_plain rfl hr
  obtain ⟨c, hc⟩ := World.get?_of_lt (w := demonstration.2) (r := 2) (by decide)
  obtain ⟨hevaluate, hsession⟩ := lines_confined hgraph hadmits
  refine ⟨rfl, hrex, hgraph, hadmits, fun line => ?_, fun line v t hrun => ?_⟩
  · rw [hc]
    exact (hevaluate line _ _ rfl).1 2 c hc hreaches
  · exact hsession (Session.start (.object 0) demonstration.2) t line v rfl rfl hrun

end Sample

end ObjectConsole
