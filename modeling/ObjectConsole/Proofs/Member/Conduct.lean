import ObjectConsole.Proofs.Evaluation.Discipline
import ObjectConsole.Proofs.Member.Resolution
import ObjectConsole.Proofs.World.Change

/-!
The conduct of members. Reading, writing and calling are the same for all
classes up to the code of the members, so they keep to a discipline if that
code does: getters, methods and the plain values of a class in every world
that may come up, and the code that assigns, for values as the slot fits them.
-/

namespace ObjectConsole

theorem writable_of_mem_keyProperties {frozen : Bool} {entries : List (Value × Value)}
    {p : PropertyInfo} (h : p ∈ keyProperties frozen entries) : p.writable = !frozen := by
  obtain ⟨⟨key, value⟩, -, hp⟩ := List.mem_filterMap.1 h
  cases key with
  | text name => rw [← Option.some.inj hp]
  | _ => exact absurd hp (by simp)

theorem ClassDef.mem_of_member? {c : ClassDef} {name : String} {m : Member}
    (h : c.member? name = some m) : (name, m) ∈ c.lineage.flatMap (·.members) := by
  obtain ⟨body, hbody, hm⟩ := List.exists_of_findSome?_eq_some h
  obtain ⟨l₁, l₂, hmembers, -⟩ := List.lookup_eq_some_iff.1 hm
  exact List.mem_flatMap.2 ⟨body, hbody, by simp [hmembers]⟩

namespace Catalog

variable {cat : Catalog} {w : World} {v : Value} {name : String}

theorem mem_of_member? {m : Member} (h : (cat.classOf w v).member? name = some m) :
    (name, m) ∈ (cat.subject w v).members :=
  ClassDef.mem_of_member? h

theorem mem_of_mem_firstUnseen {α : Type} {seen : List String} {entries : List (String × α)}
    {e : String × α} (h : e ∈ firstUnseen seen entries) : e ∈ entries := by
  induction entries generalizing seen with
  | nil => exact absurd h (by simp [firstUnseen])
  | cons a rest ih =>
      obtain ⟨n, x⟩ := a
      rw [firstUnseen] at h
      split at h
      · exact List.mem_cons_of_mem _ (ih h)
      · rcases List.mem_cons.1 h with rfl | h
        · exact List.mem_cons_self ..
        · exact List.mem_cons_of_mem _ (ih h)

/-- A method as described is a method among the members. -/
theorem exists_of_mem_methods {info : MethodInfo} (h : info ∈ cat.methods w v) :
    ∃ name m params, (name, Member.method m) ∈ (cat.subject w v).members ∧
      m.callParams? = some params ∧ info.params = params.map Subject.ofParam ∧
      info.run = m.run := by
  rw [methods] at h
  split at h
  · exact absurd h (by simp)
  · obtain ⟨⟨name, member⟩, hmem, hinfo⟩ := List.mem_filterMap.1 h
    have hmember := (List.mem_filter.1 (mem_of_mem_firstUnseen hmem)).1
    cases member with
    | method m =>
        simp only [Subject.methodOf] at hinfo
        split at hinfo
        · exact absurd hinfo (by simp)
        · obtain ⟨params, hparams, rfl⟩ := Option.map_eq_some_iff.1 hinfo
          exact ⟨name, m, params, hmember, hparams, rfl, rfl⟩
    | _ => exact absurd hinfo (by simp [Subject.methodOf])

/-- The method that a call means is among the methods of the value, it takes as
many arguments, and they are fitted to it. -/
theorem resolve_spec {label : String} {given fitted : List Value} {m : MethodInfo}
    (h : cat.resolve w v label given = .ok (m, fitted)) :
    m ∈ cat.methods w v ∧ m.accepts given.length = true ∧
      cat.fitArguments w given m.params = .ok fitted := by
  obtain ⟨before, after, hsplit, hfits, -⟩ := resolve_eq_ok_iff.1 h
  have hm : m ∈ cat.overloads w v label := by simp [hsplit]
  exact ⟨(mem_overloads_iff.1 hm).1, fits_iff.1 hfits⟩

/-- A call that is possible has an argument for every required parameter. -/
theorem required_le_of_accepts {info : MethodInfo} {params : List Param} {count : Nat}
    (hparams : info.params = params.map Subject.ofParam) (h : info.accepts count = true) :
    params.countP (fun p => !p.isOptional) ≤ count := by
  rw [MethodInfo.accepts, MethodInfo.required, hparams, List.countP_map] at h
  exact of_decide_eq_true (Bool.and_eq_true_iff.1 h).1

/-- Errors of a call before its method runs are reported, or raised over an
argument. -/
theorem resolve_error {label : String} {given : List Value} {s : Stop}
    (h : cat.resolve w v label given = .error s) {E : Stop → Prop}
    (hE : Discipline.AllowsSteps E) : E s := by
  cases s with
  | reported e =>
      refine hE.reported e ?_
      rintro rfl
      rw [resolve_eq] at h
      split at h
      · exact absurd h (by simp)
      · cases hanswer : (cat.overloads w v label).findSome? (cat.answer? w given) with
        | none => exact absurd h (by simp [hanswer])
        | some r => cases r <;> exact absurd h (by simp [hanswer, ofAnswer])
  | escaped e =>
      obtain ⟨_, _, _, _, hstops, _⟩ := resolve_eq_escaped_iff.1 h
      exact hE.raised e hstops.isValueError

end Catalog

namespace Discipline

variable (D : Discipline) (cat : Catalog) (f : Visit) (w : World)

/-- The code of a member obeys the discipline on the visit `f`, where the
member is met in the world `w`. A cached accessor stores what it gets among the
attributes. A method is given fitted arguments, one for each parameter that is
required, and what stands in for those left out. -/
def Obeys : Member → Prop
  | .accessor a => (∀ getter, a.get = some getter →
      D.Keeps f (fun _ => True) (D.knows f) (getter f.context) w) ∧
      (a.cached = true → ∀ w' name v, D.Leads f w w' → D.knows f w' v →
        D.Leads f w' (w'.setOwn f.context name v))
  | .constant v => D.knows f w v
  | .method m => ∀ params given fitted, m.callParams? = some params →
      params.countP (fun p => !p.isOptional) ≤ given.length →
      (∀ v ∈ given, D.knows f w v) →
      cat.fitArguments w given (params.map Subject.ofParam) = .ok fitted →
      D.Keeps f (fun _ => True) (D.knows f)
        (m.run f.context
          (Catalog.withDefaults (w.adoptAll fitted).1 (params.map Subject.ofParam)))
        (w.adoptAll fitted).2
  | _ => True

def Accepts (v : Value) : Member → Prop
  | .accessor a => ∀ setter, a.set = some setter →
      D.Keeps f (fun _ => True) (fun _ _ => True) (setter f.context v) w
  | _ => True

/-- Code of a method obeys the discipline from the world `w` on, for all
arguments that are known. -/
def Runs (run : Value → List Value → Act Value) : Prop :=
  ∀ w' args, D.Leads f w w' → w.Extends w' → (∀ v ∈ args, D.knows f w' v) →
    D.Keeps f (fun _ => True) (D.knows f) (run f.context args) w'

structure Conduct : Prop where
  obeys {f w name m} : D.holds f w → (name, m) ∈ (cat.subject w f.context).members →
    D.Obeys cat f w m
  assign {f w label p v u} : D.holds f w → w.table? f.context = none →
    cat.findProperty? w f.context label = some p → D.knows f w v →
    cat.coerce w v p.type = .ok u →
    D.Keeps f (fun _ => True) (fun _ _ => True) (cat.assign f.context p.name (w.adopt u).1)
      (w.adopt u).2
  insert {f w r entries entries'} : D.holds f w → f.context = .object r →
    w.get? r = some (.table false entries) →
    (∀ e ∈ entries', D.knows f w e.1 ∧ D.knows f w e.2) →
    D.Leads f w (w.set r (.table false entries'))

variable {D cat f w}

theorem Lawful.scalar (hD : D.Lawful cat) {v : Value} (h : D.holds f w)
    (hv : cat.IsScalar v) : D.knows f w v := by
  rcases hv with hv | ⟨c, s, rfl, hs⟩
  · exact hD.plain h hv
  · exact hD.choice h hs

theorem Lawful.knows_of_fittedFrom (hD : D.Lawful cat) {v u : Value} (h : D.holds f w)
    (hv : D.knows f w v) (hu : cat.FittedFrom v u) : D.knows f w u := by
  rcases hu with rfl | hu
  · exact hv
  · exact hD.scalar h hu

theorem Lawful.adoptAll (hD : D.Lawful cat) {vs : List Value} (h : D.holds f w)
    (hvs : ∀ v ∈ vs, D.knows f w v) :
    D.Leads f w (w.adoptAll vs).2 ∧
      ∀ v ∈ (w.adoptAll vs).1, D.knows f (w.adoptAll vs).2 v := by
  induction vs generalizing w with
  | nil => exact ⟨.refl h, by simp [World.adoptAll]⟩
  | cons v vs ih =>
      obtain ⟨hleads, hv⟩ := hD.adopt h (hvs v (List.mem_cons_self ..))
      obtain ⟨hleads', hvs'⟩ := ih hleads.holds fun u hu =>
        hleads.keeps u (hvs u (List.mem_cons_of_mem _ hu))
      refine ⟨hleads.trans hleads', ?_⟩
      intro u hu
      rcases List.mem_cons.1 hu with rfl | hu
      · exact hleads'.keeps _ hv
      · exact hvs' u hu

/-- A method obeys the discipline if its code does, for the arguments of a
call are known and the defaults are scalars. -/
theorem Lawful.obeys_method (hD : D.Lawful cat) {m : Method} (h : D.holds f w)
    (hrun : D.Runs f w m.run)
    (hdefault : ∀ p ∈ m.params, ∀ v, p.default = some v → cat.IsScalar v) :
    D.Obeys cat f w (.method m) := by
  intro params given fitted hparams _ hgiven hfit
  have hknown : ∀ u ∈ fitted, D.knows f w u := fun u hu =>
    (Catalog.mem_of_fitArguments hfit hu).elim (hgiven u) (hD.scalar h)
  obtain ⟨hleads, hadopted⟩ := hD.adoptAll h hknown
  refine hrun _ _ hleads (w.extends_adoptAll fitted) ?_
  intro v hv
  rcases List.mem_append.1 hv with hv | hv
  · exact hadopted v hv
  · obtain ⟨info, hinfo, rfl⟩ := List.mem_map.1 hv
    obtain ⟨p, hp, rfl⟩ := List.mem_map.1 (List.mem_of_mem_drop hinfo)
    have hmem : p ∈ m.params := by
      rw [Method.callParams?] at hparams
      split at hparams
      · exact absurd hparams (by simp)
      · rw [← Option.some.inj hparams] at hp
        exact (List.mem_filter.1 hp).1
    cases hpd : p.default with
    | none => simpa [Subject.ofParam, hpd] using hD.plain hleads.holds rfl
    | some v => simpa [Subject.ofParam, hpd] using hD.scalar hleads.holds (hdefault p hmem v hpd)

/-! ### Reading -/

theorem Lawful.knows_own (hD : D.Lawful cat) (h : D.holds f w) {name : String} {v : Value}
    (hv : (w.attributes f.context).lookup name = some v) : D.knows f w v := by
  obtain ⟨l₁, l₂, has, -⟩ := List.lookup_eq_some_iff.1 hv
  have hmem : (name, v) ∈ w.attributes f.context := by simp [has]
  exact hD.contents h (.inl rfl) (World.mem_contents_of_attribute hmem)

theorem Lawful.keeps_own (hD : D.Lawful cat) (h : D.holds f w) (name : String)
    {E : Raised → Prop} : D.Keeps f E (D.knows f) (Act.own f.context name) w := by
  rw [Act.own]
  refine keeps_get_bind (keeps_pure h ?_)
  cases hv : (w.attributes f.context).lookup name with
  | none => exact hD.plain h rfl
  | some v => exact hD.knows_own h hv

theorem Lawful.keeps_fetch (hD : D.Lawful cat) (h : D.holds f w) {name : String}
    (hmember : ∀ m, (cat.classOf w f.context).member? name = some m → D.Obeys cat f w m) :
    D.Keeps f (fun _ => True) (D.knows f) (cat.fetch f.context name) w := by
  have hown : ∀ v, (w.attributes f.context).lookup name = some v → D.knows f w v :=
    fun v hv => hD.knows_own h hv
  rw [Catalog.fetch]
  refine keeps_get_bind ?_
  dsimp only
  split
  · next a ha =>
      obtain ⟨hget, hcache⟩ := hmember _ ha
      split
      · next v _ hv => exact keeps_pure h (hown v hv)
      · next getter hcached _ hgetter =>
          refine (hget getter hgetter).bind fun v w' hw' hv => ?_
          have hleads := hcache hcached w' name v hw' hv
          exact Keeps.bind (keeps_modify (Q := fun w'' _ => D.knows f w'' v) hleads
            (hleads.keeps v hv)) fun _ w'' hw'' hv => keeps_pure hw''.holds hv
      · next getter _ hgetter => exact hget getter hgetter
      · exact keeps_throw h trivial
  · next v hv =>
      refine keeps_pure h ?_
      cases hlookup : (w.attributes f.context).lookup name with
      | none => exact hmember _ hv
      | some u => exact hown u hlookup
  · split
    · next u hu => exact keeps_pure h (hown u hu)
    · exact keeps_throw h trivial

/-! ### Writing -/

/-- Assigning obeys the discipline where setters do, and where the value may
be an attribute if there is no accessor that it goes through. -/
theorem keeps_assign (h : D.holds f w) {name : String} {v : Value}
    (hmember : ∀ m, (cat.classOf w f.context).member? name = some m → D.Accepts f w v m)
    (hattribute : (∀ a, (cat.classOf w f.context).member? name = some (.accessor a) →
      a.cached = true) → D.Leads f w (w.setOwn f.context name v)) :
    D.Keeps f (fun _ => True) (fun _ _ => True) (cat.assign f.context name v) w := by
  rw [Catalog.assign]
  refine keeps_get_bind ?_
  dsimp only
  split
  · exact keeps_throw h trivial
  · split
    · next a ha =>
        split
        · next hcached =>
            refine keeps_modify (hattribute fun b hb => ?_) trivial
            obtain rfl : a = b := by simpa using ha.symm.trans hb
            exact hcached
        · split
          · next setter hsetter => exact hmember _ ha setter hsetter
          · exact keeps_get_bind (keeps_throw h trivial)
    · next hnone => exact keeps_modify (hattribute fun a ha => absurd ha (hnone a)) trivial

/-! ### Access -/

section Access

variable {E : Stop → Prop} {label : String}

theorem Conduct.keeps_read (hC : D.Conduct cat) (hD : D.Lawful cat)
    (hE : AllowsSteps E) (h : D.holds f w) :
    D.Keeps f E (D.knows f) (cat.readProperty f.context label) w := by
  rw [Catalog.readProperty]
  refine keeps_get_bind ?_
  split
  · split
    · exact keeps_fail h (hE.reported _ (by simp))
    · split
      · next frozen entries htable =>
          refine keeps_pure h ?_
          cases hv : cat.lookup w (.text _) entries with
          | none => exact hD.plain h rfl
          | some v =>
              obtain ⟨k, hk⟩ := Outlines.mem_of_lookup hv
              exact hD.contents h (.inl rfl) (World.mem_contents_of_table htable hk).2
      · refine Keeps.invoke (hD.keeps_fetch h ?_) hE
        exact fun m hm => hC.obeys h (Catalog.mem_of_member? hm)
  · exact keeps_fail h (hE.reported _ (by simp))

theorem keeps_fit (hE : AllowsSteps E) (h : D.holds f w) (v : Value) (type : SlotType) :
    D.Keeps f E (fun w' u => w' = w ∧ cat.coerce w v type = .ok u) (cat.fit w v type) w := by
  rw [Catalog.fit]
  split
  · next u hu => exact keeps_pure h ⟨rfl, hu⟩
  · exact keeps_fail h (hE.reported _ (by simp))
  · next e he => exact keeps_throw h (hE.raised e (Outlines.isValueError_of_raises he))

/-- The table of the context may take a known value for a key that it has. -/
theorem Conduct.leads_insert (hC : D.Conduct cat) (hD : D.Lawful cat) (h : D.holds f w)
    {w' : World} (hw' : D.Leads f w w') (hext : w.Extends w') {v : Value}
    (hv : D.knows f w' v) {frozen : Bool} {entries : List (Value × Value)}
    (htable : w.table? f.context = some (frozen, entries)) {p : PropertyInfo}
    (hp : cat.findProperty? w f.context label = some p) (hwritable : p.writable = true) :
    D.Leads f w' (match f.context with
      | .object r => w'.set r (.table frozen (cat.insert w' (.text p.name) v entries))
      | _ => w') := by
  have hfrozen : frozen = false := by
    have hmem := List.mem_of_find?_eq_some hp
    rw [Catalog.properties, htable] at hmem
    simpa [hwritable] using (writable_of_mem_keyProperties hmem).symm
  subst hfrozen
  have hentries : ∀ e ∈ entries, D.knows f w' e.1 ∧ D.knows f w' e.2 := fun e he =>
    have hmem := World.mem_contents_of_table htable he
    ⟨hw'.keeps _ (hD.contents h (.inl rfl) hmem.1), hw'.keeps _ (hD.contents h (.inl rfl) hmem.2)⟩
  obtain ⟨r, hcontext, hr⟩ := World.table?_eq_some htable
  have hinserted : ∀ e ∈ cat.insert w' (.text p.name) v entries,
      D.knows f w' e.1 ∧ D.knows f w' e.2 := by
    intro e he
    obtain ⟨hkey, hvalue⟩ := Outlines.mem_insert he
    refine ⟨?_, ?_⟩
    · rcases hkey with hkey | ⟨x, hx⟩
      · rw [hkey]
        exact hD.plain hw'.holds rfl
      · exact (hentries _ hx).1
    · rcases hvalue with hvalue | ⟨k, hk⟩
      · rwa [hvalue]
      · exact (hentries _ hk).2
  rw [hcontext]
  exact hC.insert hw'.holds hcontext (hext r _ hr) hinserted

theorem Conduct.keeps_write (hC : D.Conduct cat) (hD : D.Lawful cat)
    (hE : AllowsSteps E) (h : D.holds f w) {v : Value} (hv : D.knows f w v) :
    D.Keeps f E (D.knows f) (cat.writeProperty f.context label v) w := by
  rw [Catalog.writeProperty]
  refine keeps_get_bind ?_
  split
  · next p hp =>
      split
      · exact keeps_fail h (hE.reported _ (by simp))
      · next hwritable =>
          refine (keeps_fit hE h v p.type).bind ?_
          rintro u _ - ⟨rfl, hu⟩
          obtain ⟨hleads, hadopted⟩ := hD.adopt h (hD.knows_of_fittedFrom h hv
            (Outlines.fittedFrom_coerce p.type hu))
          have hadopt : D.Keeps f E
              (fun w' s => w' = (World.adopt _ u).2 ∧ s = (World.adopt _ u).1)
              (Catalog.adopt u) _ := ⟨hleads, rfl, rfl⟩
          refine hadopt.bind ?_
          rintro _ _ - ⟨rfl, rfl⟩
          split
          · next frozen entries htable =>
              have hinsert := hC.leads_insert hD h hleads (World.extends_adopt _ u) hadopted
                htable hp (by simpa using hwritable)
              exact Keeps.bind (keeps_modify (Q := fun w' _ => D.knows f w' _) hinsert
                (hinsert.keeps _ hadopted)) fun _ w' hw' hu => keeps_pure hw'.holds hu
          · next htable =>
              refine (Keeps.invoke (hC.assign h htable hp hv hu) hE).bind fun _ w' hw' _ => ?_
              exact keeps_pure hw'.holds (hw'.keeps _ hadopted)
  · exact keeps_fail h (hE.reported _ (by simp))

theorem Conduct.keeps_call (hC : D.Conduct cat) (hD : D.Lawful cat)
    (hE : AllowsSteps E) (h : D.holds f w)
    {args : List Value} (hargs : ∀ v ∈ args, D.knows f w v) :
    D.Keeps f E (D.knows f) (cat.callMethod f.context label args) w := by
  rw [Catalog.callMethod]
  refine keeps_get_bind ?_
  split
  · next e he => exact keeps_throw h (Catalog.resolve_error he hE)
  · next m fitted hfound =>
      obtain ⟨hmem, haccepts, hfit⟩ := Catalog.resolve_spec hfound
      obtain ⟨name, method, params, hmember, hcall, hparams, hrun⟩ :=
        Catalog.exists_of_mem_methods hmem
      have hcount := Catalog.required_le_of_accepts hparams haccepts
      rw [hparams] at hfit ⊢
      rw [hrun]
      have hfitted : ∀ u ∈ fitted, D.knows f w u := fun u hu =>
        (Catalog.mem_of_fitArguments hfit hu).elim (hargs u) (hD.scalar h)
      have hleads := (hD.adoptAll h hfitted).1
      refine keeps_get_bind ?_
      refine (keeps_set (Q := fun w' _ => w' = (w.adoptAll fitted).2) hleads rfl).bind ?_
      rintro - _ - rfl
      exact Keeps.invoke (hC.obeys h hmember params args fitted hcall hcount hargs hfit) hE

/-- Where members obey a discipline, all access to them does. -/
theorem Conduct.access (hC : D.Conduct cat) (hD : D.Lawful cat)
    (hE : AllowsSteps E) : D.Access cat E where
  read h := hC.keeps_read hD hE h
  write h hv := hC.keeps_write hD hE h hv
  call h hargs := hC.keeps_call hD hE h hargs

end Access

end Discipline

end ObjectConsole
