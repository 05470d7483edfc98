import ObjectConsole.Builtin.Classes
import ObjectConsole.Proofs.Member.Conduct

/-!
The conduct of scalars. The members of numbers, strings, bytes and enumerations
change nothing, and give scalars, or scalars in tuples and new lists; so they obey
every discipline that lets lists be made, whatever a library answers for them.
-/

namespace ObjectConsole

open Builtin

namespace Discipline

variable {D : Discipline} {cat : Catalog} {f : Visit} {w : World}

/-! ### Members that give plain values -/

section Plain

variable {E : Raised → Prop}

theorem Lawful.keeps_plain (hD : D.Lawful cat) {x : Act Value}
    (hx : D.Keeps f E (fun _ v => v.isPlain = true) x w) : D.Keeps f E (D.knows f) x w :=
  hx.imp fun _ _ hw hv => hD.plain hw.holds hv

theorem Lawful.runs_plain (hD : D.Lawful cat) {run : Value → List Value → Act Value}
    (hrun : ∀ w' args, D.holds f w' →
      D.Keeps f (fun _ => True) (fun _ v => v.isPlain = true) (run f.context args) w') :
    D.Runs f w run :=
  fun w' args hw' _ _ => hD.keeps_plain (hrun w' args hw'.holds)

theorem Lawful.obeys_readOnly (hD : D.Lawful cat) {get : Value → Act Value}
    (hget : D.Keeps f (fun _ => True) (fun _ v => v.isPlain = true) (get f.context) w) :
    D.Obeys cat f w (.accessor { get := some get }) := by
  refine ⟨?_, fun hcached => absurd hcached (by simp)⟩
  intro getter hgetter
  obtain rfl := Option.some.inj hgetter
  exact hD.keeps_plain hget

end Plain

def PlainDefaults (params : List Param) : Prop :=
  (params.all fun p => (p.default.map Value.isPlain).getD true) = true

theorem Lawful.obeys_plainMethod (hD : D.Lawful cat) (h : D.holds f w) {m : Method}
    (hrun : D.Runs f w m.run) (hparams : PlainDefaults m.params) :
    D.Obeys cat f w (.method m) := by
  refine hD.obeys_method h hrun fun p hp v hv => .inl ?_
  have hplain := List.all_eq_true.1 hparams p hp
  rwa [hv] at hplain

/-! ### Libraries -/

def MakesLists (D : Discipline) : Prop :=
  ∀ {f w items}, D.holds f w → (∀ v ∈ items, D.knows f w v) →
    D.Leads f w (w.alloc (.list items)).2 ∧
      D.knows f (w.alloc (.list items)).2 (.object (w.alloc (.list items)).1)

theorem keeps_allocList (hlist : D.MakesLists) (h : D.holds f w) {E : Raised → Prop}
    {items : List Value} (hitems : ∀ v ∈ items, D.knows f w v) :
    D.Keeps f E (D.knows f) (Act.alloc (.list items)) w :=
  ⟨(hlist h hitems).1, (hlist h hitems).2⟩

theorem isPlain_datum (d : Datum) : d.value.isPlain = true := by
  cases d <;> rfl

theorem Lawful.keeps_storeAnswer (hD : D.Lawful cat) (hlist : D.MakesLists) (h : D.holds f w)
    {E : Raised → Prop} (a : Answer) : D.Keeps f E (D.knows f) a.store w := by
  have hitems (items : List Datum) : ∀ v ∈ items.map Datum.value, D.knows f w v := by
    intro v hv
    obtain ⟨d, -, rfl⟩ := List.mem_map.1 hv
    exact hD.plain h (isPlain_datum d)
  cases a with
  | scalar d => exact keeps_pure h (hD.plain h (isPlain_datum d))
  | tuple items => exact keeps_pure h (hD.tuple h (hitems items))
  | list items => exact keeps_allocList hlist h (hitems items)

theorem Lawful.runs_library (hD : D.Lawful cat) (hlist : D.MakesLists) (lib : Library)
    (cls name : String) : D.Runs f w (lib.run cls name) := by
  intro w' args hw' _ _
  rw [Library.run]
  refine keeps_get_bind ?_
  split
  · exact hD.keeps_storeAnswer hlist hw'.holds _
  · exact keeps_throw hw'.holds trivial

theorem Lawful.obeys_library (hD : D.Lawful cat) (hlist : D.MakesLists) (h : D.holds f w)
    (lib : Library) {cls name : String} {params : List Param} (hparams : PlainDefaults params) :
    D.Obeys cat f w (lib.method cls name params).2 :=
  hD.obeys_plainMethod h (hD.runs_library hlist lib cls name) hparams

/-! ### Numbers -/

/-- The value of a method that only computes. -/
theorem Lawful.runs_pure (hD : D.Lawful cat) {result : Value → List Value → Value}
    (hresult : ∀ args, (result f.context args).isPlain = true) :
    D.Runs f w fun v args => pure (result v args) :=
  hD.runs_plain fun _ args hw' => keeps_pure hw' (hresult args)

theorem Lawful.obeys_integerBody (hD : D.Lawful cat) (hlist : D.MakesLists) (h : D.holds f w)
    (lib : Library) : ∀ e ∈ (integerBody lib).members, D.Obeys cat f w e.2 := by
  have hratio : D.Runs f w fun v _ => pure (.tuple [.int (integerOf v), .int 1]) := by
    intro w' args hw' _ _
    refine keeps_pure hw'.holds (hD.tuple hw'.holds fun u hu => hD.plain hw'.holds ?_)
    rcases List.mem_cons.1 hu with rfl | hu
    · rfl
    · rw [List.mem_singleton.1 hu]
      rfl
  have hconst {result : Value → Value} (hresult : (result f.context).isPlain = true) :
      D.Obeys cat f w (.accessor { get := some fun v => pure (result v) }) :=
    hD.obeys_readOnly (keeps_pure h hresult)
  simp only [integerBody, List.forall_mem_cons, List.not_mem_nil, false_imp_iff, implies_true,
    and_true]
  exact ⟨hD.obeys_plainMethod h (hD.runs_pure fun _ => rfl) rfl,
    hD.obeys_plainMethod h (hD.runs_pure fun _ => rfl) rfl,
    hD.obeys_library hlist h lib rfl, hD.obeys_library hlist h lib rfl,
    hD.obeys_plainMethod h hratio rfl, hconst rfl, hconst rfl, hconst rfl, hconst rfl⟩

theorem Lawful.obeys_widthBody (hD : D.Lawful cat) (h : D.holds f w) (width : Width) :
    ∀ e ∈ (widthBody width).members, D.Obeys cat f w e.2 := by
  simp only [widthBody, List.forall_mem_cons, List.not_mem_nil, false_imp_iff, implies_true,
    and_true]
  exact ⟨hD.plain h rfl, hD.plain h rfl, hD.plain h rfl⟩

theorem Lawful.obeys_sizedBody (hD : D.Lawful cat) (h : D.holds f w) (width : Width) :
    ∀ e ∈ (sizedBody width).members, D.Obeys cat f w e.2 := by
  simp only [sizedBody, List.forall_mem_cons, List.not_mem_nil, false_imp_iff, implies_true,
    and_true]
  exact hD.obeys_plainMethod h (hD.runs_pure fun _ => rfl) rfl

theorem Lawful.obeys_floatBody (hD : D.Lawful cat) (hlist : D.MakesLists) (h : D.holds f w)
    (lib : Library) (hcontext : f.context.isPlain = true) :
    ∀ e ∈ (floatBody lib).members, D.Obeys cat f w e.2 := by
  simp only [floatBody, List.forall_mem_cons, List.not_mem_nil, false_imp_iff, implies_true,
    and_true]
  refine ⟨hD.obeys_plainMethod h (hD.runs_pure fun _ => hcontext) rfl,
    hD.obeys_library hlist h lib rfl, hD.obeys_library hlist h lib rfl,
    hD.obeys_library hlist h lib rfl,
    hD.obeys_plainMethod h (hD.runs_plain fun w' args hw' => ?_) rfl,
    hD.obeys_readOnly (keeps_pure h hcontext), hD.obeys_readOnly (keeps_pure h rfl)⟩
  dsimp only
  split <;> exact keeps_pure hw' rfl

/-! ### Enumerations -/

/-- The name of a member of an enumeration is a string, and its value is known
if it is plain. -/
theorem Lawful.obeys_enumerationBody (hD : D.Lawful cat) (h : D.holds f w) {o : Outlines}
    (hplain : ∀ c s v, (o.find c).choices.lookup s = some v → v.isPlain = true) :
    ∀ e ∈ (enumerationBody o).members, D.Obeys cat f w e.2 := by
  simp only [enumerationBody, List.forall_mem_cons, List.not_mem_nil, false_imp_iff,
    implies_true, and_true]
  refine ⟨hD.obeys_readOnly ?_, hD.obeys_readOnly ?_⟩
  · split <;> exact keeps_pure h rfl
  · split
    · next c s _ =>
        refine keeps_pure h ?_
        cases hv : (o.find c).choices.lookup s with
        | none => rfl
        | some v => exact hplain c s v hv
    · exact keeps_pure h rfl

/-! ### Strings -/

section Readers

variable {E : Raised → Prop} (hE : ∀ e, E e) (h : D.holds f w)

include hE h

/-- Code that reads the world and leaves it as it is. -/
theorem keeps_indexArg (v : Value) :
    D.Keeps f E (fun w' _ => w' = w) (indexArg v) w := by
  rw [indexArg]
  split
  · split
    · exact keeps_pure h rfl
    · exact keeps_throw h (hE _)
  · exact keeps_get_bind (keeps_throw h (hE _))

theorem keeps_boundArg (v : Value) :
    D.Keeps f E (fun w' _ => w' = w) (boundArg v) w := by
  rw [boundArg]
  split
  · exact keeps_pure h rfl
  · exact keeps_throw h (hE _)

theorem keeps_textArg (method : String) (position : Nat) (v : Value) :
    D.Keeps f E (fun w' _ => w' = w) (textArg method position v) w := by
  unfold textArg
  split
  · exact keeps_pure h rfl
  · exact keeps_get_bind (keeps_throw h (hE _))

end Readers

theorem Lawful.runs_replace (hD : D.Lawful cat) : D.Runs f w runReplace := by
  refine hD.runs_plain fun w' args hw' => ?_
  rw [runReplace]
  refine (keeps_textArg (fun _ => trivial) hw' _ _ _).bind fun _ _ hw₁ _ => ?_
  refine (keeps_textArg (fun _ => trivial) hw₁.holds _ _ _).bind fun _ _ hw₂ _ => ?_
  refine (keeps_indexArg (fun _ => trivial) hw₂.holds _).bind fun _ _ hw₃ _ => ?_
  exact keeps_pure hw₃.holds rfl

theorem Lawful.runs_split (hD : D.Lawful cat) (hlist : D.MakesLists) :
    D.Runs f w runSplit := by
  intro w' args hw' _ _
  have hchars {w'' : World} (hw'' : D.holds f w'') (texts : List (List Char)) :
      ∀ v ∈ texts.map ofChars, D.knows f w'' v := by
    intro v hv
    obtain ⟨text, -, rfl⟩ := List.mem_map.1 hv
    exact hD.plain hw'' rfl
  rw [runSplit]
  refine (keeps_indexArg (fun _ => trivial) hw'.holds _).bind fun _ _ hw₁ _ => ?_
  split
  · exact keeps_allocList hlist hw₁.holds (hchars hw₁.holds _)
  · split
    · exact keeps_throw hw₁.holds trivial
    · exact keeps_allocList hlist hw₁.holds (hchars hw₁.holds _)
  · exact keeps_get_bind (keeps_throw hw₁.holds trivial)

theorem Lawful.obeys_strBody (hD : D.Lawful cat) (hlist : D.MakesLists) (h : D.holds f w)
    (lib : Library) : ∀ e ∈ (strBody lib).members, D.Obeys cat f w e.2 := by
  have hreplace := hD.obeys_plainMethod (m := ⟨{}, _, runReplace⟩) h hD.runs_replace
    (show PlainDefaults [needs "old", needs "new", allows "count" (.int (-1))] from rfl)
  have hsplit := hD.obeys_plainMethod (m := ⟨{}, _, runSplit⟩) h (hD.runs_split hlist)
    (show PlainDefaults [allows "sep" .null, allows "maxsplit" (.int (-1))] from rfl)
  have hupper := hD.obeys_plainMethod (m := ⟨{}, [], fun v _ =>
    pure (ofChars (Text.upper (textOf v)))⟩) h (hD.runs_pure fun _ => rfl) rfl
  simp only [strBody, List.forall_mem_cons, List.not_mem_nil, false_imp_iff, implies_true,
    and_true]
  and_intros
  all_goals first
    | exact hreplace
    | exact hsplit
    | exact hupper
    | exact hD.obeys_library hlist h lib rfl

theorem Lawful.obeys_bytesBody (hD : D.Lawful cat) (hlist : D.MakesLists) (h : D.holds f w)
    (lib : Library) : ∀ e ∈ (bytesBody lib).members, D.Obeys cat f w e.2 := by
  simp only [bytesBody, List.forall_mem_cons, List.not_mem_nil, false_imp_iff, implies_true,
    and_true]
  and_intros
  all_goals exact hD.obeys_library hlist h lib rfl

end Discipline

end ObjectConsole
