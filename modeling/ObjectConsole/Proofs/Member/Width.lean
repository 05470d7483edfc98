import Mathlib.Data.List.Forall2
import ObjectConsole.Proofs.Coercion.Width
import ObjectConsole.Proofs.Member.Resolution
import ObjectConsole.Proofs.Render.Tree

/-!
The width of a literal and the method that a call means. Arguments are fitted one
by one, and every slot treats the forms of an integer alike; so a method takes two
calls that differ in such forms only, or neither, and the first method that takes
the one also takes the other. Not even the message of a call that nothing takes
tells the forms apart.
-/

namespace ObjectConsole

namespace Outlines

variable {o : Outlines} {w : World} {v v' : Value} {args args' : List Value} {n : Int}

/-! ### The display of integers -/

theorem displayWithin_sameNumber (h : v.SameNumber v') (levels : Nat) (outer : List Ref) :
    o.displayWithin w levels outer v = o.displayWithin w levels outer v' := by
  obtain rfl | ⟨n, hn, hn'⟩ := h
  · rfl
  · exact displayWithin_forms hn hn' levels outer

theorem mapM_sameNumber {f : Value → Except Raised String}
    (hf : ∀ v v', Value.SameNumber v v' → f v = f v')
    (h : List.Forall₂ Value.SameNumber args args') : args.mapM f = args'.mapM f := by
  induction h with
  | nil => rfl
  | cons hv _ ih => rw [List.mapM_cons, List.mapM_cons, hf _ _ hv, ih]

theorem display_tuple_sameNumber (h : List.Forall₂ Value.SameNumber args args') :
    o.display w (.tuple args) = o.display w (.tuple args') := by
  rw [display, display, displayWithin, displayWithin,
    mapM_sameNumber (fun _ _ hv => displayWithin_sameNumber hv _ _) h]

end Outlines

namespace Catalog

/-- What is fitted from two forms of the arguments: the same numbers again, and the
same values wherever a parameter has a concrete type. -/
structure SameFitted (cat : Catalog) (params : List ParamInfo) (us us' : List Value) : Prop where
  numbers : List.Forall₂ Value.SameNumber us us'
  concrete : ∀ (i : Nat) p u u', params[i]? = some p → us[i]? = some u → us'[i]? = some u' →
    cat.Concrete p.type → u = u'

structure SameCall (cat : Catalog) (found found' : MethodInfo × List Value) : Prop where
  method : found.1 = found'.1
  fitted : cat.SameFitted found.1.params found.2 found'.2

variable {cat : Catalog} {w : World} {v : Value} {label : String} {m : MethodInfo}
  {p : ParamInfo} {a a' : Value} {params : List ParamInfo} {args args' : List Value}

theorem refusedArguments_sameNumber (h : List.Forall₂ Value.SameNumber args args') :
    cat.refusedArguments w args = cat.refusedArguments w args' := by
  cases h with
  | nil => rfl
  | cons hv hvs =>
      cases hvs with
      | nil =>
          obtain rfl | ⟨n, hn, hn'⟩ := hv
          · rfl
          · rw [refusedArguments, refusedArguments, summary_of_asInt? _ hn,
              summary_of_asInt? _ hn']
      | cons hu hus => exact Outlines.display_tuple_sameNumber (.cons hv (.cons hu hus))

theorem sameOutcome_fitArgument (hcat : cat.WidthsAreIntegers) (hp : p.type.NamesNoWidth)
    (h : a.SameNumber a') :
    SameOutcome (cat.SameStored p.type) (cat.fitArgument w a p) (cat.fitArgument w a' p) := by
  have hcoerce := Outlines.sameOutcome_coerce (w := w) hcat hp h
  obtain rfl | ⟨n, hn, hn'⟩ := h
  · exact .refl (Outlines.SameStored.refl _ _) _
  · rw [fitArgument, fitArgument, Outlines.isNull_of_asInt? hn, Outlines.isNull_of_asInt? hn']
    exact hcoerce

theorem SameFitted.cons {u u' : Value} {us us' : List Value}
    (hu : cat.SameStored p.type u u') (hus : cat.SameFitted params us us') :
    cat.SameFitted (p :: params) (u :: us) (u' :: us') := by
  refine ⟨.cons hu.1 hus.numbers, fun i q x x' hq hx hx' hconcrete => ?_⟩
  cases i with
  | zero =>
      obtain rfl : p = q := Option.some.inj hq
      obtain rfl : u = x := Option.some.inj hx
      obtain rfl : u' = x' := Option.some.inj hx'
      exact hu.2 hconcrete
  | succ i => exact hus.concrete i q x x' hq hx hx' hconcrete

theorem sameOutcome_fitArguments (hcat : cat.WidthsAreIntegers)
    (hparams : ∀ p ∈ params, p.type.NamesNoWidth) (h : List.Forall₂ Value.SameNumber args args') :
    SameOutcome (cat.SameFitted params) (cat.fitArguments w args params)
      (cat.fitArguments w args' params) := by
  have hnil (params : List ParamInfo) : cat.SameFitted params [] [] := ⟨.nil, by simp⟩
  induction h generalizing params with
  | nil =>
      simp only [fitArguments]
      exact .ok (hnil params)
  | cons ha _ ih =>
      cases params with
      | nil =>
          simp only [fitArguments]
          exact .ok (hnil [])
      | cons p params =>
          obtain ⟨hp, hparams⟩ := List.forall_mem_cons.1 hparams
          rw [fitArguments, fitArguments]
          refine (sameOutcome_fitArgument hcat hp ha).bind fun u u' hu => ?_
          exact (ih hparams).bind fun us us' hus => .ok (.cons hu hus)

/-- A method answers two forms of a call alike. -/
theorem rel_answer? (hcat : cat.WidthsAreIntegers) (hparams : ∀ p ∈ m.params, p.type.NamesNoWidth)
    (h : List.Forall₂ Value.SameNumber args args') :
    Option.Rel (SameOutcome cat.SameCall) (cat.answer? w args m) (cat.answer? w args' m) := by
  have hfit := sameOutcome_fitArguments (w := w) hcat hparams h
  rw [answer?, answer?, h.length_eq]
  split
  · generalize cat.fitArguments w args m.params = r at hfit ⊢
    generalize cat.fitArguments w args' m.params = r' at hfit ⊢
    cases hfit with
    | ok hfit => exact .some (.ok ⟨rfl, hfit⟩)
    | error e =>
        cases e with
        | unfit _ _ => exact .none
        | raised _ => exact .some (.error _)
  · exact .none

theorem sameOutcome_ofAnswer {r r' : Except Raised (MethodInfo × List Value)}
    (h : SameOutcome cat.SameCall r r') : SameOutcome cat.SameCall (ofAnswer r) (ofAnswer r') := by
  cases h with
  | ok h => exact .ok h
  | error e => exact .error _

/-- Calls whose arguments differ in the forms of integers only mean the same method,
with the same numbers for its parameters and the same values where these have
concrete types, or they end with the same error. -/
theorem resolve_sameNumbers (hcat : cat.WidthsAreIntegers)
    (hparams : ∀ m ∈ cat.overloads w v label, ∀ p ∈ m.params, p.type.NamesNoWidth)
    (h : List.Forall₂ Value.SameNumber args args') :
    SameOutcome cat.SameCall (cat.resolve w v label args) (cat.resolve w v label args') := by
  have hsearch := rel_findSome? fun m hm => rel_answer? (w := w) hcat (hparams m hm) h
  rw [resolve_eq, resolve_eq, refusedArguments_sameNumber h]
  split
  · exact .error _
  · generalize (cat.overloads w v label).findSome? (cat.answer? w args) = x at hsearch ⊢
    generalize (cat.overloads w v label).findSome? (cat.answer? w args') = x' at hsearch ⊢
    cases hsearch with
    | none => exact .error _
    | some hr => exact sameOutcome_ofAnswer hr

end Catalog

namespace Sample

theorem widthsAreIntegers_catalog : catalog.WidthsAreIntegers := by
  intro width c hc
  have hsized : c ≠ Builtin.sizedName := fun h => hc (.inl h)
  have hwidth : c ≠ .ofWidth width := fun h => hc (.inr ⟨width, h⟩)
  have hancestors : (catalog.find (.ofWidth width)).ancestors =
      [.ofWidth width, Builtin.sizedName, .core "int"] := by cases width <;> rfl
  have hint : (catalog.find (.core "int")).ancestors = [.core "int"] := rfl
  rw [Outline.descendsFrom, Outline.descendsFrom, hancestors, hint]
  simp [hsized, hwidth]

/-- A number of times may be of any width. -/
theorem say_times_of_width :
    catalog.WidthsAreIntegers ∧
      List.Forall₂ Value.SameNumber [.int 2] [.sized .w8 2 none] ∧
      SameOutcome catalog.SameCall
        (catalog.resolve demonstration.2 demonstration.1 "Say" [.int 2])
        (catalog.resolve demonstration.2 demonstration.1 "Say" [.sized .w8 2 none]) := by
  have hargs : List.Forall₂ Value.SameNumber [.int 2] [.sized .w8 2 none] :=
    .cons (.inr ⟨2, rfl, rfl⟩) .nil
  have htypes : (catalog.overloads demonstration.2 demonstration.1 "Say").map
      (fun m => m.params.map (·.type)) = [[.text], [.int]] := rfl
  have hslots : ∀ m ∈ catalog.overloads demonstration.2 demonstration.1 "Say",
      ∀ p ∈ m.params, p.type.NamesNoWidth := by
    intro m hm p hp
    have hmem : p.type ∈ m.params.map (·.type) := List.mem_map_of_mem hp
    have hlist := List.mem_map_of_mem (f := fun m => m.params.map (·.type)) hm
    rw [htypes] at hlist
    simp only [List.mem_cons, List.not_mem_nil, or_false] at hlist
    rcases hlist with hlist | hlist
    · rw [hlist, List.mem_singleton] at hmem
      rw [hmem]
      decide
    · rw [hlist, List.mem_singleton] at hmem
      rw [hmem]
      decide
  exact ⟨widthsAreIntegers_catalog, hargs,
    Catalog.resolve_sameNumbers widthsAreIntegers_catalog hslots hargs⟩

end Sample

end ObjectConsole
