import ObjectConsole.Member.Overload
import ObjectConsole.Proofs.Coercion.Sound
import ObjectConsole.Proofs.World.Graph

/-!
What slots and tables store. A slot stores the value that it is given, or a
scalar that is made from it: a number of another kind, or the member of an
enumeration that a string names. Setting a key of a table adds nothing but the
key and the value to what the table holds.
-/

namespace ObjectConsole

namespace Outlines

variable {o : Outlines} {w : World} {v u : Value}

def IsScalar (o : Outlines) (v : Value) : Prop :=
  v.isPlain = true ∨ ∃ c s, v = .choice c s ∧ ((o.find c).choices.lookup s).isSome

/-- What can come of fitting `v` to a type: the value itself, or a scalar. -/
def FittedFrom (o : Outlines) (v u : Value) : Prop := u = v ∨ o.IsScalar u

theorem Converts.isScalar {type : SlotType} (h : o.Converts v type u) : o.IsScalar u := by
  cases h with
  | sized _ _ => exact .inl rfl
  | int _ => exact .inl rfl
  | float _ _ => exact .inl rfl
  | fraction _ => exact .inl rfl
  | choice _ _ hs => exact .inr ⟨_, _, rfl, hs⟩

theorem fittedFrom_coerce (type : SlotType) (h : o.coerce w v type = .ok u) :
    o.FittedFrom v u := by
  refine (eq_or_made h).imp_right ?_
  rintro ⟨_, _, _, _, hconverts, _⟩
  exact hconverts.isScalar

/-! Fitting looks at nothing of the world but the class of the value, and at its
display where it refuses. -/

/-- The outcomes of one slot in two worlds: the same, but that a refusal shows the
value as it is displayed there. -/
inductive SameVerdict (o : Outlines) (w w' : World) (v : Value) :
    Except Refusal Value → Except Refusal Value → Prop
  | takes (u : Value) : SameVerdict o w w' v (.ok u) (.ok u)
  | raises (e : Raised) : SameVerdict o w w' v (.error (.raised e)) (.error (.raised e))
  | refuse (label : String) : SameVerdict o w w' v (o.refuse w v label) (o.refuse w' v label)

section

variable {w' : World}

theorem sameVerdict_coerceInstance (hclass : w'.classOf v = w.classOf v) (c : ClassName) :
    o.SameVerdict w w' v (o.coerceInstance w v c) (o.coerceInstance w' v c) := by
  rw [coerceInstance, coerceInstance, isInstance, isInstance, outlineOf, outlineOf, hclass]
  split <;> constructor

/-- A value of one class has the same fate in two worlds, in every slot that is no
union. -/
theorem sameVerdict_of_not_union (hclass : w'.classOf v = w.classOf v) {type : SlotType}
    (htype : type.isUnion = false) :
    o.SameVerdict w w' v (o.coerce w v type) (o.coerce w' v type) := by
  have hinstance := sameVerdict_coerceInstance (o := o) hclass
  cases type with
  | union style arms => exact absurd htype (by simp [SlotType.isUnion])
  | undeclared | any | anyObject | nothing =>
      rw [coerce, coerce]
      exact .takes _
  | nullType | literal _ | placeholder _ | forward _ =>
      rw [coerce, coerce]
      split <;> constructor
  | bool =>
      rw [coerce, coerce]
      unfold coerceBool
      split <;> constructor
  | int =>
      rw [coerce, coerce, coerceInt, coerceInt]
      split <;> constructor
  | float =>
      rw [coerce, coerce]
      unfold coerceFloat
      split
      · constructor
      · split <;> constructor
      · split <;> constructor
      · constructor
  | sized width =>
      rw [coerce, coerce, coerceSized, coerceSized]
      split
      · split <;> constructor
      · exact .refuse _
  | cls c =>
      rw [coerce, coerce]
      split
      · exact .refuse _
      · unfold coerceClass
        split
        · split <;> constructor
        · exact hinstance c
  | generic style origin arguments =>
      rw [coerce, coerce]
      split
      · exact .refuse _
      · exact hinstance origin

theorem refuse_of_sameVerdict {r r' : Except Refusal Value} (h : o.SameVerdict w w' v r r')
    {shown label : String} (hr : r = .error (.unfit shown label)) :
    r' = o.refuse w' v label := by
  cases h with
  | takes u => exact absurd hr (by simp)
  | raises e => exact absurd hr (by simp)
  | refuse label' =>
      obtain ⟨rfl, -⟩ := refuse_eq_unfit_iff.1 hr
      rfl

end

mutual

/-- What a slot refuses in one world it refuses in every other in which the value
has the same class, if there the value can be displayed. -/
theorem coerce_of_unfit {w w' : World} {v : Value} (hclass : w'.classOf v = w.classOf v)
    {shown label : String} :
    ∀ type : SlotType, o.coerce w v type = .error (.unfit shown label) →
      o.coerce w' v type = o.refuse w' v label
  | .union _ arms, h => by
      rw [coerce] at h ⊢
      by_cases hnull : v.isNull = true
      · rw [if_pos hnull] at h ⊢
        split at h
        · exact absurd h (by simp)
        · next hnot =>
            obtain ⟨rfl, -⟩ := refuse_eq_unfit_iff.1 h
            rw [if_neg hnot]
      · rw [if_neg hnull] at h ⊢
        obtain ⟨rfl, -, hall⟩ := coerceArms_eq_unfit_iff.1 h
        exact coerceArms_of_passesOver hclass _ arms hall
  | .undeclared, h | .any, h | .anyObject, h | .nothing, h | .nullType, h | .literal _, h
  | .placeholder _, h | .forward _, h | .bool, h | .int, h | .float, h | .sized _, h | .cls _, h
  | .generic .., h => refuse_of_sameVerdict (sameVerdict_of_not_union hclass rfl) h

theorem coerceArms_of_passesOver {w w' : World} {v : Value}
    (hclass : w'.classOf v = w.classOf v) (label : String) :
    ∀ arms : List SlotType, (∀ arm ∈ arms, o.PassesOver w v arm) →
      o.coerceArms w' v label arms = o.refuse w' v label
  | [], _ => by rw [coerceArms]
  | arm :: arms, hall => by
      obtain ⟨harm, harms⟩ := List.forall_mem_cons.1 hall
      have hrest := coerceArms_of_passesOver hclass label arms harms
      rw [coerceArms]
      split
      · exact hrest
      · next hnull =>
          obtain ⟨shown', label', hunfit⟩ := harm.resolve_left hnull
          rw [coerce_of_unfit hclass arm hunfit]
          cases hd : o.display w' v with
          | ok text => rw [refuse_of_display hd, hrest, refuse_of_display hd]
          | error e => rw [refuse_of_display_error hd, refuse_of_display_error hd]

end

theorem mem_of_lookup {key : Value} {entries : List (Value × Value)}
    (h : o.lookup w key entries = some u) : ∃ k, (k, u) ∈ entries := by
  obtain ⟨e, he, rfl⟩ := Option.map_eq_some_iff.1 h
  exact ⟨e.1, List.mem_of_find?_eq_some he⟩

/-- The entries of a table after a key was set are entries from before, or hold
the new value. -/
theorem mem_insert {key : Value} {entries : List (Value × Value)} {e : Value × Value}
    (h : e ∈ o.insert w key v entries) :
    (e.1 = key ∨ ∃ x, (e.1, x) ∈ entries) ∧ (e.2 = v ∨ ∃ k, (k, e.2) ∈ entries) := by
  induction entries with
  | nil =>
      rw [insert, List.mem_singleton] at h
      simp [h]
  | cons a rest ih =>
      obtain ⟨k, x⟩ := a
      rw [insert] at h
      split at h
      · rcases List.mem_cons.1 h with rfl | h
        · exact ⟨.inr ⟨x, List.mem_cons_self ..⟩, .inl rfl⟩
        · exact ⟨.inr ⟨e.2, List.mem_cons_of_mem _ h⟩, .inr ⟨e.1, List.mem_cons_of_mem _ h⟩⟩
      · rcases List.mem_cons.1 h with rfl | h
        · exact ⟨.inr ⟨x, List.mem_cons_self ..⟩, .inr ⟨k, List.mem_cons_self ..⟩⟩
        · obtain ⟨hkey, hvalue⟩ := ih h
          exact ⟨hkey.imp_right fun ⟨y, hy⟩ => ⟨y, List.mem_cons_of_mem _ hy⟩,
            hvalue.imp_right fun ⟨j, hj⟩ => ⟨j, List.mem_cons_of_mem _ hj⟩⟩

theorem mem_foldl_insert {keys : List Value} {entries : List (Value × Value)}
    {e : Value × Value}
    (h : e ∈ keys.foldl (fun es key => o.insert w key v es) entries) :
    (e.1 ∈ keys ∨ ∃ x, (e.1, x) ∈ entries) ∧ (e.2 = v ∨ ∃ k, (k, e.2) ∈ entries) := by
  induction keys generalizing entries with
  | nil => exact ⟨.inr ⟨e.2, h⟩, .inr ⟨e.1, h⟩⟩
  | cons key keys ih =>
      obtain ⟨hkey, hvalue⟩ := ih h
      refine ⟨?_, ?_⟩
      · rcases hkey with hkey | ⟨x, hx⟩
        · exact .inl (List.mem_cons_of_mem _ hkey)
        · rcases (mem_insert hx).1 with rfl | hold
          · exact .inl (List.mem_cons_self ..)
          · exact .inr hold
      · rcases hvalue with hvalue | ⟨k, hk⟩
        · exact .inl hvalue
        · exact (mem_insert hk).2

end Outlines

namespace Catalog

variable {cat : Catalog} {w : World}

theorem fittedFrom_fitArgument {v u : Value} {p : ParamInfo}
    (h : cat.fitArgument w v p = .ok u) : cat.FittedFrom v u := by
  rw [fitArgument] at h
  split at h
  · split at h
    · exact .inl (Except.ok.inj h).symm
    · exact absurd h Outlines.refuse_ne_ok
  · exact Outlines.fittedFrom_coerce p.type h

theorem fitArguments_eq_nil {given fitted : List Value} {params : List ParamInfo}
    (h : cat.fitArguments w given params = .ok fitted) (hnil : given = [] ∨ params = []) :
    fitted = [] := by
  rw [fitArguments.eq_2 _ _ _ _ (by rcases hnil with rfl | rfl <;> simp)] at h
  exact (Except.ok.inj h).symm

theorem fitArguments_cons {v : Value} {p : ParamInfo} {given fitted : List Value}
    {params : List ParamInfo}
    (h : cat.fitArguments w (v :: given) (p :: params) = .ok fitted) :
    ∃ u us, fitted = u :: us ∧ cat.fitArgument w v p = .ok u ∧
      cat.fitArguments w given params = .ok us := by
  rw [fitArguments] at h
  cases hv : cat.fitArgument w v p with
  | error e => rw [hv] at h; exact absurd h (by simp [bind, Except.bind])
  | ok u =>
      cases hvs : cat.fitArguments w given params with
      | error e => rw [hv, hvs] at h; exact absurd h (by simp [bind, Except.bind])
      | ok us =>
          rw [hv, hvs] at h
          exact ⟨u, us, (Except.ok.inj h).symm, rfl, rfl⟩

/-- Fitted arguments are arguments or scalars. -/
theorem mem_of_fitArguments {given fitted : List Value} {params : List ParamInfo}
    (h : cat.fitArguments w given params = .ok fitted) {u : Value} (hu : u ∈ fitted) :
    u ∈ given ∨ cat.IsScalar u := by
  induction given generalizing params fitted with
  | nil => exact absurd hu (by simp [fitArguments_eq_nil h (.inl rfl)])
  | cons v vs ih =>
      cases params with
      | nil => exact absurd hu (by simp [fitArguments_eq_nil h (.inr rfl)])
      | cons p ps =>
          obtain ⟨u', us, rfl, hv, hvs⟩ := fitArguments_cons h
          rcases List.mem_cons.1 hu with rfl | hu
          · exact (fittedFrom_fitArgument hv).imp_left fun hu => by simp [hu]
          · exact (ih hvs hu).imp_left (List.mem_cons_of_mem _)

end Catalog

end ObjectConsole
