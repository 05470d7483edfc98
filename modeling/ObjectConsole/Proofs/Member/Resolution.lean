import ObjectConsole.Proofs.Coercion.Arms
import ObjectConsole.Proofs.Member.Fit
import ObjectConsole.Sample.Catalog

/-!
Which method a call means. The methods shown under one name are asked in the
order of their definition, and a method answers for itself: it takes the call,
it leaves it to the methods behind it, or an error is raised over an argument and
nothing behind it is asked. So the first method that does not leave the call
decides, and neither the methods behind it nor those of other names have a say.
-/

namespace ObjectConsole

namespace Catalog

/-- The methods that are shown under a name. -/
def overloads (cat : Catalog) (w : World) (v : Value) (label : String) : List MethodInfo :=
  (cat.methods w v).filter fun m => m.label == label

/-- The parameter takes the argument `a` and is given `u` for it: `null` where it
is nullable, and of any other value what its type stores for it. -/
def Takes (cat : Catalog) (w : World) (p : ParamInfo) (a u : Value) : Prop :=
  if a.isNull then p.nullable = true ∧ u = a else cat.coerce w a p.type = .ok u

structure Fits (cat : Catalog) (w : World) (m : MethodInfo) (args fitted : List Value) :
    Prop where
  required : m.required ≤ args.length
  arity : args.length ≤ m.arity
  length : fitted.length = args.length
  takes : ∀ (i : Nat) p a u, m.params[i]? = some p → args[i]? = some a → fitted[i]? = some u →
    cat.Takes w p a u

/-- The method leaves the call to those behind it: it takes another number of
arguments, or one of them does not fit. -/
def Leaves (cat : Catalog) (w : World) (m : MethodInfo) (args : List Value) : Prop :=
  m.accepts args.length = true →
    ∃ shown label, cat.fitArguments w args m.params = .error (.unfit shown label)

/-- An error is raised over an argument, and nothing behind the method is asked. -/
def StopsAt (cat : Catalog) (w : World) (m : MethodInfo) (args : List Value) (e : Raised) :
    Prop :=
  m.accepts args.length = true ∧ cat.fitArguments w args m.params = .error (.raised e)

/-- What a method makes of a call that it does not leave to those behind it. -/
def answer? (cat : Catalog) (w : World) (args : List Value) (m : MethodInfo) :
    Option (Except Raised (MethodInfo × List Value)) :=
  if m.accepts args.length then
    match cat.fitArguments w args m.params with
    | .ok fitted => some (.ok (m, fitted))
    | .error (.raised e) => some (.error e)
    | .error (.unfit _ _) => none
  else none

def ofAnswer : Except Raised (MethodInfo × List Value) → Except Stop (MethodInfo × List Value)
  | .ok found => .ok found
  | .error e => .error (.escaped e)

variable {cat : Catalog} {w : World} {v : Value} {label : String} {m : MethodInfo}
  {p : ParamInfo} {a u : Value} {params : List ParamInfo} {args fitted : List Value}

/-! ### One method -/

theorem fitArgument_eq_ok_iff : cat.fitArgument w a p = .ok u ↔ cat.Takes w p a u := by
  rw [fitArgument, Takes]
  cases a.isNull with
  | false => simp
  | true =>
      cases p.nullable with
      | false => simp
      | true => simp [eq_comm]

theorem fitArguments_cons_eq_ok_iff :
    cat.fitArguments w (a :: args) (p :: params) = .ok fitted ↔
      ∃ u us, fitted = u :: us ∧ cat.Takes w p a u ∧
        cat.fitArguments w args params = .ok us := by
  constructor
  · intro h
    obtain ⟨u, us, rfl, hu, hus⟩ := fitArguments_cons h
    exact ⟨u, us, rfl, fitArgument_eq_ok_iff.1 hu, hus⟩
  · rintro ⟨u, us, rfl, hu, hus⟩
    rw [fitArguments, fitArgument_eq_ok_iff.2 hu, hus]
    rfl

/-- Arguments are fitted one by one, each to the parameter in its place. -/
theorem fitArguments_eq_ok_iff (hcount : args.length ≤ params.length) :
    cat.fitArguments w args params = .ok fitted ↔
      fitted.length = args.length ∧
        ∀ (i : Nat) p a u, params[i]? = some p → args[i]? = some a → fitted[i]? = some u →
          cat.Takes w p a u := by
  induction args generalizing params fitted with
  | nil => simp [fitArguments, eq_comm]
  | cons a args ih =>
      obtain ⟨p, params, rfl⟩ := List.exists_cons_of_length_pos (by grind : 0 < params.length)
      rw [fitArguments_cons_eq_ok_iff]
      have hcount' : args.length ≤ params.length := by simpa using hcount
      constructor
      · rintro ⟨u, us, rfl, hu, hus⟩
        obtain ⟨hlength, hall⟩ := (ih hcount').1 hus
        refine ⟨by simp [hlength], fun i => ?_⟩
        cases i with
        | zero => simpa using hu
        | succ i => simpa using hall i
      · rintro ⟨hlength, hall⟩
        obtain ⟨u, us, rfl⟩ := List.exists_cons_of_length_pos (by grind : 0 < fitted.length)
        refine ⟨u, us, rfl, hall 0 p a u rfl rfl rfl, (ih hcount').2 ⟨by simpa using hlength, ?_⟩⟩
        exact fun i => by simpa using hall (i + 1)

/-- If arguments cannot be fitted, one of them does not fit the parameter in its
place. -/
theorem exists_of_fitArguments_eq_error {e : Refusal}
    (h : cat.fitArguments w args params = .error e) :
    ∃ (i : Nat) (p : ParamInfo) (a : Value), params[i]? = some p ∧ args[i]? = some a ∧
      cat.fitArgument w a p = .error e := by
  induction args generalizing params with
  | nil => exact absurd h (by simp [fitArguments])
  | cons a args ih =>
      cases params with
      | nil => exact absurd h (by simp [fitArguments])
      | cons p params =>
          rw [fitArguments] at h
          cases hu : cat.fitArgument w a p with
          | error e' =>
              rw [hu] at h
              exact ⟨0, p, a, rfl, rfl, by rw [hu, Except.error.inj h]⟩
          | ok u =>
              cases hus : cat.fitArguments w args params with
              | ok us =>
                  rw [hu, hus] at h
                  exact absurd h (by simp [bind, Except.bind, pure, Except.pure])
              | error e' =>
                  rw [hu, hus] at h
                  obtain rfl : e' = e := Except.error.inj h
                  obtain ⟨i, q, b, hq, hb, hfit⟩ := ih hus
                  exact ⟨i + 1, q, b, hq, hb, hfit⟩

theorem fits_iff :
    cat.Fits w m args fitted ↔
      m.accepts args.length = true ∧ cat.fitArguments w args m.params = .ok fitted := by
  have haccepts : m.accepts args.length = true ↔
      m.required ≤ args.length ∧ args.length ≤ m.arity := by
    simp [MethodInfo.accepts]
  rw [haccepts]
  constructor
  · rintro ⟨hrequired, harity, hlength, htakes⟩
    exact ⟨⟨hrequired, harity⟩, (fitArguments_eq_ok_iff harity).2 ⟨hlength, htakes⟩⟩
  · rintro ⟨⟨hrequired, harity⟩, hfit⟩
    obtain ⟨hlength, htakes⟩ := (fitArguments_eq_ok_iff harity).1 hfit
    exact ⟨hrequired, harity, hlength, htakes⟩

theorem answer?_eq_none_iff : cat.answer? w args m = none ↔ cat.Leaves w m args := by
  rw [answer?, Leaves]
  cases m.accepts args.length with
  | false => simp
  | true =>
      cases cat.fitArguments w args m.params with
      | ok fitted => simp
      | error e => cases e <;> simp

theorem answer?_eq_ok_iff {m' : MethodInfo} :
    cat.answer? w args m' = some (.ok (m, fitted)) ↔ m' = m ∧ cat.Fits w m args fitted := by
  rw [answer?, fits_iff]
  constructor
  · intro h
    split at h
    · next haccepts =>
        split at h
        · next hfit =>
            obtain ⟨rfl, rfl⟩ : _ ∧ _ := by simpa using h
            exact ⟨rfl, haccepts, hfit⟩
        · exact absurd h (by simp)
        · exact absurd h (by simp)
    · exact absurd h (by simp)
  · rintro ⟨rfl, haccepts, hfit⟩
    rw [if_pos haccepts, hfit]

theorem answer?_eq_error_iff {e : Raised} :
    cat.answer? w args m = some (.error e) ↔ cat.StopsAt w m args e := by
  rw [answer?, StopsAt]
  cases m.accepts args.length with
  | false => simp
  | true =>
      cases cat.fitArguments w args m.params with
      | ok fitted => simp
      | error r => cases r <;> simp

theorem Leaves.not_stopsAt (h : cat.Leaves w m args) (e : Raised) :
    ¬ cat.StopsAt w m args e := by
  intro hstops
  have hnone := answer?_eq_none_iff.2 h
  rw [answer?_eq_error_iff.2 hstops] at hnone
  exact absurd hnone (by simp)

theorem Fits.not_stopsAt (h : cat.Fits w m args fitted) (e : Raised) :
    ¬ cat.StopsAt w m args e := by
  intro hstops
  have hok := answer?_eq_ok_iff.2 ⟨rfl, h⟩
  rw [answer?_eq_error_iff.2 hstops] at hok
  exact absurd hok (by simp)

/-- A method leaves the calls that it does not fit and that no error is raised
over. -/
theorem leaves_iff :
    cat.Leaves w m args ↔ (∀ us, ¬ cat.Fits w m args us) ∧ ∀ e, ¬ cat.StopsAt w m args e := by
  rw [← answer?_eq_none_iff]
  constructor
  · intro hnone
    refine ⟨fun us hfits => ?_, fun e => (answer?_eq_none_iff.1 hnone).not_stopsAt e⟩
    rw [answer?_eq_ok_iff.2 ⟨rfl, hfits⟩] at hnone
    exact absurd hnone (by simp)
  · rintro ⟨hnot, hstops⟩
    cases hanswer : cat.answer? w args m with
    | none => rfl
    | some r =>
        cases r with
        | error e => exact absurd (answer?_eq_error_iff.1 hanswer) (hstops e)
        | ok found =>
            obtain ⟨m', us⟩ := found
            obtain ⟨rfl, hfits⟩ := answer?_eq_ok_iff.1 hanswer
            exact absurd hfits (hnot us)

/-- An error over a call is raised over one of its arguments: it has no display, or
is too large a number. -/
theorem StopsAt.exists_raises {e : Raised} (h : cat.StopsAt w m args e) :
    ∃ a ∈ args, cat.display w a = .error e ∨ ∃ p ∈ m.params, cat.Raises w a p.type tooLargeError ∧
      e = tooLargeError := by
  obtain ⟨i, p, a, hp, ha, hfit⟩ := exists_of_fitArguments_eq_error h.2
  refine ⟨a, List.mem_of_getElem? ha, ?_⟩
  rw [fitArgument] at hfit
  split at hfit
  · split at hfit
    · exact absurd hfit (by simp)
    · exact .inl (Outlines.refuse_eq_raised_iff.1 hfit)
  · rcases Outlines.raises_cases _ hfit with hdisplay | rfl
    · exact .inl hdisplay
    · exact .inr ⟨p, List.mem_of_getElem? hp, hfit, rfl⟩

theorem StopsAt.isValueError {e : Raised} (h : cat.StopsAt w m args e) : IsValueError e := by
  obtain ⟨a, -, hdisplay | ⟨-, -, -, hlarge⟩⟩ := h.exists_raises
  · exact .inl (Outlines.isDisplayError_of_display hdisplay)
  · exact .inr hlarge

/-! ### All methods of a name -/

/-- The first method that answers a call answers it for all. -/
theorem firstFitting_eq_findSome? (ms : List MethodInfo) :
    cat.firstFitting w args ms =
      (ms.findSome? (cat.answer? w args)).elim (.ok none) (Except.map some) := by
  induction ms with
  | nil => rfl
  | cons m ms ih =>
      rw [firstFitting, List.findSome?_cons, answer?]
      split
      · cases cat.fitArguments w args m.params with
        | ok fitted => rfl
        | error e =>
            cases e with
            | raised _ => rfl
            | unfit _ _ => exact ih
      · exact ih

theorem resolve_eq : cat.resolve w v label args =
    if cat.overloads w v label = [] then
      .error (.reported (.memberNotFound (w.className v) .method label))
    else
      ((cat.overloads w v label).findSome? (cat.answer? w args)).elim
        (.error (.reported (.noMatchingOverload (cat.refusedArguments w args))))
        ofAnswer := by
  simp only [resolve, List.isEmpty_iff, firstFitting_eq_findSome?]
  by_cases hnil : cat.overloads w v label = []
  · rw [if_pos hnil]
    exact if_pos hnil
  · rw [if_neg hnil, if_neg (by exact hnil), overloads]
    cases ((cat.methods w v).filter fun m => m.label == label).findSome? (cat.answer? w args) with
    | none => rfl
    | some found => cases found <;> rfl

theorem resolve_eq_ofAnswer_iff {r : Except Raised (MethodInfo × List Value)} :
    cat.resolve w v label args = ofAnswer r ↔
      (cat.overloads w v label).findSome? (cat.answer? w args) = some r := by
  rw [resolve_eq]
  split
  · next hnil => cases r <;> simp [hnil, ofAnswer]
  · cases (cat.overloads w v label).findSome? (cat.answer? w args) with
    | none => cases r <;> simp [ofAnswer]
    | some found => cases found <;> cases r <;> simp [ofAnswer]

/-- A call means the first method of the name that takes it, if every method in
front of that leaves it. -/
theorem resolve_eq_ok_iff :
    cat.resolve w v label args = .ok (m, fitted) ↔
      ∃ before after, cat.overloads w v label = before ++ m :: after ∧
        cat.Fits w m args fitted ∧ ∀ m' ∈ before, cat.Leaves w m' args := by
  have hfound : cat.resolve w v label args = .ok (m, fitted) ↔ _ :=
    resolve_eq_ofAnswer_iff (r := .ok (m, fitted))
  rw [hfound, List.findSome?_eq_some_iff]
  simp only [answer?_eq_ok_iff, answer?_eq_none_iff]
  constructor
  · rintro ⟨before, m', after, hsplit, ⟨rfl, hfits⟩, hbefore⟩
    exact ⟨before, after, hsplit, hfits, hbefore⟩
  · rintro ⟨before, after, hsplit, hfits, hbefore⟩
    exact ⟨before, m, after, hsplit, ⟨rfl, hfits⟩, hbefore⟩

theorem resolve_eq_escaped_iff {e : Raised} :
    cat.resolve w v label args = .error (.escaped e) ↔
      ∃ before m after, cat.overloads w v label = before ++ m :: after ∧
        cat.StopsAt w m args e ∧ ∀ m' ∈ before, cat.Leaves w m' args := by
  have hfound : cat.resolve w v label args = .error (.escaped e) ↔ _ :=
    resolve_eq_ofAnswer_iff (r := .error e)
  rw [hfound, List.findSome?_eq_some_iff]
  simp only [answer?_eq_error_iff, answer?_eq_none_iff]

theorem resolve_eq_notFound_iff {className : String} {kind : MemberKind} {name : String} :
    cat.resolve w v label args = .error (.reported (.memberNotFound className kind name)) ↔
      className = w.className v ∧ kind = .method ∧ name = label ∧
        cat.overloads w v label = [] := by
  rw [resolve_eq]
  split
  · next hnil => simp [hnil, eq_comm]
  · next hsome =>
      cases (cat.overloads w v label).findSome? (cat.answer? w args) with
      | none => simp [hsome]
      | some found => cases found <;> simp [hsome, ofAnswer]

theorem resolve_eq_noMatching_iff {shown : Except Raised String} :
    cat.resolve w v label args = .error (.reported (.noMatchingOverload shown)) ↔
      shown = cat.refusedArguments w args ∧ cat.overloads w v label ≠ [] ∧
        ∀ m ∈ cat.overloads w v label, cat.Leaves w m args := by
  have hall : (∀ m ∈ cat.overloads w v label, cat.Leaves w m args) ↔
      (cat.overloads w v label).findSome? (cat.answer? w args) = none := by
    simp only [List.findSome?_eq_none_iff, answer?_eq_none_iff]
  rw [hall, resolve_eq]
  split
  · next hnil => simp [hnil]
  · next hsome =>
      cases (cat.overloads w v label).findSome? (cat.answer? w args) with
      | none => simp [hsome, eq_comm]
      | some found => cases found <;> simp [ofAnswer]

/-! ### What has no say -/

section

variable {cat' : Catalog} {v' : Value}

/-- Fitting looks at no code of any class. -/
theorem fitArguments_congr (h : cat'.toOutlines = cat.toOutlines) (args : List Value)
    (params : List ParamInfo) :
    cat'.fitArguments w args params = cat.fitArguments w args params := by
  induction args generalizing params with
  | nil => simp [fitArguments]
  | cons a args ih =>
      cases params with
      | nil => simp [fitArguments]
      | cons p params => rw [fitArguments, fitArguments, fitArgument, fitArgument, h, ih]

theorem answer?_congr (h : cat'.toOutlines = cat.toOutlines) :
    cat'.answer? w args = cat.answer? w args := by
  funext m
  rw [answer?, answer?, fitArguments_congr h]

theorem refusedArguments_congr (h : cat'.toOutlines = cat.toOutlines) :
    cat'.refusedArguments w args = cat.refusedArguments w args := by
  unfold refusedArguments
  rw [h]

/-- Only the methods of a name have a say in what the name means. -/
theorem resolve_congr (h : cat'.toOutlines = cat.toOutlines)
    (hclass : w.className v' = w.className v)
    (hmethods : cat'.overloads w v' label = cat.overloads w v label) :
    cat'.resolve w v' label args = cat.resolve w v label args := by
  rw [resolve_eq, resolve_eq, hmethods, hclass, refusedArguments_congr h, answer?_congr h]

/-- The methods behind the one that a call means have no say. -/
theorem resolve_of_same_front (h : cat'.toOutlines = cat.toOutlines)
    {before after after' : List MethodInfo}
    (hsplit : cat.overloads w v label = before ++ m :: after)
    (hsplit' : cat'.overloads w v' label = before ++ m :: after')
    (hm : cat.resolve w v label args = .ok (m, fitted)) :
    cat'.resolve w v' label args = .ok (m, fitted) := by
  obtain ⟨_, _, _, hfits, _⟩ := resolve_eq_ok_iff.1 hm
  have hself : cat.answer? w args m = some (.ok (m, fitted)) :=
    answer?_eq_ok_iff.2 ⟨rfl, hfits⟩
  have hfront (rest : List MethodInfo) :
      (before ++ m :: rest).findSome? (cat.answer? w args) =
        (before.findSome? (cat.answer? w args)).or (some (.ok (m, fitted))) := by
    rw [List.findSome?_append, List.findSome?_cons, hself]
  rw [resolve_eq, hsplit, if_neg (by simp), hfront after] at hm
  rw [resolve_eq, hsplit', if_neg (by simp), answer?_congr h, hfront after',
    refusedArguments_congr h]
  exact hm

end

/-! ### The first that fits -/

/-- A method of a name, with what is said of the methods of the name in front of
it, is found among all methods as it is among those of the name. -/
theorem overloads_split_iff {q : MethodInfo → Prop} :
    (∃ before after, cat.overloads w v label = before ++ m :: after ∧ ∀ m' ∈ before, q m') ↔
      ∃ before after, cat.methods w v = before ++ m :: after ∧ m.label = label ∧
        ∀ m' ∈ before, m'.label = label → q m' := by
  rw [overloads]
  constructor
  · rintro ⟨before, after, hfilter, hbefore⟩
    obtain ⟨l₁, l₂, hmethods, rfl, hrest⟩ := List.filter_eq_append_iff.1 hfilter
    obtain ⟨l₃, l₄, rfl, hnone, hm, -⟩ := List.filter_eq_cons_iff.1 hrest
    refine ⟨l₁ ++ l₃, l₄, by simp [hmethods], by simpa using hm, fun m' hm' hlabel => ?_⟩
    rcases List.mem_append.1 hm' with hm' | hm'
    · exact hbefore m' (List.mem_filter.2 ⟨hm', by simpa using hlabel⟩)
    · exact absurd (by simpa using hlabel) (hnone m' hm')
  · rintro ⟨before, after, hmethods, hm, hbefore⟩
    refine ⟨before.filter (·.label == label), after.filter (·.label == label),
      by simp [hmethods, hm], fun m' hm' => ?_⟩
    obtain ⟨hm', hlabel⟩ := List.mem_filter.1 hm'
    exact hbefore m' hm' (by simpa using hlabel)

theorem mem_overloads_iff :
    m ∈ cat.overloads w v label ↔ m ∈ cat.methods w v ∧ m.label = label := by
  simp [overloads]

/-- A call means the first method shown under its name whose parameters take the
arguments, if no error is raised over an argument at a method in front of that. It
fails in no more than three ways: no method has the name, or none of them fits, or
an error is raised at the first that does not leave the call. The methods of other
names and those behind the one that decides have no say in this. -/
theorem resolve_first_fitting (cat : Catalog) (w : World) (v : Value) (label : String)
    (args : List Value) :
    (∀ m fitted, cat.resolve w v label args = .ok (m, fitted) ↔
      ∃ before after, cat.methods w v = before ++ m :: after ∧ m.label = label ∧
        cat.Fits w m args fitted ∧ ∀ m' ∈ before, m'.label = label →
          (∀ us, ¬ cat.Fits w m' args us) ∧ ∀ e, ¬ cat.StopsAt w m' args e) ∧
    (cat.resolve w v label args =
        .error (.reported (.memberNotFound (w.className v) .method label)) ↔
      ∀ m ∈ cat.methods w v, m.label ≠ label) ∧
    (cat.resolve w v label args =
        .error (.reported (.noMatchingOverload (cat.refusedArguments w args))) ↔
      (∃ m ∈ cat.methods w v, m.label = label) ∧
        ∀ m ∈ cat.methods w v, m.label = label →
          (∀ us, ¬ cat.Fits w m args us) ∧ ∀ e, ¬ cat.StopsAt w m args e) ∧
    (∀ e, cat.resolve w v label args = .error (.escaped e) ↔
      ∃ before m after, cat.methods w v = before ++ m :: after ∧ m.label = label ∧
        cat.StopsAt w m args e ∧ ∀ m' ∈ before, m'.label = label →
          (∀ us, ¬ cat.Fits w m' args us) ∧ ∀ e, ¬ cat.StopsAt w m' args e) ∧
    ∀ (cat' : Catalog) (v' : Value), cat'.toOutlines = cat.toOutlines →
      (w.className v' = w.className v →
        cat'.overloads w v' label = cat.overloads w v label →
        cat'.resolve w v' label args = cat.resolve w v label args) ∧
      ∀ m fitted before after after', cat.resolve w v label args = .ok (m, fitted) →
        cat.overloads w v label = before ++ m :: after →
        cat'.overloads w v' label = before ++ m :: after' →
        cat'.resolve w v' label args = .ok (m, fitted) := by
  simp only [← leaves_iff]
  refine ⟨fun m fitted => ?_, ?_, ?_, fun e => ?_, fun cat' v' h => ⟨resolve_congr h, ?_⟩⟩
  · rw [resolve_eq_ok_iff]
    constructor
    · rintro ⟨before, after, hsplit, hfits, hbefore⟩
      obtain ⟨l₁, l₂, hmethods, hlabel, hfirst⟩ :=
        overloads_split_iff.1 ⟨before, after, hsplit, hbefore⟩
      exact ⟨l₁, l₂, hmethods, hlabel, hfits, hfirst⟩
    · rintro ⟨l₁, l₂, hmethods, hlabel, hfits, hfirst⟩
      obtain ⟨before, after, hsplit, hbefore⟩ :=
        overloads_split_iff.2 ⟨l₁, l₂, hmethods, hlabel, hfirst⟩
      exact ⟨before, after, hsplit, hfits, hbefore⟩
  · rw [resolve_eq_notFound_iff]
    simp [overloads]
  · have hsome : cat.overloads w v label ≠ [] ↔ ∃ m ∈ cat.methods w v, m.label = label := by
      simp [overloads]
    rw [resolve_eq_noMatching_iff, hsome]
    simp [mem_overloads_iff]
  · rw [resolve_eq_escaped_iff]
    constructor
    · rintro ⟨before, m, after, hsplit, hstops, hbefore⟩
      obtain ⟨l₁, l₂, hmethods, hlabel, hfirst⟩ :=
        overloads_split_iff.1 ⟨before, after, hsplit, hbefore⟩
      exact ⟨l₁, m, l₂, hmethods, hlabel, hstops, hfirst⟩
    · rintro ⟨l₁, m, l₂, hmethods, hlabel, hstops, hfirst⟩
      obtain ⟨before, after, hsplit, hbefore⟩ :=
        overloads_split_iff.2 ⟨l₁, l₂, hmethods, hlabel, hfirst⟩
      exact ⟨before, m, after, hsplit, hstops, hbefore⟩
  · exact fun m fitted before after after' hm hsplit hsplit' =>
      resolve_of_same_front h hsplit hsplit' hm

end Catalog

namespace Sample

open Catalog

/-- The two methods that a person says something by, and what they make of a
number of times. -/
theorem exists_overloads_say :
    ∃ say sayTimes others,
      catalog.methods demonstration.2 demonstration.1 = say :: sayTimes :: others ∧
      catalog.overloads demonstration.2 demonstration.1 "Say" = [say, sayTimes] ∧
      sayTimes.label = "Say" ∧ sayTimes.name = "say_times" ∧
      catalog.Leaves demonstration.2 say [.int 2] ∧
      catalog.Fits demonstration.2 sayTimes [.int 2] [.int 2] := by
  obtain ⟨say, sayTimes, others, hmethods, hoverloads, hlabel, hname, hcount, hrefuses, htakes⟩ :
      ∃ say sayTimes others,
        catalog.methods demonstration.2 demonstration.1 = say :: sayTimes :: others ∧
        catalog.overloads demonstration.2 demonstration.1 "Say" = [say, sayTimes] ∧
        sayTimes.label = "Say" ∧ sayTimes.name = "say_times" ∧ sayTimes.accepts 1 = true ∧
        catalog.fitArguments demonstration.2 [.int 2] say.params =
          .error (.unfit "2" "str") ∧
        catalog.fitArguments demonstration.2 [.int 2] sayTimes.params = .ok [.int 2] :=
    ⟨_, _, _, rfl, rfl, rfl, rfl, rfl, rfl, rfl⟩
  exact ⟨say, sayTimes, others, hmethods, hoverloads, hlabel, hname, fun _ => ⟨_, _, hrefuses⟩,
    fits_iff.2 ⟨hcount, htakes⟩⟩

/-- A number of times is no text to say, so the second method of the name is
meant. -/
theorem resolve_say_times :
    ∃ m, catalog.resolve demonstration.2 demonstration.1 "Say" [.int 2] = .ok (m, [.int 2]) ∧
      m.name = "say_times" := by
  obtain ⟨say, sayTimes, others, hmethods, hoverloads, hlabel, hname, hleaves, hfits⟩ :=
    exists_overloads_say
  have hfirst : ∀ m ∈ [say], m.label = "Say" →
      (∀ us, ¬ catalog.Fits demonstration.2 m [.int 2] us) ∧
        ∀ e, ¬ catalog.StopsAt demonstration.2 m [.int 2] e := by
    intro m hm _
    obtain rfl := List.mem_singleton.1 hm
    exact leaves_iff.1 hleaves
  exact ⟨sayTimes, ((resolve_first_fitting catalog demonstration.2 demonstration.1 "Say" [.int 2]).1
    _ _).2 ⟨[say], others, hmethods, hlabel, hfits, hfirst⟩, hname⟩

end Sample

end ObjectConsole
