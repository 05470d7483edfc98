import ObjectConsole.Proofs.Evaluation.Line
import ObjectConsole.Proofs.Line.Subtext

/-!
Two ways to compare evaluations.

The first takes all kinds of missing members for the same. A name at the end
of an expression and the same name in front of a point are looked up in the
same way, but the error of a missing one says that a member is missing in the
first case and a property in the second.

The second leaves out the bound on nesting. With more levels, an evaluation
that was not stopped by the bound takes the same steps and gives the same
result.

Both pass through sequences of steps, and so from the texts in a form to the
form itself.
-/

namespace ObjectConsole

namespace Eval

variable {ε σ α β : Type}

theorem bind_apply (x : EStateM ε σ α) (f : α → EStateM ε σ β) (w : σ) :
    (x >>= f) w =
      match x w with
      | .ok a w => f a w
      | .error s w => .error s w := by
  change EStateM.bind x f w = _
  rw [EStateM.bind]
  cases x w <;> rfl

theorem get_bind_apply (f : σ → EStateM ε σ β) (w : σ) :
    ((get : EStateM ε σ σ) >>= f) w = f w w := rfl

theorem fail_bind (e : ConsoleError) (f : α → Eval β) : (fail e >>= f) = fail e := rfl

end Eval

/-! ### Up to the kind of a missing member -/

/-- An error, with any kind of missing member taken for the same. -/
def ConsoleError.coarse : ConsoleError → ConsoleError
  | .memberNotFound className _ name => .memberNotFound className .member name
  | e => e

def Stop.coarse : Stop → Stop
  | .reported e => .reported e.coarse
  | .escaped e => .escaped e

def Outcome.coarse : Outcome → Outcome
  | .failed e => .failed e.coarse
  | o => o

namespace Eval

variable {α β : Type}

def coarse (x : Eval α) : Eval α := fun w =>
  match x w with
  | .ok a w => .ok a w
  | .error s w => .error s.coarse w

/-- The coarse view of two steps is made of the coarse views of each. -/
theorem coarse_bind (x : Eval α) (f : α → Eval β) :
    (x >>= f).coarse = x.coarse >>= fun a => (f a).coarse := by
  funext w
  simp only [coarse, bind_apply]
  cases x w <;> rfl

theorem coarse_bind_congr {x y : Eval α} {f g : α → Eval β} (hx : x.coarse = y.coarse)
    (hf : ∀ a, (f a).coarse = (g a).coarse) : (x >>= f).coarse = (y >>= g).coarse := by
  rw [coarse_bind, coarse_bind, hx]
  congr 1
  funext a
  exact hf a

theorem coarse_bind_left {x y : Eval α} (f : α → Eval β) (hx : x.coarse = y.coarse) :
    (x >>= f).coarse = (y >>= f).coarse :=
  coarse_bind_congr hx fun _ => rfl

theorem coarse_bind_right (x : Eval α) {f g : α → Eval β}
    (hf : ∀ a, (f a).coarse = (g a).coarse) : (x >>= f).coarse = (x >>= g).coarse :=
  coarse_bind_congr rfl hf

/-- Steps that are alike for each of several values are alike in a row. -/
theorem coarse_mapM_congr {γ : Type} {as : List α} {bs : List β} {f : α → Eval γ}
    {g : β → Eval γ} (hlen : as.length = bs.length)
    (h : ∀ p ∈ as.zip bs, (f p.1).coarse = (g p.2).coarse) :
    (as.mapM f).coarse = (bs.mapM g).coarse := by
  induction as generalizing bs with
  | nil =>
      cases bs with
      | nil => rfl
      | cons b bs => exact absurd hlen (by simp)
  | cons a as ih =>
      cases bs with
      | nil => exact absurd hlen (by simp)
      | cons b bs =>
          rw [List.zip_cons_cons, List.forall_mem_cons] at h
          rw [List.mapM_cons, List.mapM_cons]
          refine coarse_bind_congr h.1 fun c => ?_
          exact coarse_bind_left _ (ih (Nat.succ.inj hlen) h.2)

/-- Results that are alike: the same value or the same stop, up to the kind of
a missing member, and the same world. -/
theorem apply_of_coarse_eq {x y : Eval α} (h : x.coarse = y.coarse) (w : World) :
    (∃ a w', x w = .ok a w' ∧ y w = .ok a w') ∨
      ∃ s s' w', x w = .error s w' ∧ y w = .error s' w' ∧ s.coarse = s'.coarse := by
  have hw := congrFun h w
  simp only [coarse] at hw
  cases hx : x w with
  | ok a w' =>
      cases hy : y w with
      | ok b w'' =>
          rw [hx, hy] at hw
          obtain ⟨rfl, rfl⟩ := EStateM.Result.ok.inj hw
          exact .inl ⟨a, w', rfl, rfl⟩
      | error s w'' => rw [hx, hy] at hw; exact absurd hw (by simp)
  | error s w' =>
      cases hy : y w with
      | ok b w'' => rw [hx, hy] at hw; exact absurd hw (by simp)
      | error s' w'' =>
          rw [hx, hy] at hw
          obtain ⟨hs, rfl⟩ := EStateM.Result.error.inj hw
          exact .inr ⟨s, s', w', rfl, rfl, hs⟩

end Eval

namespace Outcome

/-- Outcomes that are alike are the same, but for the kind of a missing member. -/
theorem eq_or_missing_of_coarse {o o' : Outcome} (h : o.coarse = o'.coarse) :
    o = o' ∨ ∃ c k k' name,
      o = .failed (.memberNotFound c k name) ∧ o' = .failed (.memberNotFound c k' name) := by
  cases o with
  | failed e =>
      cases o' with
      | failed e' =>
          have he : e.coarse = e'.coarse := Outcome.failed.inj h
          cases e <;> cases e' <;> simp_all [ConsoleError.coarse]
      | _ => exact nomatch h
  | _ => cases o' <;> first | exact .inl h | exact nomatch h

theorem coarse_ofResult_error (navigates : Bool) {s s' : Stop} (h : s.coarse = s'.coarse)
    (w : World) :
    (ofResult navigates (.error s w)).1.coarse = (ofResult navigates (.error s' w)).1.coarse := by
  cases s <;> cases s' <;> simp_all [Stop.coarse, ofResult, Outcome.coarse]

theorem ofResult_error_world (navigates : Bool) (s : Stop) (w : World) :
    (ofResult navigates (.error s w)).2 = w := by
  cases s <;> rfl

/-- Evaluations that are alike have outcomes that are alike and the same world. -/
theorem coarse_ofResult {x y : Eval Value} (h : x.coarse = y.coarse) (navigates : Bool)
    (w : World) :
    (ofResult navigates (x w)).1.coarse = (ofResult navigates (y w)).1.coarse ∧
      (ofResult navigates (x w)).2 = (ofResult navigates (y w)).2 := by
  rcases Eval.apply_of_coarse_eq h w with ⟨v, w', hx, hy⟩ | ⟨s, s', w', hx, hy, hs⟩
  · rw [hx, hy]
    exact ⟨rfl, rfl⟩
  · rw [hx, hy, ofResult_error_world, ofResult_error_world]
    exact ⟨coarse_ofResult_error navigates hs w', rfl⟩

end Outcome

namespace Catalog

variable (cat : Catalog)

/-- A name at the end of an expression is read like one in front of a point. -/
theorem coarse_lookupWord (context : Value) {n : List Char} (hn : Text.trim n = n) :
    (cat.lookupWord context n).coarse =
      (cat.readProperty context (String.ofList n)).coarse := by
  funext w
  rw [Eval.coarse, Eval.coarse, lookupWord, Eval.get_bind_apply, hn]
  cases hfind : cat.findProperty? w context (String.ofList n) with
  | none =>
      rw [readProperty, Eval.get_bind_apply]
      simp only [hfind]
      rfl
  | some p =>
      cases hp : p.readable with
      | true => simp only [hp, if_true]
      | false =>
          rw [readProperty, Eval.get_bind_apply]
          simp only [hfind, hp]
          rfl

end Catalog

/-! ### Relations that pass through steps -/

namespace Eval

structure IsCongruence (R : ∀ {α : Type}, Eval α → Eval α → Prop) : Prop where
  refl {α : Type} (x : Eval α) : R x x
  bind {α β : Type} {x y : Eval α} {f g : α → Eval β} (hx : R x y) (hf : ∀ a, R (f a) (g a)) :
    R (x >>= f) (y >>= g)

variable {α β : Type} {R : ∀ {α : Type}, Eval α → Eval α → Prop}

theorem IsCongruence.bind_right (hR : IsCongruence R) (x : Eval α) {f g : α → Eval β}
    (hf : ∀ a, R (f a) (g a)) : R (x >>= f) (x >>= g) :=
  hR.bind (hR.refl x) hf

theorem IsCongruence.mapM (hR : IsCongruence R) {f g : α → Eval β} {as : List α}
    (h : ∀ a ∈ as, R (f a) (g a)) : R (as.mapM f) (as.mapM g) := by
  induction as with
  | nil => exact hR.refl _
  | cons a as ih =>
      obtain ⟨ha, has⟩ := List.forall_mem_cons.1 h
      rw [List.mapM_cons, List.mapM_cons]
      exact hR.bind ha fun b => hR.bind (ih has) fun bs => hR.refl _

end Eval

namespace Catalog

open Eval (IsCongruence)

variable (cat : Catalog) {recur recur' : Value → List Char → Eval Value}
  {R : ∀ {α : Type}, Eval α → Eval α → Prop}

theorem related_goOn (hR : IsCongruence R) {rest : List Char}
    (h : ∀ v, R (recur v rest) (recur' v rest)) (value : Value) :
    R (goOn recur rest value) (goOn recur' rest value) :=
  hR.bind_right _ h

theorem related_continueChain (hR : IsCongruence R) {rest : List Char}
    (h : ∀ v t, t <:+: rest → R (recur v t) (recur' v t)) (value : Value) :
    R (continueChain recur rest value) (continueChain recur' rest value) := by
  have hinfix : Line.dropPoint (Text.trim rest) <:+: rest :=
    (Line.infix_dropPoint _).trans (Text.infix_trim rest)
  simp only [continueChain]
  split
  · exact hR.refl _
  · exact related_goOn hR (fun v => h v _ hinfix) value

/-- A form passes on what holds of the texts in it, and of their pieces. -/
theorem related_evalForm (hR : IsCongruence R) {form : Line.Form}
    (h : ∀ v, ∀ s ∈ form.subtexts, ∀ t, t <:+: s → R (recur v t) (recur' v t))
    (context : Value) : R (cat.evalForm recur context form) (cat.evalForm recur' context form) := by
  have hself {s : List Char} (hs : s ∈ form.subtexts) (v : Value) : R (recur v s) (recur' v s) :=
    h v s hs s List.infix_rfl
  cases form with
  | scalar v => exact hR.refl _
  | overlong digits => exact hR.refl _
  | word text => exact hR.refl _
  | member name rest =>
      exact hR.bind_right _ fun v => related_goOn hR (hself (by simp [Line.Form.subtexts])) v
  | call name parts =>
      cases parts with
      | error e => exact hR.refl _
      | ok parts =>
          simp only [evalForm, Eval.fail_bind, bracketed, pure_bind]
          split
          · exact hR.refl _
          refine hR.bind (hR.mapM fun a ha => hself (by simp [Line.Form.subtexts, ha]) context)
            fun vs => hR.bind_right _ fun result => ?_
          exact related_continueChain hR (fun v => h v _ (by simp [Line.Form.subtexts])) result
  | index name parts =>
      refine hR.bind_right _ fun sequence => ?_
      cases parts with
      | error e => exact hR.refl _
      | ok parts =>
          simp only [bracketed, pure_bind]
          refine hR.bind (hself (by simp [Line.Form.subtexts]) context) fun index => ?_
          refine hR.bind_right _ fun item => ?_
          exact related_continueChain hR (fun v => h v _ (by simp [Line.Form.subtexts])) item
  | assign name right =>
      simp only [evalForm, Eval.fail_bind]
      split
      · exact hR.refl _
      refine hR.bind_right _ fun w => ?_
      split
      · split
        · exact hR.refl _
        · exact hR.bind (hself (by simp [Line.Form.subtexts]) context) fun v => hR.refl _
      · exact hR.refl _

end Catalog

/-! ### Up to the bound on nesting -/

namespace Eval

variable {α : Type}

/-- Being stopped by the bound on nesting, or else doing what another
evaluation does. -/
def Within (x y : Eval α) : Prop :=
  ∀ w, (∃ w', x w = .error (.reported .nestedTooDeeply) w') ∨ x w = y w

theorem Within.refl (x : Eval α) : Within x x := fun _ => .inr rfl

theorem Within.trans {x y z : Eval α} (hxy : Within x y) (hyz : Within y z) : Within x z := by
  intro w
  rcases hxy w with hstop | heq
  · exact .inl hstop
  · rw [heq]
    exact hyz w

theorem Within.fail (y : Eval α) : Within (fail .nestedTooDeeply) y := fun w => .inl ⟨w, rfl⟩

theorem isCongruence_within : IsCongruence Within where
  refl := .refl
  bind {_ _ x y f g} hx hf := by
    intro w
    rw [bind_apply, bind_apply]
    rcases hx w with ⟨w', hstop⟩ | heq
    · rw [hstop]
      exact .inl ⟨w', rfl⟩
    · rw [heq]
      cases y w with
      | ok a w' => exact hf a w'
      | error s w' => exact .inr rfl

end Eval

namespace Catalog

open Eval (Within)

variable (cat : Catalog)

/-- One more level changes nothing but a stop at the bound. -/
theorem within_evalExpr_succ (levels : Nat) (context : Value) (text : List Char) :
    Within (cat.evalExpr levels context text) (cat.evalExpr (levels + 1) context text) := by
  induction levels generalizing context text with
  | zero => exact .fail _
  | succ levels ih =>
      -- the two sides differ only in the evaluation of the texts in the form
      rw [evalExpr, evalExpr]
      split
      · exact .refl _
      split
      · exact .refl _
      · exact cat.related_evalForm Eval.isCongruence_within (fun v _ _ t _ => ih v t) context

/-- More levels change nothing but a stop at the bound. -/
theorem within_evalExpr {m n : Nat} (h : m ≤ n) (context : Value) (text : List Char) :
    Within (cat.evalExpr m context text) (cat.evalExpr n context text) := by
  induction h with
  | refl => exact .refl _
  | step _ ih => exact ih.trans (cat.within_evalExpr_succ _ context text)

end Catalog

end ObjectConsole
