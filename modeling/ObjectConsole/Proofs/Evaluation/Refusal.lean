import ObjectConsole.Proofs.Evaluation.Assignment
import ObjectConsole.Proofs.Member.Resolution
import ObjectConsole.Proofs.Session.Navigation

/-!
Calls that no method takes. If an evaluation ends with such a call, then it has
come to the call step by step, through arguments, indexes, assigned values and
what stands behind a value. The relation `ComesTo` follows these steps, so that
target, name and arguments of the call can be spoken of. What is said about the
call afterwards shows the arguments themselves, and neither the target, nor the
name, nor what the arguments are instances of.
-/

namespace ObjectConsole

open Line (Form)
open Text (Blanks trim trimRight)

structure CallSite where
  target : Value
  label : String
  args : List Value
  world : World

namespace CallSite

variable (cat : Catalog) (c : CallSite)

structure IsRefused : Prop where
  named : cat.overloads c.world c.target c.label ≠ []
  left : ∀ m ∈ cat.overloads c.world c.target c.label, cat.Leaves c.world m c.args

def shown : Except Raised String := cat.refusedArguments c.world c.args

def stopped {α : Type} : EStateM.Result Stop World α :=
  .error (.reported (.noMatchingOverload (c.shown cat))) c.world

end CallSite

/-! ### Steps that no call stops -/

def Stop.IsRefusal : Stop → Prop
  | .reported (.noMatchingOverload _) => True
  | _ => False

namespace Eval

variable {α β : Type} {x : Eval α} {f : α → Eval β} {w w' : World} {e : Stop}

def Unrefused (x : Eval α) : Prop := ∀ w e w', x w = .error e w' → ¬e.IsRefusal

theorem unrefused_pure (a : α) : Unrefused (pure a) := fun _ _ _ h => nomatch h

theorem unrefused_modify (f : World → World) : Unrefused (modify f) := fun _ _ _ h => nomatch h

theorem unrefused_set (w : World) : Unrefused (set w) := fun _ _ _ h => nomatch h

theorem unrefused_throw (he : ¬e.IsRefusal) : Unrefused (throw e : Eval α) := by
  intro w e' w' h
  obtain ⟨rfl, -⟩ := EStateM.Result.error.inj h
  exact he

/-- What the code of a member raises is reported as such. -/
theorem unrefused_invoke (name : String) (act : Act α) : Unrefused (invoke name act) := by
  intro w e w' h
  rw [invoke] at h
  cases hact : act w with
  | ok a w₁ =>
      rw [hact] at h
      cases h
  | error e₁ w₁ =>
      rw [hact] at h
      obtain ⟨rfl, -⟩ := EStateM.Result.error.inj h
      exact id

theorem bind_of_ok {a : α} (h : x w = .ok a w') : (x >>= f) w = f a w' := by
  rw [bind_apply, h]

theorem bind_of_stopped {cat : Catalog} {c : CallSite} (h : x w = c.stopped cat) :
    (x >>= f) w = c.stopped cat := by
  rw [bind_apply, h]
  rfl

theorem bind_error (h : (x >>= f) w = .error e w') :
    x w = .error e w' ∨ ∃ a w₁, x w = .ok a w₁ ∧ f a w₁ = .error e w' := by
  rw [bind_apply] at h
  cases hx : x w with
  | ok a w₁ =>
      rw [hx] at h
      exact .inr ⟨a, w₁, rfl, h⟩
  | error e₁ w₁ =>
      rw [hx] at h
      exact .inl (by simpa using h)

theorem unrefused_bind (hx : Unrefused x) (hf : ∀ a, Unrefused (f a)) : Unrefused (x >>= f) := by
  intro w e w' h
  rcases bind_error h with hx' | ⟨a, w₁, -, hf'⟩
  · exact hx w e w' hx'
  · exact hf a w₁ e w' hf'

theorem unrefused_get_bind {f : World → Eval α} (hf : ∀ w, Unrefused (f w)) :
    Unrefused ((get : Eval World) >>= f) := fun w e w' h => hf w w e w' h

/-- A refused call that stops two steps stops the second, if it cannot stop the first. -/
theorem Unrefused.next (hx : Unrefused x) (h : (x >>= f) w = .error e w') (he : e.IsRefusal) :
    ∃ a w₁, x w = .ok a w₁ ∧ f a w₁ = .error e w' :=
  (bind_error h).resolve_left fun hx' => hx w e w' hx' he

theorem mapM_stopped {γ : Type} {g : γ → Eval α} {cat : Catalog} {c : CallSite}
    {before after : List γ} {a : γ} {vs : List α} {w w₁ : World}
    (hbefore : before.mapM g w = .ok vs w₁) (ha : g a w₁ = c.stopped cat) :
    (before ++ a :: after).mapM g w = c.stopped cat := by
  rw [List.mapM_append, bind_of_ok hbefore, List.mapM_cons]
  exact bind_of_stopped (bind_of_stopped ha)

/-- Steps in a row are stopped by one of them, when those before it are done. -/
theorem mapM_error {γ : Type} {g : γ → Eval α} {as : List γ} {w : World}
    (h : as.mapM g w = .error e w') :
    ∃ before a after vs w₁, as = before ++ a :: after ∧ before.mapM g w = .ok vs w₁ ∧
      g a w₁ = .error e w' := by
  induction as generalizing w with
  | nil => cases h
  | cons a as ih =>
      rw [List.mapM_cons] at h
      rcases bind_error h with hfirst | ⟨v, w₁, hfirst, hrest⟩
      · exact ⟨[], a, as, [], w, rfl, rfl, hfirst⟩
      · rcases bind_error hrest with hrest | ⟨vs, w₂, -, hdone⟩
        · obtain ⟨before, b, after, vs, w₂, rfl, hbefore, hb⟩ := ih hrest
          refine ⟨a :: before, b, after, v :: vs, w₂, rfl, ?_, hb⟩
          rw [List.mapM_cons, bind_apply, hfirst]
          simp only [bind_apply, hbefore]
          rfl
        · cases hdone

end Eval

namespace Catalog

open Eval

variable (cat : Catalog)

theorem unrefused_readProperty (v : Value) (label : String) :
    Unrefused (cat.readProperty v label) := by
  rw [readProperty]
  refine unrefused_get_bind fun w => ?_
  split
  · split
    · exact unrefused_throw id
    · split
      · exact unrefused_pure _
      · exact unrefused_invoke _ _
  · exact unrefused_throw id

theorem unrefused_lookupWord (v : Value) (word : List Char) :
    Unrefused (cat.lookupWord v word) := by
  rw [lookupWord]
  refine unrefused_get_bind fun w => ?_
  dsimp only
  split
  · split
    · exact cat.unrefused_readProperty v _
    · exact unrefused_throw id
  · exact unrefused_throw id

theorem unrefused_indexed (v : Value) (name : List Char) : Unrefused (cat.indexed v name) := by
  rw [indexed]
  refine unrefused_get_bind fun w => ?_
  split
  · exact unrefused_pure _
  · refine unrefused_bind (cat.unrefused_readProperty v _) fun u => unrefused_get_bind fun w => ?_
    split
    · exact unrefused_pure _
    · exact unrefused_throw id

/-- Brackets that do not match are no refused call. -/
theorem ok_of_bracketed {α β : Type} {parts : Except Line.BracketError α} {f : α → Eval β}
    {w w' : World} {e : Stop} (h : (bracketed parts >>= f) w = .error e w') (he : e.IsRefusal) :
    ∃ a, parts = .ok a ∧ f a w = .error e w' := by
  cases parts with
  | ok a => exact ⟨a, rfl, h⟩
  | error e₁ => exact absurd he (unrefused_throw (e := .reported (.bracket e₁)) id _ _ _ h)

theorem unrefused_itemAt (sequence index : Value) : Unrefused (itemAt sequence index) := by
  rw [itemAt]
  refine unrefused_get_bind fun w => ?_
  dsimp only
  split
  · exact unrefused_throw id
  split
  · exact unrefused_pure _
  · split <;> exact unrefused_throw id

theorem unrefused_requireWritable (v : Value) (label : String) :
    Unrefused (cat.requireWritable v label) := by
  rw [requireWritable]
  refine unrefused_get_bind fun w => ?_
  split
  · split
    · exact unrefused_pure _
    · exact unrefused_throw id
  · exact unrefused_throw id

theorem unrefused_writeProperty (v : Value) (label : String) (value : Value) :
    Unrefused (cat.writeProperty v label value) := by
  rw [writeProperty]
  refine unrefused_get_bind fun w => ?_
  split
  · split
    · exact unrefused_throw id
    · refine unrefused_bind ?_ fun u => unrefused_bind (unrefused_get_bind fun w => ?_) fun u => ?_
      · rw [fit]
        split
        · exact unrefused_pure _
        · exact unrefused_throw id
        · exact unrefused_throw id
      · exact unrefused_bind (unrefused_set _) fun _ => unrefused_pure _
      · split
        · exact unrefused_bind (unrefused_modify _) fun _ => unrefused_pure _
        · exact unrefused_bind (unrefused_invoke _ _) fun _ => unrefused_pure _
  · exact unrefused_throw id

theorem callMethod_of_isRefused {c : CallSite} (h : c.IsRefused cat) :
    cat.callMethod c.target c.label c.args c.world = c.stopped cat := by
  have hresolve := resolve_eq_noMatching_iff.2 ⟨rfl, h.named, h.left⟩
  rw [callMethod, Eval.get_bind_apply, hresolve]
  rfl

def invokeChosen (v : Value) (label : String) (m : MethodInfo) (fitted : List Value) :
    Eval Value := do
  let (fitted, w) := (← get).adoptAll fitted
  set w
  Eval.invoke label (m.run v (withDefaults fitted m.params))

theorem unrefused_invokeChosen (v : Value) (label : String) (m : MethodInfo)
    (fitted : List Value) : Unrefused (invokeChosen v label m fitted) :=
  unrefused_get_bind fun _ => unrefused_bind (unrefused_set _) fun _ => unrefused_invoke _ _

/-- Only a refused call stops with the error of one. What the method itself raises is
reported as that. -/
theorem isRefused_of_callMethod {v : Value} {label : String} {args : List Value} {w w' : World}
    {e : Stop} (h : cat.callMethod v label args w = .error e w') (he : e.IsRefusal) :
    CallSite.IsRefused cat ⟨v, label, args, w⟩ := by
  rw [callMethod, Eval.get_bind_apply] at h
  cases hresolve : cat.resolve w v label args with
  | ok found =>
      rw [hresolve] at h
      exact absurd he (unrefused_invokeChosen v label found.1 found.2 _ _ _ h)
  | error e' =>
      rw [hresolve] at h
      obtain ⟨rfl, rfl⟩ := EStateM.Result.error.inj h
      cases e' with
      | escaped e => exact he.elim
      | reported e =>
          cases e with
          | noMatchingOverload shown =>
              obtain ⟨-, hnamed, hleft⟩ := resolve_eq_noMatching_iff.1 hresolve
              exact ⟨hnamed, hleft⟩
          | _ => exact he.elim

theorem bracketed_ok {α : Type} (a : α) (w : World) : bracketed (.ok a) w = .ok a w := rfl

theorem evalForm_call (recur : Value → List Char → Eval Value) (context : Value)
    {name : List Char} (hname : name ≠ [])
    (parts : Except Line.BracketError (List (List Char) × List Char)) :
    cat.evalForm recur context (.call name parts) = (do
      let (args, after) ← bracketed parts
      let vs ← args.mapM (recur context)
      let result ← cat.callMethod context (String.ofList name) vs
      continueChain recur after result) := by
  have hempty : name.isEmpty = false := by simpa using hname
  simp only [evalForm, Eval.fail_bind, hempty, Bool.false_eq_true, if_false]

end Catalog

/-! ### The way to a refused call -/

section Ways

variable (cat : Catalog) (recur : Value → List Char → Eval Value)
  (reaches : Value → List Char → World → CallSite → Prop)

structure Behind (rest : List Char) (v : Value) (w : World) (c : CallSite) : Prop where
  more : Text.isBlankText (Line.dropPoint (trim rest)) = false
  reaches : reaches (w.adopt v).1 (Line.dropPoint (trim rest)) (w.adopt v).2 c

/-- A form comes to the refused call: it is that call, or one of the texts in it comes
to the call after what is evaluated before has given a value. -/
inductive ComesTo (context : Value) : Form → World → CallSite → Prop
  | here {name after : List Char} {args : List (List Char)} {vs : List Value} {w w₁ : World}
      (hname : name ≠ []) (hargs : args.mapM (recur context) w = .ok vs w₁)
      (hrefused : CallSite.IsRefused cat ⟨context, String.ofList name, vs, w₁⟩) :
      ComesTo context (.call name (.ok (args, after))) w ⟨context, String.ofList name, vs, w₁⟩
  | argument {name after arg : List Char} {before others : List (List Char)} {vs : List Value}
      {w w₁ : World} {c : CallSite} (hname : name ≠ [])
      (hbefore : before.mapM (recur context) w = .ok vs w₁) (harg : reaches context arg w₁ c) :
      ComesTo context (.call name (.ok (before ++ arg :: others, after))) w c
  | behindCall {name after : List Char} {args : List (List Char)} {vs : List Value} {v : Value}
      {w w₁ w₂ : World} {c : CallSite} (hname : name ≠ [])
      (hargs : args.mapM (recur context) w = .ok vs w₁)
      (hcall : cat.callMethod context (String.ofList name) vs w₁ = .ok v w₂)
      (hbehind : Behind reaches after v w₂ c) :
      ComesTo context (.call name (.ok (args, after))) w c
  | member {name rest : List Char} {v : Value} {w w₁ : World} {c : CallSite}
      (hread : cat.readProperty context (String.ofList name) w = .ok v w₁)
      (hrest : reaches (w₁.adopt v).1 rest (w₁.adopt v).2 c) :
      ComesTo context (.member name rest) w c
  | inside {name inside after : List Char} {sequence : Value} {w w₁ : World} {c : CallSite}
      (hsequence : cat.indexed context name w = .ok sequence w₁)
      (hinside : reaches context inside w₁ c) :
      ComesTo context (.index name (.ok (inside, after))) w c
  | behindIndex {name inside after : List Char} {sequence index item : Value}
      {w w₁ w₂ w₃ : World} {c : CallSite} (hsequence : cat.indexed context name w = .ok sequence w₁)
      (hinside : recur context inside w₁ = .ok index w₂)
      (hitem : Catalog.itemAt sequence index w₂ = .ok item w₃)
      (hbehind : Behind reaches after item w₃ c) :
      ComesTo context (.index name (.ok (inside, after))) w c
  | right {name right : List Char} {w w₁ : World} {c : CallSite} (hname : name ≠ [])
      (hready : cat.requireWritable context (String.ofList name) w = .ok ⟨⟩ w₁)
      (hright : reaches context right w₁ c) :
      ComesTo context (.assign name right) w c

end Ways

def Catalog.Refuses (cat : Catalog) : Nat → Value → List Char → World → CallSite → Prop
  | 0, _, _, _, _ => False
  | levels + 1, context, text, w, c =>
    ¬Blanks text ∧ context.isNull = false ∧
      ComesTo cat (cat.evalExpr levels) (cat.Refuses levels) context (Form.ofLine text) w c

structure Session.Refuses (cat : Catalog) (s : Session) (line : List Char) (c : CallSite) :
    Prop where
  not_return : trim line ≠ returnCommand
  not_blank : ¬Blanks line
  context : s.stack.current.isNull = false
  comes : ComesTo cat (cat.evalExpr cat.limits.expressions) (cat.Refuses cat.limits.expressions)
    s.stack.current
    (Form.ofText (Line.dropPoint ((Catalog.navigation? (trim line)).getD (trim line)))) s.world c

section Forms

variable {cat : Catalog} {recur : Value → List Char → Eval Value}
  {reaches : Value → List Char → World → CallSite → Prop} {context : Value} {form : Form}
  {w w' : World} {c : CallSite} {e : Stop}

theorem Behind.continueChain {rest : List Char} {v : Value} (h : Behind reaches rest v w c)
    (hreaches : ∀ context text w c, reaches context text w c →
      recur context text w = c.stopped cat) :
    Catalog.continueChain recur rest v w = c.stopped cat := by
  rw [Catalog.continueChain]
  simp only [h.more]
  exact hreaches _ _ _ _ h.reaches

/-- An evaluation that comes to a refused call is stopped by it. -/
theorem ComesTo.evalForm (h : ComesTo cat recur reaches context form w c)
    (hreaches : ∀ context text w c, reaches context text w c →
      recur context text w = c.stopped cat) :
    cat.evalForm recur context form w = c.stopped cat := by
  cases h with
  | here hname hargs hrefused =>
      rw [cat.evalForm_call _ _ hname]
      exact (Eval.bind_of_ok (Catalog.bracketed_ok _ _)).trans ((Eval.bind_of_ok hargs).trans
        (Eval.bind_of_stopped (cat.callMethod_of_isRefused hrefused)))
  | argument hname hbefore harg =>
      rw [cat.evalForm_call _ _ hname]
      exact (Eval.bind_of_ok (Catalog.bracketed_ok _ _)).trans
        (Eval.bind_of_stopped (Eval.mapM_stopped hbefore (hreaches _ _ _ _ harg)))
  | behindCall hname hargs hcall hbehind =>
      rw [cat.evalForm_call _ _ hname]
      exact (Eval.bind_of_ok (Catalog.bracketed_ok _ _)).trans ((Eval.bind_of_ok hargs).trans
        ((Eval.bind_of_ok hcall).trans (hbehind.continueChain hreaches)))
  | member hread hrest => exact (Eval.bind_of_ok hread).trans (hreaches _ _ _ _ hrest)
  | inside hsequence hinside =>
      exact (Eval.bind_of_ok hsequence).trans ((Eval.bind_of_ok (Catalog.bracketed_ok _ _)).trans
        (Eval.bind_of_stopped (hreaches _ _ _ _ hinside)))
  | behindIndex hsequence hinside hitem hbehind =>
      exact (Eval.bind_of_ok hsequence).trans ((Eval.bind_of_ok (Catalog.bracketed_ok _ _)).trans
        ((Eval.bind_of_ok hinside).trans
          ((Eval.bind_of_ok hitem).trans (hbehind.continueChain hreaches))))
  | right hname hready hright =>
      rw [cat.evalForm_assign _ _ hname]
      exact (Eval.bind_of_ok hready).trans (Eval.bind_of_stopped (hreaches _ _ _ _ hright))

theorem behind_of_continueChain {rest : List Char} {v : Value}
    (h : Catalog.continueChain recur rest v w = .error e w') (he : e.IsRefusal)
    (hreaches : ∀ context text w e w', recur context text w = .error e w' → e.IsRefusal →
      ∃ c, reaches context text w c) :
    ∃ c, Behind reaches rest v w c := by
  rw [Catalog.continueChain] at h
  cases hblank : Text.isBlankText (Line.dropPoint (trim rest)) with
  | true =>
      simp only [hblank] at h
      cases h
  | false =>
      simp only [hblank] at h
      obtain ⟨c, hc⟩ := hreaches _ _ _ _ _ h he
      exact ⟨c, hblank, hc⟩

theorem exists_comesTo_call {name : List Char}
    {parts : Except Line.BracketError (List (List Char) × List Char)}
    (h : cat.evalForm recur context (.call name parts) w = .error e w') (he : e.IsRefusal)
    (hreaches : ∀ context text w e w', recur context text w = .error e w' → e.IsRefusal →
      ∃ c, reaches context text w c) :
    ∃ c, ComesTo cat recur reaches context (.call name parts) w c := by
  have hname : name ≠ [] := by
    rintro rfl
    exact absurd he (Eval.unrefused_throw (e := .reported .missingMethodName) id _ _ _ h)
  rw [cat.evalForm_call _ _ hname] at h
  obtain ⟨⟨args, after⟩, rfl, hrun⟩ := Catalog.ok_of_bracketed h he
  -- the refused call is in an argument, or it is this one, or it stands behind it
  rcases Eval.bind_error hrun with hargs | ⟨vs, w₁, hargs, hrun⟩
  · obtain ⟨before, arg, others, vs, w₁, rfl, hbefore, harg⟩ := Eval.mapM_error hargs
    obtain ⟨c, hc⟩ := hreaches _ _ _ _ _ harg he
    exact ⟨c, .argument hname hbefore hc⟩
  rcases Eval.bind_error hrun with hcall | ⟨v, w₂, hcall, hrun⟩
  · exact ⟨_, .here hname hargs (cat.isRefused_of_callMethod hcall he)⟩
  · obtain ⟨c, hc⟩ := behind_of_continueChain hrun he hreaches
    exact ⟨c, .behindCall hname hargs hcall hc⟩

/-- An evaluation that ends with the error of a refused call has come to one. -/
theorem exists_comesTo (h : cat.evalForm recur context form w = .error e w') (he : e.IsRefusal)
    (hreaches : ∀ context text w e w', recur context text w = .error e w' → e.IsRefusal →
      ∃ c, reaches context text w c) :
    ∃ c, ComesTo cat recur reaches context form w c := by
  cases form with
  | scalar s => cases h
  | overlong digits =>
      exact absurd he (Eval.unrefused_throw (e := .escaped (overlongError digits)) id _ _ _ h)
  | word text => exact absurd he (cat.unrefused_lookupWord _ _ _ _ _ h)
  | member name rest =>
      obtain ⟨v, w₁, hread, hrest⟩ := (cat.unrefused_readProperty _ _).next h he
      obtain ⟨c, hc⟩ := hreaches _ _ _ _ _ hrest he
      exact ⟨c, .member hread hc⟩
  | call name parts => exact exists_comesTo_call h he hreaches
  | index name parts =>
      obtain ⟨sequence, w₁, hsequence, hparts⟩ := (cat.unrefused_indexed _ _).next h he
      obtain ⟨⟨inside, after⟩, rfl, hrun⟩ := Catalog.ok_of_bracketed hparts he
      rcases Eval.bind_error hrun with hinside | ⟨index, w₂, hinside, hrun⟩
      · obtain ⟨c, hc⟩ := hreaches _ _ _ _ _ hinside he
        exact ⟨c, .inside hsequence hc⟩
      obtain ⟨item, w₃, hitem, hrun⟩ := (Catalog.unrefused_itemAt _ _).next hrun he
      obtain ⟨c, hc⟩ := behind_of_continueChain hrun he hreaches
      exact ⟨c, .behindIndex hsequence hinside hitem hc⟩
  | assign name right =>
      have hname : name ≠ [] := by
        rintro rfl
        exact absurd he (Eval.unrefused_throw (e := .reported .missingAssignmentTarget) id _ _ _ h)
      rw [cat.evalForm_assign _ _ hname] at h
      obtain ⟨_, w₁, hready, hrun⟩ := (cat.unrefused_requireWritable _ _).next h he
      rcases Eval.bind_error hrun with hright | ⟨v, w₂, -, hwrite⟩
      · obtain ⟨c, hc⟩ := hreaches _ _ _ _ _ hright he
        exact ⟨c, .right hname hready hc⟩
      · exact absurd he (cat.unrefused_writeProperty _ _ _ _ _ _ hwrite)

end Forms

namespace Catalog

variable (cat : Catalog) {levels : Nat} {context : Value} {text : List Char} {w w' : World}
  {c : CallSite} {e : Stop}

/-- An expression that comes to a refused call is stopped by it. -/
theorem evalExpr_of_refuses (h : cat.Refuses levels context text w c) :
    cat.evalExpr levels context text w = c.stopped cat := by
  -- the texts of a form have one level less, so the levels carry the induction
  induction levels generalizing context text w c with
  | zero => exact h.elim
  | succ levels ih =>
      obtain ⟨hblank, hcontext, hform⟩ := h
      rw [cat.evalExpr_of_not_blank _ _ hblank, hcontext]
      exact hform.evalForm fun _ _ _ _ => ih

theorem exists_refuses (h : cat.evalExpr levels context text w = .error e w')
    (he : e.IsRefusal) : ∃ c, cat.Refuses levels context text w c := by
  induction levels generalizing context text w w' e with
  | zero => exact absurd he (Eval.unrefused_throw (e := .reported .nestedTooDeeply) id _ _ _ h)
  | succ levels ih =>
      by_cases hblank : Blanks text
      · rw [evalExpr, if_pos (isEmpty_trim_iff.2 hblank)] at h
        exact absurd he (Eval.unrefused_throw (e := .reported .emptyExpression) id _ _ _ h)
      · rw [cat.evalExpr_of_not_blank _ _ hblank] at h
        cases hcontext : context.isNull with
        | true =>
            rw [hcontext] at h
            exact absurd he (Eval.unrefused_throw (e := .reported .nullContext) id _ _ _ h)
        | false =>
            rw [hcontext] at h
            obtain ⟨c, hc⟩ := exists_comesTo h he fun _ _ _ _ _ => ih
            exact ⟨c, hblank, hcontext, hc⟩

end Catalog

/-! ### Lines -/

namespace Session

variable {cat : Catalog} {s s' : Session} {line line' : List Char} {c c' : CallSite}

/-- A line that comes to a refused call ends with its error. -/
theorem Refuses.runLine (h : s.Refuses cat line c) :
    s.runLine cat line =
      Session.report { s with world := c.world } (.failed (.noMatchingOverload (c.shown cat))) := by
  have hline : cat.evalLine s.stack.current (trim line) s.world = c.stopped cat := by
    rw [Catalog.evalLine, h.context, if_neg (by simp)]
    exact h.comes.evalForm fun _ _ _ _ => cat.evalExpr_of_refuses
  have heval : cat.evaluate (trim line) s.stack.current s.world =
      (.failed (.noMatchingOverload (c.shown cat)), c.world) := by
    rw [cat.evaluate_trim, cat.evaluate_of_not_blank h.not_blank, hline]
    rfl
  rw [Session.runLine, if_neg h.not_return, Session.evaluate, heval]

theorem Refuses.runLine_of_shown {text : String} (h : s.Refuses cat line c)
    (htext : c.shown cat = .ok text) :
    s.runLine cat line = (.failed (.noMatchingOverload (.ok text)),
      { s with world := c.world, emitted := s.emitted ++ [unknownCommand ++ ": " ++ text] }) := by
  rw [h.runLine, htext]
  rfl

theorem Refuses.runLine_of_unshown {e : Raised} (h : s.Refuses cat line c)
    (he : c.shown cat = .error e) :
    s.runLine cat line = (.escaped e, { s with world := c.world }) := by
  rw [h.runLine, he]
  rfl

theorem Refuses.diagnostic? (h : s.Refuses cat line c) :
    (s.runLine cat line).1.diagnostic? =
      (c.shown cat).toOption.map fun text => unknownCommand ++ ": " ++ text := by
  cases hshown : c.shown cat with
  | ok text =>
      rw [h.runLine_of_shown hshown]
      rfl
  | error e =>
      rw [h.runLine_of_unshown hshown]
      rfl

theorem report_eq_failed {o : Outcome} {e : ConsoleError} (h : (s.report o).1 = .failed e) :
    o = .failed e := by
  rw [report] at h
  split at h
  · exact h
  · split at h
    · exact h
    · cases h

/-- What a line fails with for a refused call, its evaluation has stopped with. -/
theorem evalLine_of_runLine {shown : Except Raised String}
    (h : (s.runLine cat line).1 = .failed (.noMatchingOverload shown)) :
    trim line ≠ returnCommand ∧ ¬Blanks line ∧ ∃ w,
      cat.evalLine s.stack.current (trim line) s.world =
        .error (.reported (.noMatchingOverload shown)) w := by
  have hreturn : trim line ≠ returnCommand := by
    intro hreturn
    rw [runLine, if_pos hreturn, goBack] at h
    split at h
    · cases report_eq_failed h
    · cases h
  have heval : (cat.evaluate (trim line) s.stack.current s.world).1 =
      .failed (.noMatchingOverload shown) := by
    rw [runLine, if_neg hreturn, Session.evaluate] at h
    have hfailed := report_eq_failed h
    split at hfailed
    · cases hfailed
    next heval =>
      rw [heval]
      exact hfailed
  rw [cat.evaluate_trim] at heval
  have hblank : ¬Blanks line := by
    intro hblank
    rw [Catalog.evaluate, if_pos (Catalog.isEmpty_trim_iff.2 hblank)] at heval
    cases heval
  refine ⟨hreturn, hblank, ?_⟩
  rw [cat.evaluate_of_not_blank hblank] at heval
  cases hrun : cat.evalLine s.stack.current (trim line) s.world with
  | ok v w =>
      rw [hrun] at heval
      cases heval
  | error stop w =>
      rw [hrun] at heval
      cases stop with
      | reported e =>
          obtain rfl := Outcome.failed.inj heval
          exact ⟨w, rfl⟩
      | escaped e =>
          change Outcome.ofEscaped e = _ at heval
          rw [Outcome.ofEscaped] at heval
          split at heval <;> cases heval

/-- A line that fails with the error of a refused call has come to one. -/
theorem exists_refuses {shown : Except Raised String}
    (h : (s.runLine cat line).1 = .failed (.noMatchingOverload shown)) :
    ∃ c, s.Refuses cat line c := by
  obtain ⟨hreturn, hblank, w, hline⟩ := evalLine_of_runLine h
  rw [Catalog.evalLine] at hline
  cases hcontext : s.stack.current.isNull with
  | true =>
      rw [hcontext] at hline
      cases hline
  | false =>
      rw [hcontext, if_neg (by simp)] at hline
      obtain ⟨c, hc⟩ := exists_comesTo hline trivial fun _ _ _ _ _ => cat.exists_refuses
      exact ⟨c, hreturn, hblank, hcontext, hc⟩

/-- The diagnostic of a refused call shows its arguments and nothing else: a line
fails so just when it comes to such a call whose arguments can be shown, and two
lines that come to such calls have the same diagnostic just when their arguments
are shown alike, whatever is called and whatever the arguments are instances of.
If the arguments cannot be shown, then what was raised over them escapes, and there
is no diagnostic. -/
theorem refused_line_shows_arguments (cat : Catalog) (s : Session) (line : List Char) :
    (∀ text, (s.runLine cat line).1 = .failed (.noMatchingOverload (.ok text)) ↔
      ∃ c, s.Refuses cat line c ∧ cat.refusedArguments c.world c.args = .ok text) ∧
    ∀ c, s.Refuses cat line c →
      (∀ text, cat.refusedArguments c.world c.args = .ok text →
        (s.runLine cat line).2.emitted = s.emitted ++ ["Command unknown: " ++ text]) ∧
      (∀ e, cat.refusedArguments c.world c.args = .error e →
        (s.runLine cat line).1 = .escaped e ∧ (s.runLine cat line).2.emitted = s.emitted) ∧
      ∀ (s' : Session) (line' : List Char) (c' : CallSite), s'.Refuses cat line' c' →
        ((s.runLine cat line).1.diagnostic? = (s'.runLine cat line').1.diagnostic? ↔
          (cat.refusedArguments c.world c.args).toOption =
            (cat.refusedArguments c'.world c'.args).toOption) := by
  refine ⟨fun text => ⟨fun h => ?_, ?_⟩, fun c hc =>
    ⟨fun text htext => ?_, fun e he => ?_, fun s' line' c' hc' => ?_⟩⟩
  · obtain ⟨c, hc⟩ := exists_refuses h
    rw [hc.runLine] at h
    exact ⟨c, hc, ConsoleError.noMatchingOverload.inj (Outcome.failed.inj (report_eq_failed h))⟩
  · rintro ⟨c, hc, htext⟩
    rw [hc.runLine_of_shown htext]
  · have hprefix : unknownCommand ++ ": " = "Command unknown: " := by decide
    rw [hc.runLine_of_shown htext, hprefix]
  · rw [hc.runLine_of_unshown he]
    exact ⟨rfl, rfl⟩
  · rw [hc.diagnostic?, hc'.diagnostic?, Option.map_inj_right fun a b =>
      (String.append_right_inj _).1]
    rfl

end Session

namespace Sample

def sayLine (b : Bool) : List Char := if b then "Say(true)".toList else "Say(false)".toList

def saySite (b : Bool) : CallSite := ⟨demonstration.1, "Say", [.bool b], demonstration.2⟩

/-- Neither of the two methods of the name takes a truth value. -/
theorem isRefused_saySite (b : Bool) : (saySite b).IsRefused catalog := by
  obtain ⟨say, sayTimes, hoverloads, hsay, hsayTimes⟩ : ∃ say sayTimes,
      catalog.overloads demonstration.2 demonstration.1 "Say" = [say, sayTimes] ∧
      (∀ b, catalog.fitArguments demonstration.2 [.bool b] say.params =
        .error (.unfit (boolDisplay b) "str")) ∧
      ∀ b, catalog.fitArguments demonstration.2 [.bool b] sayTimes.params =
        .error (.unfit (boolDisplay b) "int") :=
    ⟨_, _, rfl, fun _ => rfl, fun _ => rfl⟩
  refine ⟨?_, fun m hm => ?_⟩
  · rw [saySite, hoverloads]
    simp
  · rw [saySite, hoverloads] at hm
    obtain rfl | rfl : m = say ∨ m = sayTimes := by simpa using hm
    · exact fun _ => ⟨_, _, hsay b⟩
    · exact fun _ => ⟨_, _, hsayTimes b⟩

/-- The form of a call with one plain argument. -/
theorem ofLine_say {word : List Char} (hword : Line.Whole word) (hblank : ¬Blanks word) :
    Form.ofLine ("Say".toList ++ '(' :: (word ++ [')'])) =
      .call "Say".toList (.ok ([word], [])) := by
  have hlabel : Line.IsLabel "Say".toList := by decide +kernel
  have htrim : trimRight (word ++ [')']) = word ++ [')'] :=
    Text.trimRight_append_cons (by decide) word []
  have hinside : Line.enclosed .round ('(' :: (word ++ [')'])) = .ok ⟨[], word, []⟩ :=
    Line.enclosed_of_balanced hword.round []
  have harguments : Line.arguments (Line.commaJoin [word]) = [word] :=
    Line.arguments_commaJoin (by simp) (by simpa using hword.argument)
      (Line.isBlankText_commaJoin (by simp) hblank)
  have hform := Form.ofLine_label hlabel .call (word ++ [')'])
  rw [Line.Trigger.char, htrim] at hform
  rw [Line.commaJoin_singleton] at harguments
  simp only [hform, Form.ofTrigger, Line.Trigger.char, hinside, Except.map, harguments]
  rfl

theorem refuses_sayLine (b : Bool) :
    Session.demonstration.Refuses catalog (sayLine b) (saySite b) := by
  obtain ⟨word, hline, hinert, hblank, hargs⟩ : ∃ word : List Char,
      sayLine b = "Say".toList ++ '(' :: (word ++ [')']) ∧ word.all Line.isInert = true ∧
      Text.isBlankText word = false ∧
      [word].mapM (catalog.evalExpr catalog.limits.expressions demonstration.1) demonstration.2 =
        .ok [.bool b] demonstration.2 := by
    cases b with
    | true => exact ⟨"true".toList, by decide, by decide, by decide, rfl⟩
    | false => exact ⟨"false".toList, by decide, by decide, by decide, rfl⟩
  have hplain : Catalog.navigation? (trim (sayLine b)) = none := by cases b <;> decide
  have hform : Form.ofLine (sayLine b) = .call "Say".toList (.ok ([word], [])) := by
    rw [hline]
    exact ofLine_say (.of_inert (List.all_eq_true.1 hinert))
      (Text.isBlankText_eq_false_iff.1 hblank)
  refine ⟨?_, ?_, rfl, ?_⟩
  · cases b <;> decide
  · cases b <;> decide
  · rw [hplain, Option.getD_none, ← Form.ofLine, hform]
    exact .here (by decide) hargs (isRefused_saySite b)

/-- Two refused calls of one method on one object, with a truth value each, have
different diagnostics. -/
theorem say_truth_values :
    (saySite true).target = (saySite false).target ∧
      (saySite true).label = (saySite false).label ∧
      (∀ b, (saySite b).args.map (saySite b).world.className = ["bool"]) ∧
      (∀ b, Session.demonstration.Refuses catalog (sayLine b) (saySite b)) ∧
      (Session.demonstration.runLine catalog (sayLine true)).2.emitted =
        ["Command unknown: True"] ∧
      (Session.demonstration.runLine catalog (sayLine false)).2.emitted =
        ["Command unknown: False"] ∧
      (Session.demonstration.runLine catalog (sayLine true)).1.diagnostic? ≠
        (Session.demonstration.runLine catalog (sayLine false)).1.diagnostic? := by
  have hlines (b : Bool) := (Session.refused_line_shows_arguments catalog Session.demonstration
    (sayLine b)).2 _ (refuses_sayLine b)
  refine ⟨rfl, rfl, fun b => rfl, refuses_sayLine, (hlines true).1 _ rfl,
    (hlines false).1 _ rfl, ?_⟩
  rw [ne_eq, (hlines true).2.2 _ _ _ (refuses_sayLine false)]
  decide

end Sample

end ObjectConsole
