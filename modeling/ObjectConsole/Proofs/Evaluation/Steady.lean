import ObjectConsole.Proofs.Evaluation.Discipline
import ObjectConsole.Proofs.Member.Outcome

/-!
Evaluations that only read. A text without an opening parenthesis and an equals
sign calls nothing and assigns nothing. All that its evaluation does to the
world is to give cells to integers that it goes on from, and these cells are
new each time. So the outcome must not depend on them: it is the same in a
world and in each that extends it.

An outlook says where such an evaluation can stand, and which values it can come
upon. If reading properties has one outcome for each place, then so has every
evaluation.
-/

namespace ObjectConsole

open Line (Form)
open Text (trim)

structure IsReading (text : List Char) : Prop where
  no_call : '(' ∉ text
  no_assignment : '=' ∉ text

theorem IsReading.mono {s t : List Char} (h : IsReading t) (hst : s <:+: t) : IsReading s :=
  ⟨fun hmem => h.no_call (hst.subset hmem), fun hmem => h.no_assignment (hst.subset hmem)⟩

def Line.Form.Reads : Form → Prop
  | .call .. | .assign .. => False
  | _ => True

theorem IsReading.reads {text : List Char} (h : IsReading text) : (Form.ofText text).Reads := by
  rw [Form.ofText]
  split
  · trivial
  · trivial
  · dsimp only
    split
    · trivial
    · next trigger rest hfound =>
        have hmem : trigger.char ∈ text := by
          rw [← Line.scan_text hfound]
          simp
        cases trigger with
        | call => exact absurd hmem h.no_call
        | assign => exact absurd hmem h.no_assignment
        | _ => trivial

theorem IsReading.subtexts {text t : List Char} (h : IsReading text)
    (ht : t ∈ (Form.ofText text).subtexts) : IsReading t :=
  h.mono (Form.infix_of_mem_subtexts ht)

def Outcome.ofExcept (navigates : Bool) : Except Stop Value → Outcome
  | .ok v => .value v navigates
  | .error (.reported e) => .failed e
  | .error (.escaped e) => .ofEscaped e

theorem Outcome.ofResult_eq (navigates : Bool) (r : EStateM.Result Stop World Value) :
    ofResult navigates r = (ofExcept navigates (resultOutcome r), resultWorld r) := by
  cases r with
  | ok v w => rfl
  | error e w => cases e <;> rfl

/-! ### Outlooks -/

/-- Where an evaluation can stand: the context and the world that it may have at
each of some places. And the values that it can come upon. -/
structure Outlook where
  Place : Type
  Stands : Place → Value → World → Prop
  Known : Value → Prop

structure OnlyAdds {α : Type} (out : Except Stop α) (w : World)
    (run : EStateM.Result Stop World α) : Prop where
  outcome : resultOutcome run = out
  grows : w.Extends (resultWorld run)
  prints : (resultWorld run).printed = w.printed

/-- What is done with the context of a place has one outcome wherever an evaluation
stands there, of the stated kind if it is a value. -/
def Outlook.Steady (O : Outlook) {α : Type} (p : O.Place) (x : Value → Eval α) (Q : α → Prop) :
    Prop :=
  ∃ out : Except Stop α, (∀ a, out = .ok a → Q a) ∧
    ∀ v w, O.Stands p v w → OnlyAdds out w (x v w)

structure Outlook.Lawful (O : Outlook) (cat : Catalog) : Prop where
  grow {p v w w'} : O.Stands p v w → w.Extends w' → O.Stands p v w'
  scalar (s : Literal.Scalar) : O.Known s.value
  read (p label) : O.Steady p (fun v => cat.readProperty v label) O.Known
  face (p) : ∃ (null : Bool) (className : String) (found : String → Option PropertyInfo),
    ∀ v w, O.Stands p v w → v.isNull = null ∧ w.className v = className ∧
      ∀ label, cat.findProperty? w v label = found label
  sequence (p) : (∀ v w, O.Stands p v w → w.items? v = none) ∨
    ∃ u, O.Known u ∧ ∀ v w, O.Stands p v w → v = u
  known {u} : O.Known u → ∃ items className, (∀ xs, items = some xs → ∀ x ∈ xs, O.Known x) ∧
    ∀ p v w, O.Stands p v w → w.items? u = items ∧ w.className u = className
  enter {u} : O.Known u → ∃ p, ∀ q v w, O.Stands q v w → O.Stands p (w.adopt u).1 (w.adopt u).2

namespace Catalog

def itemOf (items : List Value) (className : String) : Option Int → Eval Value
  | none => Eval.fail (.indexNotInteger className)
  | some i =>
    match (if i < 0 then none else items[i.toNat]?) with
    | some item => return item
    | none =>
      match integerText i with
      | .ok shown => Eval.fail (.indexOutOfRange shown items.length)
      | .error e => Eval.escape e

theorem itemAt_apply (sequence index : Value) (w : World) :
    itemAt sequence index w =
      itemOf ((w.items? sequence).getD []) (w.className index) index.asInt? w := by
  rw [itemAt, Eval.get_bind_apply]
  cases index.asInt? <;> rfl

end Catalog

namespace Outlook

variable {O : Outlook} {cat : Catalog} {α β : Type} {p : O.Place}

theorem steady_pure {Q : α → Prop} {a : α} (ha : Q a) : O.Steady p (fun _ => pure a) Q :=
  ⟨.ok a, fun _ hb => Except.ok.inj hb ▸ ha, fun _ w _ => ⟨rfl, .refl w, rfl⟩⟩

theorem steady_throw {Q : α → Prop} (e : Stop) : O.Steady p (fun _ => (throw e : Eval α)) Q :=
  ⟨.error e, by simp, fun _ w _ => ⟨rfl, .refl w, rfl⟩⟩

theorem steady_fail {Q : α → Prop} (e : ConsoleError) :
    O.Steady p (fun _ => (Eval.fail e : Eval α)) Q := steady_throw _

/-- What is steady does not have to be looked at where nothing stands. -/
theorem steady_congr {Q : α → Prop} {x y : Value → Eval α} (hy : O.Steady p y Q)
    (h : ∀ v w, O.Stands p v w → x v w = y v w) : O.Steady p x Q := by
  obtain ⟨out, hQ, hrun⟩ := hy
  exact ⟨out, hQ, fun v w hv => h v w hv ▸ hrun v w hv⟩

theorem steady_bind (hO : O.Lawful cat) {P : α → Prop} {Q : β → Prop} {x : Value → Eval α}
    {f : Value → α → Eval β} (hx : O.Steady p x P)
    (hf : ∀ a, P a → O.Steady p (fun v => f v a) Q) : O.Steady p (fun v => x v >>= f v) Q := by
  obtain ⟨out, hP, hx⟩ := hx
  cases out with
  | error e =>
      refine ⟨.error e, by simp, fun v w hv => ?_⟩
      have hrun := hx v w hv
      change OnlyAdds _ _ ((x v >>= f v) w)
      rw [Eval.bind_apply]
      cases hxw : x v w with
      | ok a w' => rw [hxw] at hrun; cases hrun.outcome
      | error e' w' =>
          rw [hxw] at hrun
          exact ⟨congrArg Except.error (Except.error.inj hrun.outcome), hrun.grows, hrun.prints⟩
  | ok a =>
      obtain ⟨out, hQ, hf⟩ := hf a (hP a rfl)
      refine ⟨out, hQ, fun v w hv => ?_⟩
      have hrun := hx v w hv
      change OnlyAdds _ _ ((x v >>= f v) w)
      rw [Eval.bind_apply]
      cases hxw : x v w with
      | error e w' => rw [hxw] at hrun; cases hrun.outcome
      | ok a' w' =>
          rw [hxw] at hrun
          obtain rfl : a' = a := Except.ok.inj hrun.outcome
          have hnext := hf v w' (hO.grow hv hrun.grows)
          exact ⟨hnext.outcome, hrun.grows.trans hnext.grows, hnext.prints.trans hrun.prints⟩

theorem steady_bracketed (parts : Except Line.BracketError α) :
    O.Steady p (fun _ => Catalog.bracketed parts) fun a => parts = .ok a := by
  cases parts with
  | ok a => exact steady_pure rfl
  | error e => exact steady_fail _

def Settles (O : Outlook) (recur : Value → List Char → Eval Value) (texts : List Char → Prop) :
    Prop :=
  ∀ p text, texts text → O.Steady p (fun v => recur v text) O.Known

section Forms

variable (hO : O.Lawful cat) {recur : Value → List Char → Eval Value}

include hO

theorem steady_goOn {rest : List Char} (hrecur : O.Settles recur (· <:+: rest)) {u : Value}
    (hu : O.Known u) : O.Steady p (fun _ => Catalog.goOn recur rest u) O.Known := by
  obtain ⟨q, henter⟩ := hO.enter hu
  obtain ⟨out, hknown, hrun⟩ := hrecur q rest List.infix_rfl
  refine ⟨out, hknown, fun v w hv => ?_⟩
  have hnext := hrun _ _ (henter p v w hv)
  exact ⟨hnext.outcome, (w.extends_adopt u).trans hnext.grows,
    hnext.prints.trans (w.printed_adopt u)⟩

theorem steady_continueChain {rest : List Char} (hrecur : O.Settles recur (· <:+: rest))
    {u : Value} (hu : O.Known u) :
    O.Steady p (fun _ => Catalog.continueChain recur rest u) O.Known := by
  have hinfix : Line.dropPoint (trim rest) <:+: rest :=
    (Line.infix_dropPoint _).trans (Text.infix_trim rest)
  simp only [Catalog.continueChain]
  split
  · exact steady_pure hu
  · exact steady_goOn hO (fun q t ht => hrecur q t (ht.trans hinfix)) hu

theorem steady_lookupWord (word : List Char) :
    O.Steady p (fun v => cat.lookupWord v word) O.Known := by
  obtain ⟨_, className, found, hface⟩ := hO.face p
  have hmissing : O.Steady p (fun _ => Eval.fail
      (.memberNotFound className .member (String.ofList word))) O.Known := steady_fail _
  cases hfound : found (String.ofList (trim word)) with
  | none =>
      refine steady_congr hmissing fun v w hv => ?_
      obtain ⟨-, hname, hfind⟩ := hface v w hv
      rw [Catalog.lookupWord, Eval.get_bind_apply]
      simp only [hfind, hfound, hname]
  | some info =>
      cases hreadable : info.readable with
      | false =>
          refine steady_congr hmissing fun v w hv => ?_
          obtain ⟨-, hname, hfind⟩ := hface v w hv
          rw [Catalog.lookupWord, Eval.get_bind_apply]
          simp only [hfind, hfound, hname, hreadable]
          rfl
      | true =>
          refine steady_congr (hO.read p (String.ofList (trim word))) fun v w hv => ?_
          obtain ⟨-, -, hfind⟩ := hface v w hv
          rw [Catalog.lookupWord, Eval.get_bind_apply]
          simp only [hfind, hfound, hreadable]
          rfl

theorem steady_indexed (name : List Char) :
    O.Steady p (fun v => cat.indexed v name) O.Known := by
  have hproperty : O.Steady p (fun v => do
      let value ← cat.readProperty v (String.ofList name)
      if ((← get).items? value).isSome then return value
      else Eval.fail (.notSequence (String.ofList name))) O.Known := by
    refine steady_bind hO (hO.read p _) fun u hu => ?_
    obtain ⟨items, _, -, hseen⟩ := hO.known hu
    cases hitems : items.isSome with
    | true =>
        refine steady_congr (steady_pure hu) fun v w hv => ?_
        rw [Eval.get_bind_apply, (hseen p v w hv).1, hitems]
        rfl
    | false =>
        refine steady_congr (steady_fail (.notSequence (String.ofList name))) fun v w hv => ?_
        rw [Eval.get_bind_apply, (hseen p v w hv).1, hitems]
        rfl
  rcases hO.sequence p with hnone | ⟨u, hu, hself⟩
  · refine steady_congr hproperty fun v w hv => ?_
    rw [Catalog.indexed, Eval.get_bind_apply, hnone v w hv]
    simp
  · obtain ⟨items, _, -, hseen⟩ := hO.known hu
    cases hhere : name.isEmpty && items.isSome with
    | true =>
        refine steady_congr (steady_pure hu) fun v w hv => ?_
        obtain rfl := hself v w hv
        rw [Catalog.indexed, Eval.get_bind_apply, (hseen p v w hv).1, hhere]
        rfl
    | false =>
        refine steady_congr hproperty fun v w hv => ?_
        obtain rfl := hself v w hv
        rw [Catalog.indexed, Eval.get_bind_apply, (hseen p v w hv).1, hhere]
        rfl

theorem steady_itemAt {sequence index : Value} (hs : O.Known sequence) (hi : O.Known index) :
    O.Steady p (fun _ => Catalog.itemAt sequence index) O.Known := by
  obtain ⟨items, _, hitems, hseen⟩ := hO.known hs
  obtain ⟨_, className, -, hname⟩ := hO.known hi
  have hrun : O.Steady p (fun _ => Catalog.itemOf (items.getD []) className index.asInt?)
      O.Known := by
    unfold Catalog.itemOf
    split
    · exact steady_fail _
    split
    · next item hitem =>
        split at hitem
        · exact nomatch hitem
        refine steady_pure ?_
        cases items with
        | none => exact absurd hitem (by simp)
        | some xs => exact hitems xs rfl item (List.mem_of_getElem? hitem)
    · split
      · exact steady_fail _
      · exact steady_throw _
  refine steady_congr hrun fun v w hv => ?_
  rw [Catalog.itemAt_apply, (hseen p v w hv).1, (hname p v w hv).2]

/-- A form without a call and an assignment passes on that its texts are steady. -/
theorem steady_evalForm {form : Form} (hreads : form.Reads)
    (hrecur : ∀ s ∈ form.subtexts, O.Settles recur (· <:+: s)) :
    O.Steady p (fun v => cat.evalForm recur v form) O.Known := by
  cases form with
  | scalar s => exact steady_pure (hO.scalar s)
  | overlong digits => exact steady_throw _
  | word text => exact steady_lookupWord hO text
  | member name rest =>
      refine steady_bind hO (hO.read p _) fun u hu => ?_
      exact steady_goOn hO (hrecur rest (by simp [Form.subtexts])) hu
  | index name parts =>
      refine steady_bind hO (steady_indexed hO name) fun sequence hs => ?_
      refine steady_bind hO (steady_bracketed parts) fun q hq => ?_
      subst hq
      have hinside := hrecur q.1 (by simp [Form.subtexts]) p q.1 List.infix_rfl
      refine steady_bind hO hinside fun index hi => ?_
      refine steady_bind hO (steady_itemAt hO hs hi) fun item hitem => ?_
      exact steady_continueChain hO (hrecur q.2 (by simp [Form.subtexts])) hitem
  | call name parts => exact hreads.elim
  | assign name right => exact hreads.elim

end Forms

theorem steady_guarded (hO : O.Lawful cat) {x : Value → Eval Value} (hx : O.Steady p x O.Known) :
    O.Steady p (fun v => if v.isNull then Eval.fail .nullContext else x v) O.Known := by
  obtain ⟨null, _, _, hface⟩ := hO.face p
  cases null with
  | true =>
      refine steady_congr (steady_fail .nullContext) fun v w hv => ?_
      rw [(hface v w hv).1]
      rfl
  | false =>
      refine steady_congr hx fun v w hv => ?_
      rw [(hface v w hv).1]
      rfl

/-- A text that only reads is steady, at any bound on nesting. -/
theorem Lawful.steady_evalExpr (hO : O.Lawful cat) (levels : Nat) {text : List Char}
    (htext : IsReading text) : O.Steady p (fun v => cat.evalExpr levels v text) O.Known := by
  induction levels generalizing p text with
  | zero => exact steady_fail _
  | succ levels ih =>
      have hexpr : IsReading (Line.dropPoint (trim text)) :=
        htext.mono ((Line.infix_dropPoint _).trans (Text.infix_trim text))
      simp only [Catalog.evalExpr]
      split
      · exact steady_fail _
      · exact steady_guarded hO (steady_evalForm hO hexpr.reads fun s hs q t ht =>
          ih ((hexpr.subtexts hs).mono ht))

theorem Lawful.steady_evalLine (hO : O.Lawful cat) {text : List Char} (htext : IsReading text) :
    O.Steady p (fun v => cat.evalLine v (trim text)) O.Known := by
  have hexpr : IsReading (Line.dropPoint ((Catalog.navigation? (trim text)).getD (trim text))) :=
    htext.mono ((Line.infix_dropPoint _).trans (Catalog.infix_navigated text))
  simp only [Catalog.evalLine]
  exact steady_guarded hO (steady_evalForm hO hexpr.reads fun s hs q t ht =>
    hO.steady_evalExpr _ ((hexpr.subtexts hs).mono ht))

/-- A line that only reads has one outcome wherever an evaluation stands at the
place, and only adds to the world. -/
theorem Lawful.steady_evaluate (hO : O.Lawful cat) (p : O.Place) {text : List Char}
    (htext : IsReading text) :
    ∃ outcome, ∀ v w, O.Stands p v w → (cat.evaluate text v w).1 = outcome ∧
      w.Extends (cat.evaluate text v w).2 ∧ (cat.evaluate text v w).2.printed = w.printed := by
  by_cases hblank : Text.Blanks text
  · refine ⟨.blank, fun v w _ => ?_⟩
    rw [Catalog.evaluate, if_pos (Catalog.isEmpty_trim_iff.2 hblank)]
    exact ⟨rfl, .refl w, rfl⟩
  · obtain ⟨out, -, hrun⟩ := hO.steady_evalLine (p := p) htext
    refine ⟨.ofExcept (isNavigation text) out, fun v w hv => ?_⟩
    obtain ⟨houtcome, hgrows, hprints⟩ := hrun v w hv
    rw [cat.evaluate_of_not_blank hblank, Outcome.ofResult_eq]
    exact ⟨congrArg (Outcome.ofExcept _) houtcome, hgrows, hprints⟩

end Outlook

end ObjectConsole
