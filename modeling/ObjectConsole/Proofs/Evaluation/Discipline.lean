import ObjectConsole.Proofs.Coercion.Arms
import ObjectConsole.Proofs.Evaluation.Comparison
import ObjectConsole.Proofs.Line.Subtext
import ObjectConsole.Proofs.World.Graph

/-!
Disciplines. What an expression may do to the world is argued about once, for
every property of this kind. A discipline says which worlds may come up while
an expression is evaluated against a context, and which values the evaluation
may get hold of there. Its laws speak of single changes: of a new cell, of a
changed list, and of the step from a context to a value that was found, whose
own evaluations begin in the world of that moment. If the operations on
members keep to a discipline, then every expression does.
-/

namespace ObjectConsole

open Line (Form HoldsOverlong)

/-- What stands behind the marker of a navigation stands in the line. -/
theorem Catalog.infix_navigated (text : List Char) :
    (navigation? (Text.trim text)).getD (Text.trim text) <:+: text := by
  rw [navigation?]
  split
  · exact ((Text.suffix_trimLeft _).trans (List.drop_suffix ..)).isInfix.trans
      (Text.infix_trim text)
  · exact Text.infix_trim text

/-- A visit to a value: the value is the context, and the work on it began in
the world `start`. -/
structure Visit where
  context : Value
  start : World

/-- A discipline for the work on a context. `holds f w` says that the world `w`
may come up on the visit `f`, and `knows f w v` that the visit may have got
hold of the value `v` there. -/
structure Discipline where
  holds : Visit → World → Prop
  knows : Visit → World → Value → Prop

namespace Discipline

variable (D : Discipline) {ε α β : Type} {f : Visit} {w w' : World}

structure Leads (f : Visit) (w w' : World) : Prop where
  holds : D.holds f w'
  keeps : ∀ v, D.knows f w v → D.knows f w' v

variable {D}

theorem Leads.refl (h : D.holds f w) : D.Leads f w w := ⟨h, fun _ h => h⟩

theorem Leads.trans {w'' : World} (h : D.Leads f w w') (h' : D.Leads f w' w'') :
    D.Leads f w w'' :=
  ⟨h'.holds, fun v hv => h'.keeps v (h.keeps v hv)⟩

variable (D)

/-- Code that keeps to a discipline where it runs in the world `w`: it leads on
from there, its errors are of the kind `E`, and its result satisfies `Q`. -/
def Keeps (f : Visit) (E : ε → Prop) (Q : World → α → Prop) (x : EStateM ε World α)
    (w : World) : Prop :=
  match x w with
  | .ok a w' => D.Leads f w w' ∧ Q w' a
  | .error e w' => D.Leads f w w' ∧ E e

variable {D} {E : ε → Prop} {Q Q' : World → α → Prop} {x : EStateM ε World α}

theorem keeps_pure {a : α} (h : D.holds f w) (ha : Q w a) : D.Keeps f E Q (pure a) w :=
  ⟨.refl h, ha⟩

theorem keeps_throw {e : ε} (h : D.holds f w) (he : E e) : D.Keeps f E Q (throw e) w :=
  ⟨.refl h, he⟩

theorem keeps_modify {φ : World → World} {Q : World → PUnit → Prop} (h : D.Leads f w (φ w))
    (hQ : Q (φ w) ⟨⟩) : D.Keeps f E Q (modify φ) w :=
  ⟨h, hQ⟩

theorem keeps_set {Q : World → PUnit → Prop} (h : D.Leads f w w') (hQ : Q w' ⟨⟩) :
    D.Keeps f E Q (set w') w :=
  ⟨h, hQ⟩

theorem keeps_get_bind {g : World → EStateM ε World α} (h : D.Keeps f E Q (g w) w) :
    D.Keeps f E Q (get >>= g) w :=
  h

theorem Keeps.bind {P : World → β → Prop} {y : EStateM ε World β} {g : β → EStateM ε World α}
    (hy : D.Keeps f E P y w)
    (hg : ∀ b w', D.Leads f w w' → P w' b → D.Keeps f E Q (g b) w') :
    D.Keeps f E Q (y >>= g) w := by
  have hbind : (y >>= g) w = match y w with
      | .ok b w' => g b w'
      | .error e w' => .error e w' := by
    change EStateM.bind y g w = _
    rw [EStateM.bind]
    cases y w <;> rfl
  rw [Keeps, hbind]
  rw [Keeps] at hy
  cases hyw : y w with
  | error e w' => rw [hyw] at hy; exact hy
  | ok b w' =>
      rw [hyw] at hy
      have h := hg b w' hy.1 hy.2
      simp only [Keeps] at h ⊢
      cases hgw : g b w' with
      | error e w'' => rw [hgw] at h; exact ⟨hy.1.trans h.1, h.2⟩
      | ok a w'' => rw [hgw] at h; exact ⟨hy.1.trans h.1, h.2⟩

theorem Keeps.imp (h : D.Keeps f E Q x w)
    (hQ : ∀ a w', D.Leads f w w' → Q w' a → Q' w' a) : D.Keeps f E Q' x w := by
  rw [Keeps] at h ⊢
  cases hx : x w with
  | error e w' => rw [hx] at h; exact h
  | ok a w' => rw [hx] at h; exact ⟨h.1, hQ a w' h.1 h.2⟩

/-- Steps for each of several values keep to a discipline in a row. -/
theorem keeps_mapM {γ : Type} {g : γ → EStateM ε World Value} (as : List γ) (h : D.holds f w)
    (hg : ∀ a ∈ as, ∀ w', D.Leads f w w' → D.Keeps f E (D.knows f) (g a) w') :
    D.Keeps f E (fun w' vs => ∀ v ∈ vs, D.knows f w' v) (as.mapM g) w := by
  induction as generalizing w with
  | nil => exact keeps_pure h (by simp)
  | cons a as ih =>
      rw [List.mapM_cons]
      refine (hg a (List.mem_cons_self ..) w (.refl h)).bind fun v w' hw' hv => ?_
      refine (ih hw'.holds fun b hb w'' hw'' =>
        hg b (List.mem_cons_of_mem _ hb) w'' (hw'.trans hw'')).bind fun vs w'' hw'' hvs => ?_
      refine keeps_pure hw''.holds ?_
      intro u hu
      rcases List.mem_cons.1 hu with rfl | hu
      · exact hw''.keeps u hv
      · exact hvs u hu

theorem keeps_fail {E : Stop → Prop} {e : ConsoleError} (h : D.holds f w)
    (he : E (.reported e)) : D.Keeps f E Q (Eval.fail e) w :=
  keeps_throw h he

/-- Every error that a single step may end with is allowed: all that are reported
but that of the bound on nesting, which no step meets by itself, and those that
are raised over values. -/
structure AllowsSteps (E : Stop → Prop) : Prop where
  reported : ∀ e, e ≠ .nestedTooDeeply → E (.reported e)
  raised : ∀ e, IsValueError e → E (.escaped e)

/-- Code of a member runs under the name of the member, which its errors are
reported under. -/
theorem Keeps.invoke {E : Stop → Prop} {act : Act α} {name : String}
    (h : D.Keeps f (fun _ => True) Q act w) (hE : AllowsSteps E) :
    D.Keeps f E Q (Eval.invoke name act) w := by
  simp only [Keeps, Eval.invoke] at h ⊢
  cases hact : act w with
  | error e w' => rw [hact] at h; exact ⟨h.1, hE.reported _ (by simp)⟩
  | ok a w' => rw [hact] at h; exact h

/-! ### Laws -/

variable (D)

/-- The laws of a discipline: what a visit knows from the start, what it finds
out by looking into a value, and which changes it may make. -/
structure Lawful (cat : Catalog) : Prop where
  plain {f w v} : D.holds f w → v.isPlain = true → D.knows f w v
  choice {f w cls member} : D.holds f w → ((cat.find cls).choices.lookup member).isSome →
    D.knows f w (.choice cls member)
  tuple {f w vs} : D.holds f w → (∀ v ∈ vs, D.knows f w v) → D.knows f w (.tuple vs)
  contents {f w u v} : D.holds f w → (v = f.context ∨ D.knows f w v) → u ∈ w.contents v →
    D.knows f w u
  adopt {f w v} : D.holds f w → D.knows f w v →
    D.Leads f w (w.adopt v).2 ∧ D.knows f (w.adopt v).2 (w.adopt v).1
  /-- A visit may go on to the context again, or to a value that it knows. -/
  enter {f w v} : D.holds f w → (v = f.context ∨ D.knows f w v) → D.holds ⟨v, w⟩ w
  /-- What a visit to a value leads to and gets to know, the visit that it
  started from leads to and gets to know, too. -/
  leave {f w w' v} : D.holds f w → (v = f.context ∨ D.knows f w v) →
    D.Leads ⟨v, w⟩ w w' → D.Leads f w w' ∧ ∀ u, D.knows ⟨v, w⟩ w' u → D.knows f w' u

structure Access (cat : Catalog) (E : Stop → Prop) : Prop where
  read {f w label} : D.holds f w →
    D.Keeps f E (D.knows f) (cat.readProperty f.context label) w
  write {f w label v} : D.holds f w → D.knows f w v →
    D.Keeps f E (D.knows f) (cat.writeProperty f.context label v) w
  call {f w label args} : D.holds f w → (∀ v ∈ args, D.knows f w v) →
    D.Keeps f E (D.knows f) (cat.callMethod f.context label args) w

theorem allowsSteps_all : AllowsSteps fun _ => True := ⟨fun _ _ => trivial, fun _ _ => trivial⟩

/-- Errors that a text may give rise to: all that are reported, those that are
raised over values, and runs of digits in the text that are too long. -/
structure Allows (E : Stop → Prop) (text : List Char) : Prop where
  reported : ∀ e, E (.reported e)
  raised : ∀ e, IsValueError e → E (.escaped e)
  overlong : ∀ digits, HoldsOverlong text digits → E (.escaped (overlongError digits))

theorem Allows.mono {E : Stop → Prop} {s t : List Char} (h : Allows E t) (hst : s <:+: t) :
    Allows E s :=
  ⟨h.reported, h.raised, fun digits hd => h.overlong digits (hd.mono hst)⟩

theorem Allows.steps {E : Stop → Prop} {text : List Char} (h : Allows E text) : AllowsSteps E :=
  ⟨fun e _ => h.reported e, h.raised⟩

/-- Every text is within what is asked of nothing. -/
theorem allows_all (text : List Char) : Allows (fun _ => True) text :=
  ⟨fun _ => trivial, fun _ _ => trivial, fun _ _ => trivial⟩

variable {D} {cat : Catalog} {E : Stop → Prop}

/-! ### Evaluation -/

theorem Lawful.keeps_adopt (hD : D.Lawful cat) {v : Value} (h : D.holds f w)
    (hv : D.knows f w v) : D.Keeps f E (D.knows f) (Catalog.adopt v) w :=
  ⟨(hD.adopt h hv).1, (hD.adopt h hv).2⟩

/-- Work on a visit to a known value is work on the visit that knows it. -/
theorem Lawful.keeps_of_visit (hD : D.Lawful cat) {v : Value} (h : D.holds f w)
    (hv : v = f.context ∨ D.knows f w v) {x : EStateM ε World Value} {E : ε → Prop}
    (hx : D.holds ⟨v, w⟩ w → D.Keeps ⟨v, w⟩ E (D.knows ⟨v, w⟩) x w) :
    D.Keeps f E (D.knows f) x w := by
  have hvisit := hx (hD.enter h hv)
  rw [Keeps] at hvisit ⊢
  cases hxw : x w with
  | error e w' =>
      rw [hxw] at hvisit
      exact ⟨(hD.leave h hv hvisit.1).1, hvisit.2⟩
  | ok a w' =>
      rw [hxw] at hvisit
      obtain ⟨hleads, hknows⟩ := hD.leave h hv hvisit.1
      exact ⟨hleads, hknows a hvisit.2⟩

def Evaluates (D : Discipline) (E : Stop → Prop) (recur : Value → List Char → Eval Value)
    (texts : List Char → Prop) : Prop :=
  ∀ f w text, texts text → D.holds f w →
    D.Keeps f E (D.knows f) (recur f.context text) w

section Forms

variable {recur : Value → List Char → Eval Value} {rest : List Char} {v : Value}

theorem Lawful.keeps_goOn (hD : D.Lawful cat) (hrecur : D.Evaluates E recur (· <:+: rest))
    (h : D.holds f w) (hv : D.knows f w v) :
    D.Keeps f E (D.knows f) (Catalog.goOn recur rest v) w := by
  rw [Catalog.goOn]
  refine (hD.keeps_adopt h hv).bind fun u w' hw' hu => ?_
  exact hD.keeps_of_visit hw'.holds (.inr hu) fun hvisit =>
    hrecur ⟨u, w'⟩ w' rest List.infix_rfl hvisit

theorem Lawful.keeps_continueChain (hD : D.Lawful cat)
    (hrecur : D.Evaluates E recur (· <:+: rest)) (h : D.holds f w) (hv : D.knows f w v) :
    D.Keeps f E (D.knows f) (Catalog.continueChain recur rest v) w := by
  simp only [Catalog.continueChain]
  have hinfix : Line.dropPoint (Text.trim rest) <:+: rest :=
    (Line.infix_dropPoint _).trans (Text.infix_trim rest)
  split
  · exact keeps_pure h hv
  · exact hD.keeps_goOn (fun f w t ht => hrecur f w t (ht.trans hinfix)) h hv

theorem Access.keeps_lookupWord (hA : D.Access cat E) (hE : AllowsSteps E)
    (h : D.holds f w) (word : List Char) :
    D.Keeps f E (D.knows f) (cat.lookupWord f.context word) w := by
  rw [Catalog.lookupWord]
  refine keeps_get_bind ?_
  dsimp only
  split
  · split
    · exact hA.read h
    · exact keeps_fail h (hE.reported _ (by simp))
  · exact keeps_fail h (hE.reported _ (by simp))

theorem Access.keeps_indexed (hA : D.Access cat E) (hE : AllowsSteps E)
    (h : D.holds f w) (name : List Char) :
    D.Keeps f E (fun w v => v = f.context ∨ D.knows f w v) (cat.indexed f.context name) w := by
  rw [Catalog.indexed]
  refine keeps_get_bind ?_
  split
  · exact keeps_pure h (.inl rfl)
  · refine (hA.read h).bind fun u w' hw' hu => keeps_get_bind ?_
    split
    · exact keeps_pure hw'.holds (.inr hu)
    · exact keeps_fail hw'.holds (hE.reported _ (by simp))

theorem Lawful.keeps_itemAt (hD : D.Lawful cat) (hE : AllowsSteps E) (h : D.holds f w)
    {sequence : Value} (hs : sequence = f.context ∨ D.knows f w sequence) (index : Value) :
    D.Keeps f E (D.knows f) (Catalog.itemAt sequence index) w := by
  rw [Catalog.itemAt]
  refine keeps_get_bind ?_
  dsimp only
  split
  · exact keeps_fail h (hE.reported _ (by simp))
  next i _ =>
  split
  · next item hitem =>
      split at hitem
      · exact absurd hitem (by simp)
      refine keeps_pure h (hD.contents h hs ?_)
      cases hitems : w.items? sequence with
      | none => rw [hitems] at hitem; exact absurd hitem (by simp)
      | some items =>
          rw [hitems] at hitem
          rw [World.contents_of_items hitems]
          exact List.mem_of_getElem? hitem
  · split
    · exact keeps_fail h (hE.reported _ (by simp))
    · next e he => exact keeps_throw h (hE.raised e (.inl (errsIn_integerText i e he)))

theorem keeps_bracketed {P : α → Prop} (hE : AllowsSteps E) (h : D.holds f w)
    {parts : Except Line.BracketError α} (hparts : ∀ a, parts = .ok a → P a) :
    D.Keeps f E (fun _ a => P a) (Catalog.bracketed parts) w := by
  cases parts with
  | ok a => exact keeps_pure h (hparts a rfl)
  | error e => exact keeps_fail h (hE.reported _ (by simp))

theorem isPlain_scalar (s : Literal.Scalar) : s.value.isPlain = true := by
  cases s <;> rfl

/-- A form passes on what holds of the texts in it. -/
theorem Lawful.keeps_evalForm (hD : D.Lawful cat) (hA : D.Access cat E)
    (hE : AllowsSteps E) {form : Form}
    (hover : ∀ digits, form = .overlong digits → E (.escaped (overlongError digits)))
    (hrecur : ∀ s ∈ form.subtexts, D.Evaluates E recur (· <:+: s)) (h : D.holds f w) :
    D.Keeps f E (D.knows f) (cat.evalForm recur f.context form) w := by
  cases form with
  | scalar s => exact keeps_pure h (hD.plain h (isPlain_scalar s))
  | overlong digits => exact keeps_throw h (hover digits rfl)
  | word text => exact hA.keeps_lookupWord hE h text
  | member name rest =>
      refine (hA.read h).bind fun v w' hw' hv => ?_
      exact hD.keeps_goOn (hrecur rest (by simp [Form.subtexts])) hw'.holds hv
  | call name parts =>
      simp only [Catalog.evalForm, Eval.fail_bind]
      split
      · exact keeps_fail h (hE.reported _ (by simp))
      refine (keeps_bracketed (P := fun p => parts = .ok p) hE h fun _ hp => hp).bind
        fun p w₁ hw₁ hp => ?_
      subst hp
      have hargs : ∀ a ∈ p.1, ∀ w', D.Leads f w₁ w' →
          D.Keeps f E (D.knows f) (recur f.context a) w' := fun a ha w' hw' =>
        hrecur a (by simp [Form.subtexts, ha]) f w' a List.infix_rfl hw'.holds
      refine (keeps_mapM p.1 hw₁.holds hargs).bind fun args w₂ hw₂ hknown => ?_
      refine (hA.call hw₂.holds hknown).bind fun v w₃ hw₃ hv => ?_
      exact hD.keeps_continueChain (hrecur p.2 (by simp [Form.subtexts])) hw₃.holds hv
  | index name parts =>
      simp only [Catalog.evalForm]
      refine (hA.keeps_indexed hE h name).bind fun sequence w₁ hw₁ hs => ?_
      refine (keeps_bracketed (P := fun p => parts = .ok p) hE hw₁.holds fun _ hp => hp).bind
        fun p w₂ hw₂ hp => ?_
      subst hp
      have hinside := hrecur p.1 (by simp [Form.subtexts]) f w₂ p.1 List.infix_rfl hw₂.holds
      refine hinside.bind fun index w₃ hw₃ _ => ?_
      have hs₃ : sequence = f.context ∨ D.knows f w₃ sequence :=
        hs.imp_right fun hs => hw₃.keeps _ (hw₂.keeps _ hs)
      refine (hD.keeps_itemAt hE hw₃.holds hs₃ index).bind fun item w₄ hw₄ hitem => ?_
      exact hD.keeps_continueChain (hrecur p.2 (by simp [Form.subtexts])) hw₄.holds hitem
  | assign name right =>
      simp only [Catalog.evalForm, Eval.fail_bind]
      split
      · exact keeps_fail h (hE.reported _ (by simp))
      refine keeps_get_bind ?_
      split
      · split
        · exact keeps_fail h (hE.reported _ (by simp))
        · have hright := hrecur right (by simp [Form.subtexts]) f w right List.infix_rfl h
          exact hright.bind fun v w' hw' hv => hA.write hw'.holds hv
      · exact keeps_fail h (hE.reported _ (by simp))

end Forms

/-- Every expression keeps to a discipline that the operations on members keep
to, at any bound on nesting. -/
theorem Lawful.keeps_evalExpr (hD : D.Lawful cat) (hA : D.Access cat E) (levels : Nat)
    {text : List Char} (hE : Allows E text) (h : D.holds f w) :
    D.Keeps f E (D.knows f) (cat.evalExpr levels f.context text) w := by
  induction levels generalizing f w text with
  | zero => exact keeps_fail h (hE.reported _)
  | succ levels ih =>
      have hinfix : Line.dropPoint (Text.trim text) <:+: text :=
        (Line.infix_dropPoint _).trans (Text.infix_trim text)
      rw [Catalog.evalExpr]
      split
      · exact keeps_fail h (hE.reported _)
      split
      · exact keeps_fail h (hE.reported _)
      · refine hD.keeps_evalForm hA hE.steps ?_ ?_ h
        · intro digits hform
          exact hE.overlong digits ((Form.holdsOverlong hform).mono hinfix)
        · intro s hs f w t ht hw
          exact ih (hE.mono (ht.trans ((Form.infix_of_mem_subtexts hs).trans hinfix))) hw

/-- A line that is not blank is evaluated like an expression. -/
theorem Lawful.keeps_evalLine (hD : D.Lawful cat) (hA : D.Access cat E) {text : List Char}
    (hE : Allows E text) (h : D.holds f w) :
    D.Keeps f E (D.knows f) (cat.evalLine f.context (Text.trim text)) w := by
  have hinfix := (Line.infix_dropPoint _).trans (Catalog.infix_navigated text)
  rw [Catalog.evalLine]
  split
  · exact keeps_fail h (hE.reported _)
  · refine hD.keeps_evalForm hA hE.steps ?_ ?_ h
    · intro digits hform
      exact hE.overlong digits ((Form.holdsOverlong hform).mono hinfix)
    · intro s hs f w t ht hw
      exact hD.keeps_evalExpr hA _
        (hE.mono (ht.trans ((Form.infix_of_mem_subtexts hs).trans hinfix))) hw

def AllowsOutcome (D : Discipline) (f : Visit) (E : Stop → Prop) (w : World) : Outcome → Prop
  | .value v _ => D.knows f w v
  | .escaped e => E (.escaped e) ∧ e.isTooDeep = false
  | _ => True

/-- Every line keeps to a discipline that the operations on members keep to. -/
theorem Lawful.evaluate (hD : D.Lawful cat) (hA : D.Access cat E) {text : List Char}
    (hE : Allows E text) (h : D.holds f w) :
    D.Leads f w (cat.evaluate text f.context w).2 ∧
      D.AllowsOutcome f E (cat.evaluate text f.context w).2
        (cat.evaluate text f.context w).1 := by
  have hline := hD.keeps_evalLine hA hE h
  rw [Catalog.evaluate]
  rw [Keeps] at hline
  split
  · exact ⟨.refl h, trivial⟩
  · cases hx : cat.evalLine f.context (Text.trim text) w with
    | ok v w' => rw [hx] at hline; exact hline
    | error s w' =>
        rw [hx] at hline
        cases s with
        | reported e => exact ⟨hline.1, trivial⟩
        | escaped e =>
            refine ⟨hline.1, ?_⟩
            dsimp only
            rw [Outcome.ofEscaped]
            split
            · trivial
            · next hdeep => exact ⟨hline.2, by simpa using hdeep⟩

end Discipline

end ObjectConsole
