import ObjectConsole.Proofs.Evaluation.Assignment
import ObjectConsole.Proofs.Evaluation.Escape
import ObjectConsole.Proofs.Session.Visit

/-!
What evaluations do to objects. The evaluator is run once more, clause by clause,
with a log beside the world: a method is noted in it before its code runs, and
a property after a value was stored there. Without the log this is the evaluator
itself.

What effects mean is kept in books, which relate a world, what was noted from
there on, and the world after it. If the operations on members keep the
books, then so does every evaluation.
-/

namespace ObjectConsole

open Line (Form)

inductive Effect where
  | store (target : Value) (label : String) (value : Value)
  | call (target : Value) (label : String)

namespace Effect

def isCall : Effect → Bool
  | store .. => false
  | call .. => true

def stored? (v : Value) (label : String) : Effect → Option Value
  | store target l u => if v.isSameObject target = true ∧ label = l then some u else none
  | call .. => none

end Effect

def lastStored (effects : List Effect) (v : Value) (label : String) : Option Value :=
  effects.reverse.findSome? (Effect.stored? v label)

theorem lastStored_append (l l' : List Effect) (v : Value) (label : String) :
    lastStored (l ++ l') v label = (lastStored l' v label).or (lastStored l v label) := by
  rw [lastStored, List.reverse_append, List.findSome?_append, lastStored, lastStored]

/-! ### The evaluator with a log -/

abbrev Noting := EStateM Stop (World × List Effect)

namespace Noting

variable {α : Type}

def withLog (log : List Effect) :
    EStateM.Result Stop World α → EStateM.Result Stop (World × List Effect) α
  | .ok a w => .ok a (w, log)
  | .error e w => .error e (w, log)

def quiet (x : Eval α) : Noting α := fun (w, log) => withLog log (x w)

def note (e : Effect) : Noting Unit := modify fun (w, log) => (w, log ++ [e])

variable (cat : Catalog) (recur : Value → List Char → Noting Value)

def goOn (rest : List Char) (value : Value) : Noting Value := do
  recur (← quiet (Catalog.adopt value)) rest

def continueChain (rest : List Char) (value : Value) : Noting Value :=
  let rest := Line.dropPoint (Text.trim rest)
  if Text.isBlankText rest then return value else goOn recur rest value

def callMethod (v : Value) (label : String) (args : List Value) : Noting Value := do
  let (w, _) ← get
  if (cat.resolve w v label args).isOk then note (.call v label)
  quiet (cat.callMethod v label args)

def writeProperty (v : Value) (label : String) (value : Value) : Noting Value := do
  let stored ← quiet (cat.writeProperty v label value)
  note (.store v label stored)
  return stored

def evalForm (context : Value) : Form → Noting Value
  | .scalar s => quiet (pure s.value)
  | .overlong digits => quiet (Eval.escape (overlongError digits))
  | .word word => quiet (cat.lookupWord context word)
  | .member name rest => do
    let value ← quiet (cat.readProperty context (String.ofList name))
    goOn recur rest value
  | .call name parts =>
    if name.isEmpty then quiet (Eval.fail .missingMethodName)
    else do
      let (args, after) ← quiet (Catalog.bracketed parts)
      let args ← args.mapM (recur context)
      let result ← callMethod cat context (String.ofList name) args
      continueChain recur after result
  | .index name parts => do
    let sequence ← quiet (cat.indexed context name)
    let (inside, after) ← quiet (Catalog.bracketed parts)
    let index ← recur context inside
    let item ← quiet (Catalog.itemAt sequence index)
    continueChain recur after item
  | .assign name right =>
    if name.isEmpty then quiet (Eval.fail .missingAssignmentTarget)
    else do
      quiet (cat.requireWritable context (String.ofList name))
      let value ← recur context right
      writeProperty cat context (String.ofList name) value

def evalExpr : Nat → Value → List Char → Noting Value
  | 0, _, _ => quiet (Eval.fail .nestedTooDeeply)
  | levels + 1, context, text =>
    let expr := Text.trim text
    if expr.isEmpty then quiet (Eval.fail .emptyExpression)
    else if context.isNull then quiet (Eval.fail .nullContext)
    else evalForm cat (evalExpr levels) context (Form.ofText (Line.dropPoint expr))

def evalLine (context : Value) (expr : List Char) : Noting Value :=
  if context.isNull then quiet (Eval.fail .nullContext)
  else
    evalForm cat (evalExpr cat cat.limits.expressions) context
      (Form.ofText (Line.dropPoint ((Catalog.navigation? expr).getD expr)))

end Noting

/-- What evaluating a line does to objects. -/
def Catalog.effects (cat : Catalog) (text : List Char) (context : Value) (w : World) :
    List Effect :=
  let expr := Text.trim text
  if expr.isEmpty then []
  else
    match Noting.evalLine cat context expr (w, []) with
    | .ok _ (_, log) | .error _ (_, log) => log

def Session.effects (cat : Catalog) (s : Session) (line : List Char) : List Effect :=
  let text := Text.trim line
  if text = returnCommand then [] else cat.effects text s.stack.current s.world

/-! ### What changes nothing -/

namespace Catalog

variable (cat : Catalog) (w : World) (context : Value)

theorem resultWorld_lookupWord (word : List Char) :
    resultWorld (cat.lookupWord context word w) = w ∨
      ∃ label, resultWorld (cat.lookupWord context word w) =
        resultWorld (cat.readProperty context label w) := by
  rw [lookupWord, Eval.get_bind_apply]
  cases cat.findProperty? w context (String.ofList (Text.trim word)) with
  | none => exact .inl rfl
  | some p =>
      cases hp : p.readable with
      | false =>
          simp only [hp]
          exact .inl rfl
      | true =>
          simp only [hp]
          exact .inr ⟨_, rfl⟩

theorem resultWorld_indexed (name : List Char) :
    resultWorld (cat.indexed context name w) = w ∨
      resultWorld (cat.indexed context name w) =
        resultWorld (cat.readProperty context (String.ofList name) w) := by
  rw [indexed, Eval.get_bind_apply]
  split
  · exact .inl rfl
  · refine .inr ?_
    rw [Eval.bind_apply]
    cases cat.readProperty context (String.ofList name) w with
    | error e w' => rfl
    | ok u w' =>
        dsimp only
        rw [Eval.get_bind_apply]
        cases (w'.items? u).isSome <;> rfl

theorem resultWorld_itemAt (sequence index : Value) :
    resultWorld (itemAt sequence index w) = w := by
  rw [itemAt, Eval.get_bind_apply]
  cases index.asInt? with
  | none => rfl
  | some i =>
      dsimp only
      generalize (if i < 0 then none else ((w.items? sequence).getD [])[i.toNat]?) = found
      cases found with
      | some item => rfl
      | none => cases integerText i <;> rfl

theorem resultWorld_bracketed {α : Type} (parts : Except Line.BracketError α) :
    resultWorld (bracketed parts w) = w := by
  cases parts <;> rfl

end Catalog

/-! ### Books -/

/-- What effects mean: `R w effects w'` relates the world before and after them. The
laws say that the books are kept on work of the discipline. A value that has
been adopted is `ready` to be written to. -/
structure Books (cat : Catalog) (D : Discipline) (R : World → List Effect → World → Prop)
    (ready : Value → Prop) : Prop where
  still (w) : R w [] w
  trans {f w w₁ w₂ l l'} : D.Leads f w w₁ → R w l w₁ → R w₁ l' w₂ → R w (l ++ l') w₂
  adopt {f w v} : D.holds f w → D.knows f w v → R w [] (w.adopt v).2 ∧ ready (w.adopt v).1
  read {f w} (label) : D.holds f w → R w [] (resultWorld (cat.readProperty f.context label w))
  refused {f w label v e w'} : D.holds f w → ready f.context → D.knows f w v →
    cat.writeProperty f.context label v w = .error e w' → R w [] w'
  stored {f w label v u w'} : D.holds f w → ready f.context → D.knows f w v →
    cat.writeProperty f.context label v w = .ok u w' → R w [.store f.context label u] w'
  called {f w label args found} : D.holds f w → (∀ v ∈ args, D.knows f w v) →
    cat.resolve w f.context label args = .ok found →
    R w [.call f.context label] (resultWorld (cat.callMethod f.context label args w))

/-- The evaluation `x` with a log does what `y` does, keeps to the discipline, and
keeps the books. -/
structure Tracks (D : Discipline) (R : World → List Effect → World → Prop) {α : Type}
    (f : Visit) (Q : World → α → Prop) (x : Noting α) (y : Eval α) (w : World) : Prop where
  keeps : D.Keeps f (fun _ => True) Q y w
  notes : ∀ log, ∃ effects, x (w, log) = Noting.withLog (log ++ effects) (y w) ∧
    R w effects (resultWorld (y w))

namespace Books

open Noting (quiet withLog)

variable {cat : Catalog} {D : Discipline} {R : World → List Effect → World → Prop}
  {ready : Value → Prop} {α β : Type} {f : Visit} {w : World}

theorem quiet_apply (x : Eval α) (w : World) (log : List Effect) :
    quiet x (w, log) = withLog log (x w) := rfl

/-- What notes nothing keeps the books if nothing happens. -/
theorem tracks_quiet {Q : World → α → Prop} {y : Eval α}
    (hy : D.Keeps f (fun _ => True) Q y w) (hR : R w [] (resultWorld (y w))) :
    Tracks D R f Q (quiet y) y w :=
  ⟨hy, fun log => ⟨[], by rw [quiet_apply, List.append_nil], hR⟩⟩

theorem tracks_bind (hB : Books cat D R ready) {P : World → β → Prop} {Q : World → α → Prop}
    {x : Noting β} {y : Eval β} {g : β → Noting α} {h : β → Eval α}
    (hx : Tracks D R f P x y w)
    (hg : ∀ b w', D.Leads f w w' → P w' b → Tracks D R f Q (g b) (h b) w') :
    Tracks D R f Q (x >>= g) (y >>= h) w where
  keeps := hx.keeps.bind fun b w' hleads hb => (hg b w' hleads hb).keeps
  notes log := by
    obtain ⟨effects, hnotes, hR⟩ := hx.notes log
    have hkeeps := hx.keeps
    rw [Discipline.Keeps] at hkeeps
    rw [Eval.bind_apply, Eval.bind_apply, hnotes]
    cases hy : y w with
    | error e w' =>
        rw [hy] at hR
        exact ⟨effects, rfl, hR⟩
    | ok b w' =>
        rw [hy] at hR hkeeps
        obtain ⟨effects', hnotes', hR'⟩ := (hg b w' hkeeps.1 hkeeps.2).notes (log ++ effects)
        refine ⟨effects ++ effects', ?_, hB.trans hkeeps.1 hR hR'⟩
        rw [← List.append_assoc]
        exact hnotes'

theorem tracks_mapM (hB : Books cat D R ready) {γ : Type} {g : γ → Noting Value}
    {h : γ → Eval Value} (as : List γ) (hw : D.holds f w)
    (hg : ∀ a ∈ as, ∀ w', D.Leads f w w' → Tracks D R f (D.knows f) (g a) (h a) w') :
    Tracks D R f (fun w' vs => ∀ v ∈ vs, D.knows f w' v) (as.mapM g) (as.mapM h) w := by
  induction as generalizing w with
  | nil => exact tracks_quiet (Discipline.keeps_pure hw (by simp)) (hB.still w)
  | cons a as ih =>
      rw [List.mapM_cons, List.mapM_cons]
      refine hB.tracks_bind (hg a (List.mem_cons_self ..) w (.refl hw)) fun v w' hw' hv => ?_
      refine hB.tracks_bind (ih hw'.holds fun b hb w'' hw'' =>
        hg b (List.mem_cons_of_mem _ hb) w'' (hw'.trans hw'')) fun vs w'' hw'' hvs => ?_
      refine tracks_quiet (Discipline.keeps_pure hw''.holds ?_) (hB.still w'')
      intro u hu
      rcases List.mem_cons.1 hu with rfl | hu
      · exact hw''.keeps u hv
      · exact hvs u hu

theorem tracks_bracketed (hB : Books cat D R ready) (h : D.holds f w)
    (parts : Except Line.BracketError α) :
    Tracks D R f (fun _ _ => True) (quiet (Catalog.bracketed parts)) (Catalog.bracketed parts)
      w := by
  refine tracks_quiet
    (Discipline.keeps_bracketed Discipline.allowsSteps_all h fun _ _ => trivial) ?_
  rw [Catalog.resultWorld_bracketed]
  exact hB.still w

theorem tracks_requireWritable (hB : Books cat D R ready) (h : D.holds f w) (label : String) :
    Tracks D R f (fun _ _ => True) (quiet (cat.requireWritable f.context label))
      (cat.requireWritable f.context label) w := by
  rcases cat.requireWritable_cases w f.context label with hready | ⟨e, hrefused⟩
  · refine tracks_quiet ?_ (by rw [hready]; exact hB.still w)
    rw [Discipline.Keeps, hready]
    exact ⟨.refl h, trivial⟩
  · refine tracks_quiet ?_ (by rw [hrefused]; exact hB.still w)
    rw [Discipline.Keeps, hrefused]
    exact ⟨.refl h, trivial⟩

/-- A method that is found is noted before its code runs. -/
theorem tracks_callMethod (hB : Books cat D R ready) (hA : D.Access cat fun _ => True)
    {args : List Value} (label : String) (h : D.holds f w)
    (hargs : ∀ v ∈ args, D.knows f w v) :
    Tracks D R f (D.knows f) (Noting.callMethod cat f.context label args)
      (cat.callMethod f.context label args) w where
  keeps := hA.call h hargs
  notes log := by
    rw [Noting.callMethod, Eval.get_bind_apply]
    cases hfound : cat.resolve w f.context label args with
    | error e =>
        -- nothing runs, and nothing is noted
        have hrefused : cat.callMethod f.context label args w = .error e w := by
          rw [Catalog.callMethod, Eval.get_bind_apply, hfound]
          rfl
        refine ⟨[], ?_, ?_⟩
        · rw [List.append_nil]
          simp only [hfound]
          rfl
        · rw [hrefused]
          exact hB.still w
    | ok found =>
        refine ⟨[.call f.context label], ?_, hB.called h hargs hfound⟩
        simp only [hfound]
        rfl

/-- A value is noted after it has been stored. -/
theorem tracks_writeProperty (hB : Books cat D R ready) (hA : D.Access cat fun _ => True)
    {v : Value} (label : String) (h : D.holds f w) (hready : ready f.context)
    (hv : D.knows f w v) :
    Tracks D R f (D.knows f) (Noting.writeProperty cat f.context label v)
      (cat.writeProperty f.context label v) w where
  keeps := hA.write h hv
  notes log := by
    rw [Noting.writeProperty, Eval.bind_apply, quiet_apply]
    cases hwrite : cat.writeProperty f.context label v w with
    | error e w' => exact ⟨[], by rw [List.append_nil]; rfl, hB.refused h hready hv hwrite⟩
    | ok u w' => exact ⟨_, rfl, hB.stored h hready hv hwrite⟩

def Follows (D : Discipline) (R : World → List Effect → World → Prop) (ready : Value → Prop)
    (recur : Value → List Char → Noting Value) (recur' : Value → List Char → Eval Value) :
    Prop :=
  ∀ f w text, D.holds f w → ready f.context →
    Tracks D R f (D.knows f) (recur f.context text) (recur' f.context text) w

theorem tracks_assign (hB : Books cat D R ready) (hA : D.Access cat fun _ => True)
    {recur : Value → List Char → Noting Value} {recur' : Value → List Char → Eval Value}
    (hrecur : Follows D R ready recur recur') {name : List Char} (hname : name ≠ [])
    (right : List Char) (h : D.holds f w) (hready : ready f.context) :
    Tracks D R f (D.knows f) (Noting.evalForm cat recur f.context (.assign name right))
      (cat.evalForm recur' f.context (.assign name right)) w := by
  have hempty : name.isEmpty = false := by simpa using hname
  rw [cat.evalForm_assign recur' f.context hname, Noting.evalForm, hempty]
  refine hB.tracks_bind (hB.tracks_requireWritable h _) fun _ w₁ hw₁ _ => ?_
  refine hB.tracks_bind (hrecur f w₁ right hw₁.holds hready) fun v w₂ hw₂ hv => ?_
  exact hB.tracks_writeProperty hA _ hw₂.holds hready hv

section Forms

variable (hB : Books cat D R ready) (hD : D.Lawful cat) (hA : D.Access cat fun _ => True)
  {recur : Value → List Char → Noting Value} {recur' : Value → List Char → Eval Value}
  (hrecur : Follows D R ready recur recur') {v : Value}

include hB hD hrecur

theorem tracks_goOn (rest : List Char) (h : D.holds f w) (hv : D.knows f w v) :
    Tracks D R f (D.knows f) (Noting.goOn recur rest v) (Catalog.goOn recur' rest v) w := by
  obtain ⟨hR, hready⟩ := hB.adopt h hv
  obtain ⟨hleads, hknown⟩ := hD.adopt h hv
  have hadopt : Tracks D R f (fun w' u => D.knows f w' u ∧ ready u) (quiet (Catalog.adopt v))
      (Catalog.adopt v) w :=
    tracks_quiet ⟨hleads, hknown, hready⟩ hR
  refine hB.tracks_bind hadopt fun u w' hw' hu => ?_
  have hvisit := hrecur ⟨u, w'⟩ w' rest (hD.enter hw'.holds (.inr hu.1)) hu.2
  exact ⟨hD.keeps_of_visit hw'.holds (.inr hu.1) fun _ => hvisit.keeps, hvisit.notes⟩

theorem tracks_continueChain (rest : List Char) (h : D.holds f w) (hv : D.knows f w v) :
    Tracks D R f (D.knows f) (Noting.continueChain recur rest v)
      (Catalog.continueChain recur' rest v) w := by
  simp only [Noting.continueChain, Catalog.continueChain]
  split
  · exact tracks_quiet (Discipline.keeps_pure h hv) (hB.still w)
  · exact tracks_goOn hB hD hrecur _ h hv

include hA

theorem tracks_call {name : List Char} (hname : name ≠ [])
    (parts : Except Line.BracketError (List (List Char) × List Char)) (h : D.holds f w)
    (hready : ready f.context) :
    Tracks D R f (D.knows f) (Noting.evalForm cat recur f.context (.call name parts))
      (cat.evalForm recur' f.context (.call name parts)) w := by
  have hempty : name.isEmpty = false := by simpa using hname
  simp only [Noting.evalForm, Catalog.evalForm, Eval.fail_bind, hempty, Bool.false_eq_true,
    if_false]
  refine hB.tracks_bind (hB.tracks_bracketed h parts) fun p w₁ hw₁ _ => ?_
  refine hB.tracks_bind (hB.tracks_mapM p.1 hw₁.holds fun a _ w' hw' =>
    hrecur f w' a hw'.holds hready) fun args w₂ hw₂ hargs => ?_
  refine hB.tracks_bind (hB.tracks_callMethod hA _ hw₂.holds hargs) fun v w₃ hw₃ hv => ?_
  exact tracks_continueChain hB hD hrecur p.2 hw₃.holds hv

theorem tracks_index (name : List Char) (parts : Except Line.BracketError (List Char × List Char))
    (h : D.holds f w) (hready : ready f.context) :
    Tracks D R f (D.knows f) (Noting.evalForm cat recur f.context (.index name parts))
      (cat.evalForm recur' f.context (.index name parts)) w := by
  have hindexed : R w [] (resultWorld (cat.indexed f.context name w)) := by
    rcases cat.resultWorld_indexed w f.context name with hsame | hread
    · rw [hsame]
      exact hB.still w
    · rw [hread]
      exact hB.read _ h
  simp only [Noting.evalForm, Catalog.evalForm]
  refine hB.tracks_bind (tracks_quiet (hA.keeps_indexed Discipline.allowsSteps_all h name) hindexed)
    fun sequence w₁ hw₁ hs => ?_
  refine hB.tracks_bind (hB.tracks_bracketed hw₁.holds parts) fun p w₂ hw₂ _ => ?_
  refine hB.tracks_bind (hrecur f w₂ p.1 hw₂.holds hready) fun index w₃ hw₃ _ => ?_
  -- the sequence was looked up before the index, which may have changed it
  have hs₃ : sequence = f.context ∨ D.knows f w₃ sequence :=
    hs.imp_right fun hs => hw₃.keeps _ (hw₂.keeps _ hs)
  have hitem : R w₃ [] (resultWorld (Catalog.itemAt sequence index w₃)) := by
    rw [Catalog.resultWorld_itemAt]
    exact hB.still w₃
  refine hB.tracks_bind
    (tracks_quiet (hD.keeps_itemAt Discipline.allowsSteps_all hw₃.holds hs₃ index) hitem)
    fun item w₄ hw₄ hknown => ?_
  exact tracks_continueChain hB hD hrecur p.2 hw₄.holds hknown

theorem tracks_evalForm (h : D.holds f w) (hready : ready f.context) (form : Form) :
    Tracks D R f (D.knows f) (Noting.evalForm cat recur f.context form)
      (cat.evalForm recur' f.context form) w := by
  cases form with
  | scalar s =>
      have hplain := hD.plain h (Discipline.isPlain_scalar s)
      exact tracks_quiet (Discipline.keeps_pure h hplain) (hB.still w)
  | overlong digits => exact tracks_quiet (Discipline.keeps_throw h trivial) (hB.still w)
  | word word =>
      refine tracks_quiet (hA.keeps_lookupWord Discipline.allowsSteps_all h word) ?_
      rcases cat.resultWorld_lookupWord w f.context word with hsame | ⟨label, hread⟩
      · rw [hsame]
        exact hB.still w
      · rw [hread]
        exact hB.read label h
  | member name rest =>
      refine hB.tracks_bind (tracks_quiet (hA.read h) (hB.read _ h)) fun v w' hw' hv => ?_
      exact tracks_goOn hB hD hrecur rest hw'.holds hv
  | call name parts =>
      by_cases hname : name = []
      · subst hname
        exact tracks_quiet (Discipline.keeps_fail h trivial) (hB.still w)
      · exact tracks_call hB hD hA hrecur hname parts h hready
  | index name parts => exact tracks_index hB hD hA hrecur name parts h hready
  | assign name right =>
      by_cases hname : name = []
      · subst hname
        exact tracks_quiet (Discipline.keeps_fail h trivial) (hB.still w)
      · exact tracks_assign hB hA hrecur hname right h hready

end Forms

section Lines

variable (hB : Books cat D R ready) (hD : D.Lawful cat) (hA : D.Access cat fun _ => True)

include hB hD hA

/-- All expressions keep the books, at any bound on nesting. -/
theorem tracks_evalExpr (levels : Nat) :
    Follows D R ready (Noting.evalExpr cat levels) (cat.evalExpr levels) := by
  induction levels with
  | zero =>
      intro f w text h _
      exact tracks_quiet (Discipline.keeps_fail h trivial) (hB.still w)
  | succ levels ih =>
      intro f w text h hready
      rw [Noting.evalExpr, Catalog.evalExpr]
      split
      · exact tracks_quiet (Discipline.keeps_fail h trivial) (hB.still w)
      split
      · exact tracks_quiet (Discipline.keeps_fail h trivial) (hB.still w)
      · exact tracks_evalForm hB hD hA ih h hready _

theorem tracks_evalLine (h : D.holds f w) (hready : ready f.context) (expr : List Char) :
    Tracks D R f (D.knows f) (Noting.evalLine cat f.context expr) (cat.evalLine f.context expr)
      w := by
  rw [Noting.evalLine, Catalog.evalLine]
  split
  · exact tracks_quiet (Discipline.keeps_fail h trivial) (hB.still w)
  · exact tracks_evalForm hB hD hA (tracks_evalExpr hB hD hA _) h hready _

theorem evaluate_books {text : List Char} {context : Value} (h : D.holds ⟨context, w⟩ w)
    (hready : ready context) :
    R w (cat.effects text context w) (cat.evaluate text context w).2 := by
  rw [Catalog.effects, Catalog.evaluate]
  split
  · exact hB.still w
  · obtain ⟨effects, hnotes, hR⟩ := (tracks_evalLine hB hD hA h hready (Text.trim text)).notes []
    rw [hnotes]
    cases hline : cat.evalLine context (Text.trim text) w with
    | ok v w' =>
        rw [hline] at hR
        exact hR
    | error e w' =>
        rw [hline] at hR
        cases e <;> exact hR

/-- Every line of a session keeps the books, whether it fails, navigates or
returns. -/
theorem runLine_books {s : Session} (h : D.holds ⟨s.stack.current, s.world⟩ s.world)
    (hready : ready s.stack.current) (line : List Char) :
    R s.world (s.effects cat line) (s.runLine cat line).2.world := by
  rw [Session.effects, Session.runLine]
  dsimp only
  split
  · rw [Session.goBack]
    split
    · rw [Session.world_report]
      exact hB.still s.world
    · exact hB.still s.world
  · have hbooks : R s.world (cat.effects (Text.trim line) s.stack.current s.world)
        (cat.evaluate (Text.trim line) s.stack.current s.world).2 :=
      evaluate_books hB hD hA h hready
    obtain ⟨hleads, houtcome⟩ := hD.evaluate hA (Discipline.allows_all _) h
    rw [Session.world_report, Session.evaluate]
    split
    · next v w' heval =>
        rw [heval] at hbooks hleads houtcome
        -- where the line navigates to is adopted after all effects
        have hadopt := (hB.adopt hleads.holds houtcome).1
        have hboth := hB.trans hleads hbooks hadopt
        rw [List.append_nil] at hboth
        exact hboth
    · next heval =>
        rw [heval] at hbooks
        exact hbooks

end Lines

end Books

end ObjectConsole
