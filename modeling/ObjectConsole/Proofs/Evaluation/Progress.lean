import ObjectConsole.Proofs.Evaluation.Escape

/-!
Progress. Every text that an expression has evaluated for it is shorter than
the expression and has fewer triggers, since it stands behind the first trigger.
So evaluation comes to an end without any bound on nesting, and a bound that is
no less than the number of triggers is never met.
-/

namespace ObjectConsole

open Line (Form triggerCount)
open Text (trim)

/-! ### Smaller texts -/

namespace Line

structure Smaller (t s : List Char) : Prop where
  length : t.length < s.length
  triggers : triggerCount t < triggerCount s

variable {s t u : List Char}

theorem triggerCount_mono (h : t <:+: s) : triggerCount t ≤ triggerCount s :=
  h.sublist.countP_le

theorem Smaller.piece (h : Smaller s u) (ht : t <:+: s) : Smaller t u :=
  ⟨ht.length_le.trans_lt h.length, (triggerCount_mono ht).trans_lt h.triggers⟩

theorem Smaller.within (h : Smaller t s) (hs : s <:+: u) : Smaller t u :=
  ⟨h.length.trans_le hs.length_le, h.triggers.trans_le (triggerCount_mono hs)⟩

theorem isTrigger_char (trigger : Trigger) : isTrigger trigger.char = true := by
  cases trigger <;> decide

/-- The texts in a form are smaller than the expression, for they stand behind its
first trigger. -/
theorem Form.smaller_of_mem_subtexts (h : t ∈ (Form.ofText s).subtexts) : Smaller t s := by
  obtain ⟨name, trigger, rest, rfl, ht⟩ := Form.exists_behind_trigger h
  refine Smaller.piece ⟨?_, ?_⟩ ht
  · simp only [List.length_append, List.length_cons]
    omega
  · rw [triggerCount, triggerCount, List.countP_append,
      List.countP_cons_of_pos (isTrigger_char trigger)]
    omega

theorem Form.smaller_of_infix (hs : s ∈ (Form.ofLine u).subtexts) (ht : t <:+: s) : Smaller t u :=
  ((Form.smaller_of_mem_subtexts hs).piece ht).within
    ((infix_dropPoint _).trans (Text.infix_trim u))

end Line

open Line (Smaller)

/-- A line has the texts of the expression in it evaluated, behind its marker. -/
theorem Catalog.smaller_of_navigated {s t text : List Char}
    (hs : s ∈ (Form.ofText (Line.dropPoint ((navigation? (trim text)).getD (trim text)))).subtexts)
    (ht : t <:+: s) : Smaller t text :=
  ((Form.smaller_of_mem_subtexts hs).piece ht).within
    ((Line.infix_dropPoint _).trans (infix_navigated text))

/-! ### One level of evaluation -/

namespace Catalog

variable (cat : Catalog)

/-- One level of the evaluation of an expression, given the evaluation of the texts
in it. -/
def step (recur : Value → List Char → Eval Value) (context : Value) (text : List Char) :
    Eval Value :=
  if (trim text).isEmpty then Eval.fail .emptyExpression
  else if context.isNull then Eval.fail .nullContext
  else cat.evalForm recur context (Form.ofLine text)

def stepLine (recur : Value → List Char → Eval Value) (context : Value) (text : List Char) :
    Eval Value :=
  if context.isNull then Eval.fail .nullContext
  else
    cat.evalForm recur context
      (Form.ofText (Line.dropPoint ((navigation? (trim text)).getD (trim text))))

def evaluateWith (recur : Value → List Char → Eval Value) (text : List Char) (context : Value)
    (w : World) : Outcome × World :=
  if (trim text).isEmpty then (.blank, w)
  else Outcome.ofResult (isNavigation text) (cat.stepLine recur context text w)

/-- The evaluation of expressions is made of levels, with the error of the bound
below the last one. -/
theorem evalExpr_eq_iterate (levels : Nat) :
    cat.evalExpr levels = (cat.step)^[levels] fun _ _ => Eval.fail .nestedTooDeeply := by
  induction levels with
  | zero => rfl
  | succ levels ih =>
      rw [Function.iterate_succ_apply', ← ih]
      rfl

theorem evaluate_eq (text : List Char) (context : Value) (w : World) :
    cat.evaluate text context w =
      cat.evaluateWith (cat.evalExpr cat.limits.expressions) text context w := by
  by_cases hblank : Text.Blanks text
  · rw [evaluate, evaluateWith, if_pos (isEmpty_trim_iff.2 hblank),
      if_pos (isEmpty_trim_iff.2 hblank)]
  · rw [cat.evaluate_of_not_blank hblank, evaluateWith, if_neg (mt isEmpty_trim_iff.1 hblank)]
    rfl

theorem isCongruence_eq : Eval.IsCongruence fun {α} => @Eq (Eval α) where
  refl _ := rfl
  bind hx hf := by rw [hx, funext hf]

variable {recur recur' : Value → List Char → Eval Value} {context : Value} {text : List Char}

/-- An expression has smaller texts evaluated, and no others. -/
theorem step_congr (h : ∀ v t, Smaller t text → recur v t = recur' v t) (context : Value) :
    cat.step recur context text = cat.step recur' context text := by
  have hform : cat.evalForm recur context (Form.ofLine text) =
      cat.evalForm recur' context (Form.ofLine text) :=
    cat.related_evalForm isCongruence_eq
      (fun v _ hs t ht => h v t (Form.smaller_of_infix hs ht)) context
  rw [step, step, hform]

theorem evaluateWith_congr (h : ∀ v t, Smaller t text → recur v t = recur' v t)
    (context : Value) (w : World) :
    cat.evaluateWith recur text context w = cat.evaluateWith recur' text context w := by
  have hform := cat.related_evalForm isCongruence_eq
    (fun v _ hs t ht => h v t (smaller_of_navigated hs ht)) context
  rw [evaluateWith, evaluateWith, stepLine, stepLine, hform]

/-! ### Levels that are enough -/

/-- With more levels than triggers it is the same how many there are, and what
stands below the last one. -/
theorem iterate_step_eq (bottom bottom' : Value → List Char → Eval Value) {levels levels' : Nat}
    (h : triggerCount text < levels) (h' : triggerCount text < levels') (context : Value) :
    (cat.step)^[levels] bottom context text = (cat.step)^[levels'] bottom' context text := by
  -- one step of both takes a level off each, and the texts below it lose a trigger
  induction levels generalizing levels' context text with
  | zero => omega
  | succ levels ih =>
      obtain ⟨levels', rfl⟩ := Nat.exists_eq_succ_of_ne_zero (by omega : levels' ≠ 0)
      rw [Function.iterate_succ_apply', Function.iterate_succ_apply']
      refine cat.step_congr (fun v t ht => ?_) context
      have htriggers := ht.triggers
      exact ih (by omega) (by omega) v

/-- The evaluation without a bound: each text is given the levels that it needs. -/
def evalUnbounded (context : Value) (text : List Char) : Eval Value :=
  cat.evalExpr (triggerCount text + 1) context text

theorem iterate_step_eq_unbounded (bottom : Value → List Char → Eval Value) {levels : Nat}
    (h : triggerCount text < levels) (context : Value) :
    (cat.step)^[levels] bottom context text = cat.evalUnbounded context text := by
  rw [evalUnbounded, evalExpr_eq_iterate]
  exact cat.iterate_step_eq _ _ h (Nat.lt_succ_self _) context

theorem step_evalUnbounded : cat.step cat.evalUnbounded = cat.evalUnbounded := by
  funext context text
  rw [evalUnbounded, evalExpr_eq_iterate, Function.iterate_succ_apply']
  refine cat.step_congr (fun v t ht => ?_) context
  exact (cat.iterate_step_eq_unbounded _ ht.triggers v).symm

/-- No other evaluation is made of levels without end. -/
theorem eq_evalUnbounded {eval : Value → List Char → Eval Value} (h : cat.step eval = eval) :
    eval = cat.evalUnbounded := by
  funext context text
  rw [← cat.iterate_step_eq_unbounded eval (Nat.lt_succ_self _) context,
    Function.iterate_fixed h]

/-! ### The bound is not met -/

/-- What stops an evaluation that does not meet the bound on nesting. An error that
escapes may still come of nesting, but only that of a value it was to show. -/
def NotNested : Stop → Prop
  | .reported e => e ≠ .nestedTooDeeply
  | .escaped e => e.isTooDeep = true → e = deepDisplayError

theorem notNested_overlong (digits : Nat) : NotNested (.escaped (overlongError digits)) :=
  fun hdeep => nomatch hdeep

theorem allowsSteps_notNested : Discipline.AllowsSteps NotNested where
  reported _ he := he
  raised e he hdeep := by
    rcases he with (rfl | rfl) | rfl
    · exact nomatch hdeep
    · rfl
    · exact nomatch hdeep

theorem access_free : Discipline.free.Access cat NotNested :=
  (Discipline.free_conduct cat).access (Discipline.free_lawful cat) allowsSteps_notNested

/-- No step by itself meets the bound on nesting, so a form meets it only in the texts
that it has evaluated. -/
theorem keeps_free_evalForm {form : Form} {f : Visit} {w : World}
    (hrecur : ∀ s ∈ form.subtexts, Discipline.free.Evaluates NotNested recur (· <:+: s)) :
    Discipline.free.Keeps f NotNested (Discipline.free.knows f) (cat.evalForm recur f.context form)
      w :=
  (Discipline.free_lawful cat).keeps_evalForm (access_free cat) allowsSteps_notNested
    (fun digits _ => notNested_overlong digits) hrecur trivial

/-- With more levels than triggers the bound is not met. -/
theorem evaluates_of_lt (levels : Nat) :
    Discipline.free.Evaluates NotNested (cat.evalExpr levels) (triggerCount · < levels) := by
  induction levels with
  | zero => exact fun _ _ _ h => absurd h (Nat.not_lt_zero _)
  | succ levels ih =>
      intro f w text htext _
      rw [evalExpr]
      split
      · exact Discipline.keeps_fail trivial (allowsSteps_notNested.reported _ (by simp))
      split
      · exact Discipline.keeps_fail trivial (allowsSteps_notNested.reported _ (by simp))
      · refine cat.keeps_free_evalForm fun s hs f w t ht hw => ih f w t ?_ hw
        have htriggers := (Form.smaller_of_infix hs ht).triggers
        omega

theorem keeps_free_stepLine {limit : Nat} (h : triggerCount text ≤ limit) (f : Visit)
    (w : World) :
    Discipline.free.Keeps f NotNested (Discipline.free.knows f)
      (cat.stepLine (cat.evalExpr limit) f.context text) w := by
  rw [stepLine]
  split
  · exact Discipline.keeps_fail trivial (allowsSteps_notNested.reported _ (by simp))
  · refine cat.keeps_free_evalForm fun s hs f w t ht hw => cat.evaluates_of_lt limit f w t ?_ hw
    have htriggers := (smaller_of_navigated hs ht).triggers
    omega

/-- An error of the line was to show a value that is nested too deeply itself. -/
def ShowsDeepValue (recur : Value → List Char → Eval Value) (text : List Char)
    (context : Value) (w : World) : Prop :=
  ∃ w', cat.stepLine recur context text w = .error (.escaped deepDisplayError) w'

/-- A line with no more triggers than there are levels does not fail for its own
nesting. -/
theorem showsDeepValue_of_nested {limit : Nat} (h : triggerCount text ≤ limit) {context : Value}
    {w : World}
    (hnested : (cat.evaluateWith (cat.evalExpr limit) text context w).1 =
      .failed .nestedTooDeeply) :
    cat.ShowsDeepValue (cat.evalExpr limit) text context w := by
  have hkeeps := cat.keeps_free_stepLine h ⟨context, w⟩ w
  rw [evaluateWith] at hnested
  split at hnested
  · cases hnested
  rw [Discipline.Keeps] at hkeeps
  cases hline : cat.stepLine (cat.evalExpr limit) context text w with
  | ok v w' =>
      rw [hline] at hnested
      cases hnested
  | error e w' =>
      rw [hline] at hkeeps hnested
      cases e with
      | reported e => exact absurd (Outcome.failed.inj hnested) hkeeps.2
      | escaped e =>
          have hescaped : Outcome.ofEscaped e = .failed .nestedTooDeeply := hnested
          rw [Outcome.ofEscaped] at hescaped
          split at hescaped
          · next hdeep => exact ⟨w', hkeeps.2 hdeep ▸ hline⟩
          · cases hescaped

/-- Every evaluation makes progress, on any text, context and world. An expression and a
line have nothing evaluated but texts that are shorter and have fewer triggers: what is
put in the place of the evaluation of other texts does not matter. So there is one
evaluation, and only one, that does without a bound on nesting; it is defined for every
text, and as many levels as there are triggers are enough for it below a line, whatever
stands below the last level. A bound that is no less than the number of triggers is
therefore never met, and neither is that of the console by a line with no more triggers
than it; where such a line is still refused for nesting, an error of it was to show a
value that is nested too deeply. -/
theorem evaluation_makes_progress (cat : Catalog) :
    (∀ recur recur' context text, (∀ v t, Smaller t text → recur v t = recur' v t) →
      cat.step recur context text = cat.step recur' context text ∧
        ∀ w, cat.evaluateWith recur text context w = cat.evaluateWith recur' text context w) ∧
    (∃ eval, cat.step eval = eval ∧ (∀ eval', cat.step eval' = eval' → eval' = eval) ∧
      ∀ bottom levels context text,
        (triggerCount text < levels →
          (cat.step)^[levels] bottom context text = eval context text) ∧
        (triggerCount text ≤ levels → ∀ w,
          cat.evaluateWith ((cat.step)^[levels] bottom) text context w =
            cat.evaluateWith eval text context w)) ∧
    (∀ levels, cat.evalExpr levels =
      (cat.step)^[levels] fun _ _ => Eval.fail .nestedTooDeeply) ∧
    (∀ text context w, cat.evaluate text context w =
      cat.evaluateWith (cat.evalExpr cat.limits.expressions) text context w) ∧
    ∀ text context w,
      (∀ limit, triggerCount text ≤ limit →
        (cat.evaluateWith (cat.evalExpr limit) text context w).1 = .failed .nestedTooDeeply →
        cat.ShowsDeepValue (cat.evalExpr limit) text context w) ∧
      (triggerCount text ≤ cat.limits.expressions →
        (cat.evaluate text context w).1 = .failed .nestedTooDeeply →
        cat.ShowsDeepValue (cat.evalExpr cat.limits.expressions) text context w) := by
  refine ⟨fun recur recur' context text h =>
      ⟨cat.step_congr h context, cat.evaluateWith_congr h context⟩,
    ⟨cat.evalUnbounded, cat.step_evalUnbounded, fun eval => cat.eq_evalUnbounded,
      fun bottom levels context text =>
        ⟨fun h => cat.iterate_step_eq_unbounded bottom h context, fun h w => ?_⟩⟩,
    cat.evalExpr_eq_iterate, cat.evaluate_eq,
    fun text context w => ⟨fun limit h => cat.showsDeepValue_of_nested h, fun h hnested => ?_⟩⟩
  · refine cat.evaluateWith_congr (fun v t ht => ?_) context w
    have htriggers := ht.triggers
    exact cat.iterate_step_eq_unbounded bottom (by omega) v
  · rw [evaluate_eq] at hnested
    exact cat.showsDeepValue_of_nested h hnested

end Catalog

def Outcome.isTooNested : Outcome → Bool
  | .failed .nestedTooDeeply => true
  | _ => false

theorem Outcome.eq_of_isTooNested {o : Outcome} (h : o.isTooNested = true) :
    o = .failed .nestedTooDeeply := by
  unfold isTooNested at h
  split at h
  · rfl
  · cases h

namespace Sample

def deepTuple : Nat → Value
  | 0 => .null
  | n + 1 => .tuple [deepTuple n]

def deepWorld : World :=
  ⟨#[.record (exhibitName "Over") [("no", .object 1)], .list [deepTuple 1000]], ""⟩

/-- The methods in front of the one that takes the list refuse it, and cannot show it. -/
theorem deepWorld_nested :
    (catalog.evaluate "T(no)".toList (.object 0) deepWorld).1 = .failed .nestedTooDeeply :=
  Outcome.eq_of_isTooNested (by decide +kernel)

/-- A chain of properties and a row of brackets that nothing closes, each with as many
triggers as there are levels, and a short line that is refused for a deep value. -/
theorem longest_lines_not_nested :
    (∀ w, (catalog.evaluate (List.replicate 250 "real.".toList).flatten (.int 5) w).1 =
        .failed .nestedTooDeeply →
      catalog.ShowsDeepValue (catalog.evalExpr 250) (List.replicate 250 "real.".toList).flatten
        (.int 5) w) ∧
      (∀ w, (catalog.evaluate (List.replicate 250 '[') (.int 5) w).1 =
        .failed .nestedTooDeeply →
      catalog.ShowsDeepValue (catalog.evalExpr 250) (List.replicate 250 '[') (.int 5) w) ∧
      catalog.ShowsDeepValue (catalog.evalExpr 250) "T(no)".toList (.object 0) deepWorld := by
  obtain ⟨-, -, -, -, hlimit⟩ := Catalog.evaluation_makes_progress catalog
  have hchain : triggerCount (List.replicate 250 "real.".toList).flatten = 250 := by
    have hword : triggerCount "real.".toList = 1 := by decide
    rw [triggerCount] at hword
    rw [triggerCount, List.countP_flatten, List.map_replicate, hword, List.sum_replicate_nat]
  have hbrackets : triggerCount (List.replicate 250 '[') = 250 := by
    rw [triggerCount, List.countP_replicate, if_pos (by decide)]
  exact ⟨fun w => (hlimit _ _ w).2 hchain.le, fun w => (hlimit _ _ w).2 hbrackets.le,
    (hlimit _ _ _).2 (by decide) deepWorld_nested⟩

/-- A line with one trigger is refused for nesting. -/
theorem short_line_nested :
    ¬∀ text context w, triggerCount text ≤ catalog.limits.expressions →
      (catalog.evaluate text context w).1 ≠ .failed .nestedTooDeeply := by
  intro h
  exact h "T(no)".toList (.object 0) deepWorld (by decide) deepWorld_nested

end Sample

end ObjectConsole
