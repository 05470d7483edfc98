import ObjectConsole.Proofs.Evaluation.Expression
import ObjectConsole.Proofs.Literal.Ending
import ObjectConsole.Proofs.Sample.Members

/-!
Strings as the arguments of a call. A string may hold anything: quotes,
backslashes, brackets, commas, triggers. Written in quotes, with a backslash in
front of each quote and each backslash, it passes the search for the first
trigger, the matching of brackets, the cutting at commas and the reader of
literals, and the method is called with it as it was.
-/

namespace ObjectConsole

open Line (Form Whole arguments commaJoin enclosed isQuote isTrigger)
open Literal (inQuotes readScalar)
open Text (Blanks trim trimRight)

structure QuotedString where
  quote : Char
  content : List Char
  before : List Char
  after : List Char
  isQuote_quote : isQuote quote = true
  blanks_before : Blanks before
  blanks_after : Blanks after

namespace QuotedString

def text (q : QuotedString) : List Char := q.before ++ inQuotes q.quote q.content ++ q.after

def value (q : QuotedString) : Value := .text (String.ofList q.content)

theorem written (q : QuotedString) : Written (.literal (.text q.content)) q.text :=
  .string q.isQuote_quote q.content q.blanks_before q.blanks_after

def joined (qs : List QuotedString) : List Char := commaJoin (qs.map text)

variable {qs : List QuotedString}

theorem wellNested_joined (qs : List QuotedString) : Line.WellNested (joined qs) := by
  apply Line.WellNested.commaJoin
  intro s hs
  obtain ⟨q, -, rfl⟩ := List.mem_map.1 hs
  exact q.written.whole.toWellNested

/-- The bracket behind the arguments closes the one in front of them. -/
theorem enclosed_joined (qs : List QuotedString) (after : List Char) :
    enclosed .round ('(' :: (joined qs ++ ')' :: after)) = .ok ⟨[], joined qs, after⟩ :=
  Line.enclosed_of_balanced (wellNested_joined qs).round after

theorem arguments_joined (hqs : qs ≠ []) : arguments (joined qs) = qs.map text := by
  obtain ⟨q, hq⟩ := List.exists_mem_of_ne_nil qs hqs
  have hmem : q.text ∈ qs.map text := List.mem_map_of_mem hq
  apply Line.arguments_commaJoin (by simpa using hqs)
  · intro s hs
    obtain ⟨q, -, rfl⟩ := List.mem_map.1 hs
    exact q.written.whole.argument
  · exact Line.isBlankText_commaJoin hmem q.written.front.not_blanks

variable (cat : Catalog) {context : Value}

theorem evalExpr_text (q : QuotedString) (hcontext : context.isNull = false) (levels : Nat) :
    cat.evalExpr (levels + 1) context q.text = pure q.value := by
  cases q.written with
  | literal hv hclosed hpoint =>
      rw [cat.evalExpr_of_not_blank levels context q.written.front.not_blanks, hcontext,
        if_neg (by decide), Form.ofLine_scalar hv hpoint]
      rfl

theorem mapM_texts (qs : List QuotedString) (hcontext : context.isNull = false) (levels : Nat) :
    (qs.map text).mapM (cat.evalExpr (levels + 1) context) = pure (qs.map value) := by
  induction qs with
  | nil => rfl
  | cons q qs ih =>
      rw [List.map_cons, List.mapM_cons, q.evalExpr_text cat hcontext, ih]
      rfl

/-- A call with strings as its arguments. The name may be any text without
triggers: a text that ends in a bracket is no scalar, whatever it starts with. -/
theorem evalExpr_joined {name : List Char} (hfree : ∀ c ∈ name, isTrigger c = false)
    (hname : ¬Blanks name) (hqs : qs ≠ []) (hcontext : context.isNull = false) (levels : Nat) :
    cat.evalExpr (levels + 2) context (name ++ '(' :: (joined qs ++ [')'])) =
      cat.callMethod context (String.ofList (trim name)) (qs.map value) := by
  have htrim : trim (name ++ '(' :: (joined qs ++ [')'])) =
      Text.trimLeft name ++ '(' :: (joined qs ++ [')']) := by
    rw [Text.trim_append_cons (by decide), Text.trimRight_append_cons (by decide)]
    rfl
  have hnone : readScalar (name ++ '(' :: (joined qs ++ [')'])) = .ok none := by
    apply Literal.readScalar_of_last (c := ')') _ (by decide) (by decide)
    rw [htrim, ← List.cons_append, ← List.append_assoc, List.getLast?_concat]
  have hform : Form.ofLine (name ++ '(' :: (joined qs ++ [')'])) =
      .call (trim name) (.ok (qs.map text, [])) := by
    have hcut := Form.ofLine_cut (t := .call) hfree (fun _ => Line.Trigger.noConfusion) hnone
    rw [Line.Trigger.char, Text.trimRight_append_cons (by decide)] at hcut
    have hclose := enclosed_joined qs (trimRight [])
    rw [hcut]
    simp only [Form.ofTrigger, Line.Trigger.char, hclose, Except.map, arguments_joined hqs]
    rfl
  have hblank : ¬Blanks (name ++ '(' :: (joined qs ++ [')'])) := by
    intro hb
    exact absurd (hb '(' (by simp)) (by decide)
  have hempty : (trim name).isEmpty = false := by
    rw [Bool.eq_false_iff]
    exact mt Catalog.isEmpty_trim_iff.1 hname
  rw [cat.evalExpr_of_not_blank _ context hblank, hcontext, if_neg (by decide), hform]
  have hend : Catalog.continueChain (cat.evalExpr (levels + 1)) [] = pure := by
    funext value
    exact Catalog.continueChain_blank _ Text.blanks_nil value
  simp only [Catalog.evalForm, hempty, Catalog.bracketed, pure_bind, mapM_texts cat qs hcontext,
    hend, bind_pure]
  rfl

theorem evaluate_joined {name : List Char} (hfree : ∀ c ∈ name, isTrigger c = false)
    (hname : ¬Blanks name) (hqs : qs ≠ []) (hmark : isNavigation name = false)
    (hcontext : context.isNull = false) (w : World) :
    cat.evaluate (name ++ '(' :: (joined qs ++ [')'])) context w =
      Outcome.ofResult false
        (cat.callMethod context (String.ofList (trim name)) (qs.map value) w) := by
  have hblank : ¬Blanks (name ++ '(' :: (joined qs ++ [')'])) := by
    intro hb
    exact absurd (hb '(' (by simp)) (by decide)
  have hplain : isNavigation (name ++ '(' :: (joined qs ++ [')'])) = false := by
    have h := isNavigation_append_trigger name .call (joined qs ++ [')'])
    rwa [hmark, Line.Trigger.char] at h
  obtain ⟨levels, hlevels⟩ := Nat.exists_eq_add_one.2 cat.limits.expressions_pos
  rw [cat.evaluate_plain hblank hplain, hlevels,
    evalExpr_joined cat hfree hname hqs hcontext]

end QuotedString

/-! ### Saying a string -/

namespace Sample

def sayInfo : MethodInfo where
  name := "say"
  label := "Say"
  params := [{ name := "what_to_say", type := .text, nullable := false, default := none }]
  shown := true
  run := fun _ args => return Builtin.arg args 0

variable {w : World} {r : Nat} {as : List (String × Value)}

/-- It is the first method of every person that is shown as `Say`, unless an
attribute hides it. -/
theorem methods_person [Host] (hr : w.get? r = some (.record personName as))
    (hown : "say" ∉ as.map Prod.fst) :
    ∃ others, (catalog.methods w (.object r)).filter (fun m => m.label == "Say") =
      sayInfo :: others := by
  have hmembers : firstOfEach ((catalog.subject w (.object r)).members.filter
      fun e => isPublic e.1) = personBody.members := by
    rw [members_person hr]
    rfl
  have hhidden : (catalog.subject w (.object r)).own.contains "say" = false := by
    rw [List.contains_eq_mem, decide_eq_false_iff_not, Catalog.subject, World.attributes, hr]
    exact fun hmem => hown (List.mem_of_mem_filter hmem)
  have hsay (others : List (String × Member)) :
      (("say", personBody.members[5].2) :: others).filterMap
          (fun e => (catalog.subject w (.object r)).methodOf e.1 e.2) =
        sayInfo :: others.filterMap fun e => (catalog.subject w (.object r)).methodOf e.1 e.2 := by
    rw [List.filterMap_cons_some]
    simp only [personBody, List.getElem_cons_succ, List.getElem_cons_zero, shownAs,
      Subject.methodOf, hhidden]
    rfl
  refine ⟨((personBody.members.drop 6).filterMap
    fun e => (catalog.subject w (.object r)).methodOf e.1 e.2).filter
      fun m => m.label == "Say", ?_⟩
  rw [Catalog.methods, if_neg (by simp [Value.isNull]), Subject.methods, hmembers]
  -- what stands in front of it are properties
  exact congrArg (List.filter fun m => m.label == "Say") (hsay _)

theorem callMethod_say [Host] (hr : w.get? r = some (.record personName as))
    (hown : "say" ∉ as.map Prod.fst) (s : String) :
    catalog.callMethod (.object r) "Say" [.text s] w = .ok (.text s) w := by
  obtain ⟨others, hothers⟩ := methods_person hr hown
  have hfits : catalog.fitArguments w [.text s] sayInfo.params = .ok [.text s] := rfl
  have hresolve : catalog.resolve w (.object r) "Say" [.text s] = .ok (sayInfo, [.text s]) := by
    rw [Catalog.resolve, hothers]
    simp only [List.isEmpty_cons, Catalog.firstFitting, hfits]
    rfl
  rw [Catalog.callMethod, Eval.get_bind_apply, hresolve]
  rfl

theorem free_say : ∀ c ∈ "Say".toList, isTrigger c = false := by
  have hall : "Say".toList.all (fun c => !isTrigger c) = true := by decide
  simpa using hall

theorem not_blanks_say : ¬Blanks "Say".toList := Text.isBlankText_eq_false_iff.1 (by decide)

/-- A person says a string as it is. -/
theorem evaluate_say [Host] (q : QuotedString) (hr : w.get? r = some (.record personName as))
    (hown : "say" ∉ as.map Prod.fst) :
    catalog.evaluate ("Say".toList ++ '(' :: (q.text ++ [')'])) (.object r) w =
      (.value q.value false, w) := by
  have hobject : (Value.object r).isNull = false := rfl
  have hline := QuotedString.evaluate_joined catalog free_say not_blanks_say
    (List.cons_ne_nil q []) (by decide) hobject w
  rw [QuotedString.joined, List.map_singleton, Line.commaJoin_singleton] at hline
  rw [hline]
  exact congrArg (Outcome.ofResult false) (callMethod_say hr hown _)

end Sample

/-! ### Strings arrive intact -/

/-- What comes of a call with strings as its arguments: its own bracket is
found whatever follows it, each argument is cut out as it was written, they are
evaluated to the strings, and the method is called with them. -/
structure ArriveIntact (cat : Catalog) (name : List Char) (qs : List QuotedString) : Prop where
  closes : ∀ after, enclosed .round ('(' :: (QuotedString.joined qs ++ ')' :: after)) =
    .ok ⟨[], QuotedString.joined qs, after⟩
  splits : arguments (QuotedString.joined qs) = qs.map QuotedString.text
  values : ∀ levels context w, context.isNull = false →
    (qs.map QuotedString.text).mapM (cat.evalExpr (levels + 1) context) w =
      .ok (qs.map QuotedString.value) w
  call : ∀ levels context, context.isNull = false →
    cat.evalExpr (levels + 2) context (name ++ '(' :: (QuotedString.joined qs ++ [')'])) =
      cat.callMethod context (String.ofList (trim name)) (qs.map QuotedString.value)
  line : isNavigation name = false → ∀ context w, context.isNull = false →
    cat.evaluate (name ++ '(' :: (QuotedString.joined qs ++ [')'])) context w =
      Outcome.ofResult false
        (cat.callMethod context (String.ofList (trim name)) (qs.map QuotedString.value) w)

/-- Strings of any characters arrive as they were, in the call of any name
without triggers and on any value but `null`. In particular, every person says
a string as it is, unless an attribute of the instance hides the method. -/
theorem quoted_arguments_arrive [Sample.Host] (cat : Catalog) {name : List Char}
    (hfree : ∀ c ∈ name, isTrigger c = false) (hname : ¬Blanks name) {qs : List QuotedString}
    (hqs : qs ≠ []) :
    ArriveIntact cat name qs ∧
      ∀ (q : QuotedString) (w : World) (r : Nat) (as : List (String × Value)),
        w.get? r = some (.record Sample.personName as) → "say" ∉ as.map Prod.fst →
          Sample.catalog.evaluate ("Say".toList ++ '(' :: (q.text ++ [')'])) (.object r) w =
            (.value q.value false, w) := by
  refine ⟨⟨QuotedString.enclosed_joined qs, QuotedString.arguments_joined hqs, ?_, ?_, ?_⟩, ?_⟩
  · intro levels context w hcontext
    rw [QuotedString.mapM_texts cat qs hcontext]
    rfl
  · intro levels context hcontext
    exact QuotedString.evalExpr_joined cat hfree hname hqs hcontext levels
  · intro hmark context w hcontext
    exact QuotedString.evaluate_joined cat hfree hname hqs hmark hcontext w
  · intro q w r as hr hown
    exact Sample.evaluate_say q hr hown

/-- The demonstration person says a string with a comma, an open bracket and a
quote in it. -/
theorem evaluate_sayComma :
    Sample.catalog.evaluate "Say( \"a, (\\\"b\")".toList Sample.demonstration.1
      Sample.demonstration.2 = (.value (.text "a, (\"b") false, Sample.demonstration.2) := by
  let q : QuotedString :=
    ⟨'"', "a, (\"b".toList, [' '], [], by decide, by decide, Text.blanks_nil⟩
  have hsays := (quoted_arguments_arrive Sample.catalog Sample.free_say Sample.not_blanks_say
    (List.cons_ne_nil q [])).2
  exact hsays q Sample.demonstration.2 _ _ rfl (by decide)

end ObjectConsole
