import ObjectConsole.Proofs.Evaluation.Segment
import ObjectConsole.Sample.Catalog

/-!
Expressions as trees, and what they mean. A tree is evaluated without any
text: chains from left to right, arguments from left to right before the
method is looked up, an index after its sequence, and the right side of an
assignment after the property has been found writable.

`Written` says which texts stand for a tree: blanks may stand around names,
triggers, commas, brackets and arguments, and strings may be quoted either
way. Whatever the text, the console evaluates it to what the tree means.
-/

namespace ObjectConsole

open Catalog (goOn)
open Line (Balanced IsArgument IsLabel IsName Whole commaJoin)
open Literal (Scalar readScalar)
open Text (Blanks trim)

/-! ### Trees -/

mutual

inductive Expression where
  | literal (v : Scalar)
  | access (a : Access)
  | chain (a : Access) (rest : Expression)
  | assign (name : List Char) (right : Expression)

/-- One step of a chain: a property, a call, or an index of a property or,
without a name, of the context itself. -/
inductive Access where
  | property (name : List Char)
  | call (name : List Char) (args : List Expression)
  | index (name : List Char) (index : Expression)

end

def Eval.onContext (context : Value) (x : Eval Value) : Eval Value :=
  if context.isNull then Eval.fail .nullContext else x

mutual

def Expression.eval (cat : Catalog) (context : Value) : Expression → Eval Value
  | .literal v => Eval.onContext context (return v.value)
  | .access a => Eval.onContext context (a.eval cat context)
  | .chain a rest => do
      let value ← Eval.onContext context (a.eval cat context)
      rest.eval cat (← Catalog.adopt value)
  | .assign name right => Eval.onContext context do
      cat.requireWritable context (String.ofList name)
      let value ← right.eval cat context
      cat.writeProperty context (String.ofList name) value

def Access.eval (cat : Catalog) (context : Value) : Access → Eval Value
  | .property name => cat.readProperty context (String.ofList name)
  | .call name args => do
      let args ← evalArguments cat context args
      cat.callMethod context (String.ofList name) args
  | .index name index => do
      let sequence ← cat.indexed context name
      let index ← index.eval cat context
      Catalog.itemAt sequence index

def evalArguments (cat : Catalog) (context : Value) : List Expression → Eval (List Value)
  | [] => return []
  | e :: es => do
      let value ← e.eval cat context
      let values ← evalArguments cat context es
      return value :: values

end

mutual

/-- The levels of nesting that the texts of an expression take. -/
def Expression.height : Expression → Nat
  | .literal _ => 1
  | .access a => a.height + 1
  | .chain a rest => max a.height rest.height + 1
  | .assign _ right => right.height + 1

def Access.height : Access → Nat
  | .property _ => 0
  | .call _ args => heightAll args
  | .index _ index => index.height

def heightAll : List Expression → Nat
  | [] => 0
  | e :: es => max e.height (heightAll es)

end

/-! ### Texts of a tree -/

def IsArguments (texts : List (List Char)) (inside : List Char) : Prop :=
  texts = [] ∧ Blanks inside ∨ texts ≠ [] ∧ inside = commaJoin texts

def Access.isBracketed : Access → Bool
  | .property _ => false
  | .call .. | .index .. => true

/-- The texts that stand for an expression. A numeral does not start with its
point, and a string ends where its last quote closes it. Behind brackets the
point may be left out. -/
inductive Written : Expression → List Char → Prop
  | literal {v : Scalar} {text : List Char} (hv : readScalar text = .ok (some v))
      (hclosed : Line.Closed text) (hpoint : (trim text).head? ≠ some '.') :
      Written (.literal v) text
  | property {label : List Char} (hlabel : IsLabel label) :
      Written (.access (.property (trim label))) label
  | call {label inside gap : List Char} {args : List Expression} {texts : List (List Char)}
      (hlabel : IsLabel label) (hlength : args.length = texts.length)
      (hargs : ∀ p ∈ args.zip texts, Written p.1 p.2) (hinside : IsArguments texts inside)
      (hgap : Blanks gap) :
      Written (.access (.call (trim label) args)) (label ++ '(' :: (inside ++ ')' :: gap))
  | index {label inside gap : List Char} {index : Expression}
      (hlabel : Segment.MayStand .square label) (hindex : Written index inside)
      (hgap : Blanks gap) :
      Written (.access (.index (trim label) index)) (label ++ '[' :: (inside ++ ']' :: gap))
  | chain {a : Access} {rest : Expression} {front text : List Char}
      (ha : Written (.access a) front) (hrest : Written rest text) :
      Written (.chain a rest) (front ++ '.' :: text)
  | direct {a : Access} {rest : Expression} {front text : List Char}
      (hb : a.isBracketed = true) (ha : Written (.access a) front) (hrest : Written rest text) :
      Written (.chain a rest) (front ++ text)
  | assign {label text : List Char} {right : Expression} (hlabel : IsLabel label)
      (hright : Written right text) :
      Written (.assign (trim label) right) (label ++ '=' :: text)

theorem Line.IsLabel.whole {label : List Char} (h : IsLabel label) : Whole label :=
  .of_trim (.of_inert fun c hc => Line.isInert_of_isPlain (IsName.plain h c hc))

theorem Segment.MayStand.whole {kind : Line.Bracket} {label : List Char}
    (h : Segment.MayStand kind label) : Whole label := by
  rcases h with h | ⟨-, h⟩
  · exact h.whole
  · exact .of_blanks h

theorem forall_mem_right {α β : Type} {as : List α} {bs : List β} {P : β → Prop}
    (hlength : as.length = bs.length) (h : ∀ p ∈ as.zip bs, P p.2) : ∀ b ∈ bs, P b := by
  intro b hb
  rw [← List.map_snd_zip (Nat.le_of_eq hlength.symm)] at hb
  obtain ⟨p, hp, rfl⟩ := List.mem_map.1 hb
  exact h p hp

theorem IsArguments.wellNested {texts : List (List Char)} {inside : List Char}
    (h : IsArguments texts inside) (hwhole : ∀ s ∈ texts, Whole s) :
    Line.WellNested inside := by
  rcases h with ⟨-, h⟩ | ⟨-, rfl⟩
  · exact (Whole.of_blanks h).toWellNested
  · exact .commaJoin fun s hs => (hwhole s hs).toWellNested

/-- The text of an expression can stand anywhere. -/
theorem Written.whole {e : Expression} {text : List Char} (h : Written e text) :
    Whole text := by
  induction h with
  | literal hv hclosed _ => exact Literal.whole_of_readScalar hv hclosed
  | property hlabel => exact hlabel.whole
  | call hlabel hlength _ hinside hgap ih =>
      have hnested := hinside.wellNested (forall_mem_right hlength ih)
      have h := (hlabel.whole.append (.bracketed hnested .round)).append (.of_blanks hgap)
      simpa [Line.Bracket.opener, Line.Bracket.closer] using h
  | index hlabel _ hgap ih =>
      have h := (hlabel.whole.append (.bracketed ih.toWellNested .square)).append
        (.of_blanks hgap)
      simpa [Line.Bracket.opener, Line.Bracket.closer] using h
  | chain _ _ ihfront ih =>
      have h := ihfront.append ((Whole.inert (c := '.') (by decide)).append ih)
      simpa using h
  | direct _ _ _ ihfront ih => exact ihfront.append ih
  | assign hlabel _ ih =>
      have h := hlabel.whole.append ((Whole.inert (c := '=') (by decide)).append ih)
      simpa using h

/-! ### How the text of an expression starts -/

theorem front_of_readScalar {text : List Char} {v : Scalar}
    (hv : readScalar text = .ok (some v)) (hpoint : (trim text).head? ≠ some '.') :
    Front text :=
  ⟨not_blanks_of_readScalar hv, hpoint, isNavigation_of_readScalar hv⟩

/-- A string in either quote stands for its text. -/
theorem Written.string {quote : Char} (hq : Line.isQuote quote = true) (s : List Char)
    {b b' : List Char} (hb : Blanks b) (hb' : Blanks b') :
    Written (.literal (.text s)) (b ++ Literal.inQuotes quote s ++ b') := by
  have hblank := Literal.isBlank_of_isQuote hq
  have htrim : trim (b ++ Literal.inQuotes quote s ++ b') = Literal.inQuotes quote s := by
    rw [Text.trim_append_of_blanks hb hb', Literal.inQuotes, Literal.trim_of_ends hblank hblank]
  refine .literal ?_ ?_ ?_
  · rw [readScalar, htrim]
    have hread := Literal.readScalar_inQuotes hq s
    rwa [readScalar, Literal.inQuotes, Literal.trim_of_ends hblank hblank] at hread
  · refine (Whole.of_trim ?_).argument.closed
    rw [htrim]
    exact Literal.whole_inQuotes hq s
  · rw [htrim, Literal.inQuotes, List.head?_cons]
    rintro ⟨rfl⟩
    exact absurd hq (by decide)

theorem Written.front_append {a : Access} {front : List Char}
    (h : Written (.access a) front) (rest : List Char) : Front (front ++ rest) := by
  cases h with
  | property hlabel => exact hlabel.front rest
  | call hlabel =>
      rw [List.append_assoc]
      exact hlabel.front _
  | index hlabel =>
      rw [List.append_assoc, List.cons_append]
      rcases hlabel with hlabel | ⟨-, hblank⟩
      · exact hlabel.front _
      · exact front_opening hblank _

theorem Written.front {e : Expression} {text : List Char} (h : Written e text) :
    Front text := by
  cases h with
  | literal hv _ hpoint => exact front_of_readScalar hv hpoint
  | chain ha _ => exact ha.front_append _
  | direct _ ha _ => exact ha.front_append _
  | assign hlabel _ => exact hlabel.front _
  | property hlabel =>
      rw [← List.append_nil text]
      exact (Written.property hlabel).front_append []
  | call hlabel hlength hargs hinside hgap =>
      have h := (Written.call hlabel hlength hargs hinside hgap).front_append []
      rwa [List.append_nil] at h
  | index hlabel hindex hgap =>
      have h := (Written.index hlabel hindex hgap).front_append []
      rwa [List.append_nil] at h

/-! ### Evaluation of the text -/

section

variable {cat : Catalog}

/-- The arguments of a call are found again. -/
theorem IsArguments.arguments {texts : List (List Char)} {inside : List Char}
    (h : IsArguments texts inside) (hwhole : ∀ s ∈ texts, Whole s)
    (hfront : ∀ s ∈ texts, Front s) : Line.arguments inside = texts := by
  rcases h with ⟨rfl, h⟩ | ⟨hne, rfl⟩
  · rw [Line.arguments, if_pos (Text.isBlankText_iff.2 h)]
  · refine Line.arguments_commaJoin hne (fun s hs => (hwhole s hs).argument) ?_
    obtain ⟨s, hs⟩ := List.exists_mem_of_ne_nil texts hne
    exact Line.isBlankText_commaJoin hs (hfront s hs).not_blanks

theorem evalArguments_eq_mapM (context : Value) (args : List Expression) :
    evalArguments cat context args = args.mapM fun e => e.eval cat context := by
  induction args with
  | nil => rw [evalArguments, List.mapM_nil]
  | cons e es ih => rw [evalArguments, ih, List.mapM_cons]

theorem height_le_heightAll {args : List Expression} {e : Expression} (h : e ∈ args) :
    e.height ≤ heightAll args := by
  induction args with
  | nil => exact absurd h (by simp)
  | cons d args ih =>
      rw [heightAll]
      rcases List.mem_cons.1 h with rfl | h
      · exact Nat.le_max_left ..
      · exact (ih h).trans (Nat.le_max_right ..)

/-- A text that is evaluated to what an expression means, if the levels
suffice. -/
def Means (cat : Catalog) (e : Expression) (text : List Char) : Prop :=
  ∀ levels context, e.height ≤ levels →
    (cat.evalExpr levels context text).coarse = (e.eval cat context).coarse

theorem Expression.height_pos (e : Expression) : 0 < e.height := by
  cases e <;> simp [Expression.height]

/-- Every expression takes a level. -/
theorem Means.of_succ {e : Expression} {text : List Char}
    (h : ∀ n context, e.height ≤ n + 1 →
      (cat.evalExpr (n + 1) context text).coarse = (e.eval cat context).coarse) :
    Means cat e text := by
  intro levels context hle
  cases levels with
  | zero =>
      have hpos := e.height_pos
      omega
  | succ n => exact h n context hle

structure Takes (cat : Catalog) (a : Access) (seg : Segment) : Prop where
  wellFormed : seg.WellFormed
  bracketed : seg.isBracketed = a.isBracketed
  step : ∀ levels context, a.height ≤ levels →
    (seg.eval cat (cat.evalExpr levels) context).coarse = (a.eval cat context).coarse

theorem Takes.run {a : Access} {seg : Segment} (h : Takes cat a seg) {levels : Nat}
    (hle : a.height ≤ levels) (context : Value) :
    (seg.run cat (cat.evalExpr levels) context).coarse =
      (Eval.onContext context (a.eval cat context)).coarse := by
  rw [Segment.run, Eval.onContext]
  split
  · rfl
  · exact h.step levels context hle

theorem Takes.means {a : Access} {seg : Segment} (h : Takes cat a seg) :
    Means cat (.access a) seg.text := by
  refine .of_succ fun n context hle => ?_
  rw [Expression.height] at hle
  rw [h.wellFormed.coarse_evalExpr cat n context, Expression.eval]
  exact h.run (by omega) context

/-- Going on with the text of an expression is going on with its meaning. -/
theorem Means.goOn {e : Expression} {text : List Char} (h : Means cat e text) {levels : Nat}
    (hle : e.height ≤ levels) (value : Value) :
    (Catalog.goOn (cat.evalExpr levels) text value).coarse =
      (Catalog.adopt value >>= fun v => e.eval cat v).coarse := by
  rw [Catalog.goOn]
  exact Eval.coarse_bind_right _ fun v => h levels v hle

/-- A text that takes a step and goes on with another text means a chain. -/
theorem Takes.chain {a : Access} {seg : Segment} {rest : Expression} {text whole : List Char}
    (ha : Takes cat a seg) (hrest : Means cat rest text)
    (heval : ∀ n context, cat.evalExpr (n + 1) context whole =
      seg.run cat (cat.evalExpr n) context >>= goOn (cat.evalExpr n) text) :
    Means cat (.chain a rest) whole := by
  refine .of_succ fun n context hle => ?_
  rw [Expression.height] at hle
  rw [heval, Expression.eval]
  refine Eval.coarse_bind_congr (ha.run ?_ context) fun value => hrest.goOn ?_ value <;> omega

/-- Every text of a tree is evaluated to what the tree means, and every text
of a step is a segment that takes it. -/
theorem Written.evaluates {e : Expression} {text : List Char} (h : Written e text) :
    Means cat e text ∧
      ∀ a, e = .access a → ∃ seg : Segment, seg.text = text ∧ Takes cat a seg := by
  have haccess {a : Access} (seg : Segment) (hseg : Takes cat a seg) :
      Means cat (.access a) seg.text ∧
        ∀ b, Expression.access a = .access b →
          ∃ seg' : Segment, seg'.text = seg.text ∧ Takes cat b seg' := by
    refine ⟨hseg.means, ?_⟩
    rintro b hb
    cases hb
    exact ⟨seg, rfl, hseg⟩
  -- the second part serves the chains: there, the text of the first step is the
  -- segment that the line starts with
  induction h with
  | @literal v text hv hclosed hpoint =>
      refine ⟨.of_succ fun n context _ => ?_, fun a ha => absurd ha (by simp)⟩
      rw [cat.evalExpr_of_not_blank n context (front_of_readScalar hv hpoint).not_blanks,
        Line.Form.ofLine_scalar hv hpoint]
      rfl
  | @property label hlabel =>
      refine haccess (.property label) ⟨hlabel, rfl, fun levels context hle => ?_⟩
      rw [Segment.eval, Access.eval]
  | @call label inside gap args texts hlabel hlength hargs hinside hgap ih =>
      have hwhole : ∀ s ∈ texts, Whole s :=
        forall_mem_right hlength fun p hp => (hargs p hp).whole
      have hfront : ∀ s ∈ texts, Front s :=
        forall_mem_right hlength fun p hp => (hargs p hp).front
      have hbalanced : Balanced .round inside := (hinside.wellNested hwhole).round
      refine haccess (.bracketed .round label inside gap)
        ⟨⟨.inl hlabel, hbalanced, hgap⟩, rfl, fun levels context hle => ?_⟩
      rw [Access.height] at hle
      rw [Segment.eval, hinside.arguments hwhole hfront, Access.eval, evalArguments_eq_mapM]
      refine Eval.coarse_bind_left _ (Eval.coarse_mapM_congr hlength fun p hp => ?_).symm
      have hheight := height_le_heightAll (List.of_mem_zip (a := p.1) (b := p.2) hp).1
      exact ((ih p hp).1 levels context (hheight.trans hle)).symm
  | @index label inside gap index hlabel hindex hgap ih =>
      refine haccess (.bracketed .square label inside gap)
        ⟨⟨hlabel, hindex.whole.square, hgap⟩, rfl, fun levels context hle => ?_⟩
      rw [Segment.eval, Access.eval]
      refine Eval.coarse_bind_right _ fun sequence => ?_
      exact Eval.coarse_bind_left _ (ih.1 levels context hle)
  | @chain a rest front text ha hrest ihfront ih =>
      obtain ⟨seg, rfl, hseg⟩ := ihfront.2 a rfl
      refine ⟨hseg.chain ih.1 fun n context => ?_, fun b hb => absurd hb (by simp)⟩
      exact hseg.wellFormed.evalExpr_point cat n context hrest.front.not_blanks
  | @direct a rest front text hb ha hrest ihfront ih =>
      obtain ⟨seg, rfl, hseg⟩ := ihfront.2 a rfl
      have hbracketed : seg.isBracketed = true := by rw [hseg.bracketed, hb]
      refine ⟨hseg.chain ih.1 fun n context => ?_, fun b hb => absurd hb (by simp)⟩
      exact hseg.wellFormed.evalExpr_direct cat hbracketed n context hrest.front
  | @assign label text right hlabel hright ih =>
      refine ⟨.of_succ fun n context hle => ?_, fun a ha => absurd ha (by simp)⟩
      rw [Expression.height] at hle
      rw [cat.evalExpr_assign hlabel n context text, Expression.eval, Eval.onContext]
      split
      · rfl
      · refine Eval.coarse_bind_right _ fun _ => ?_
        exact Eval.coarse_bind_left _ (ih.1 n context (by omega))

end

/-- A line that is written from a tree comes to what the tree means, with the
same outcome up to the kind of a missing member and the same world, unless
the bound on nesting is reached. -/
theorem evaluate_written (cat : Catalog) {e : Expression} {text : List Char}
    (h : Written e text) (context : Value) (w : World)
    (hlimit : e.height ≤ cat.limits.expressions + 1 ∨
      (cat.evaluate text context w).1 ≠ .failed .nestedTooDeeply) :
    (cat.evaluate text context w).1.coarse =
        (Outcome.ofResult false (e.eval cat context w)).1.coarse ∧
      (cat.evaluate text context w).2 =
        (Outcome.ofResult false (e.eval cat context w)).2 := by
  rw [cat.evaluate_plain h.front.not_blanks h.front.unmarked] at hlimit ⊢
  rcases hlimit with hheight | hlimit
  · exact Outcome.coarse_ofResult (h.evaluates.1 (cat.limits.expressions + 1) context hheight)
      false w
  · -- the bound is not met, so the levels that the tree asks for change nothing
    have hmore := cat.within_evalExpr (Nat.le_max_left (cat.limits.expressions + 1) e.height)
      context text
    rcases hmore w with ⟨w', hstop⟩ | heq
    · rw [hstop] at hlimit
      exact absurd rfl hlimit
    · rw [heq]
      exact Outcome.coarse_ofResult (h.evaluates.1 _ context (Nat.le_max_right ..)) false w

def friendSpeaks : Expression :=
  .chain (.index "Friends".toList (.literal (.int .w8 0)))
    (.access (.call "Say".toList [.literal (.text "it's".toList)]))

/-- The first friend says something, written with blanks and an escaped quote. -/
theorem evaluate_friendSpeaks :
    (Sample.catalog.evaluate " Friends [ 0 ] . Say ( 'it\\'s' ) ".toList
      Sample.demonstration.1 Sample.demonstration.2).1.coarse =
        .value (.text "it's") false := by
  have hzero : Written (.literal (.int .w8 0)) " 0 ".toList :=
    .literal (by decide) (by decide +kernel) (by decide)
  have hfriend : Written (.access (.index "Friends".toList (.literal (.int .w8 0))))
      " Friends [ 0 ] ".toList :=
    @Written.index " Friends ".toList _ [' '] _ (.inl (by decide)) hzero (by decide)
  have hblank : Blanks [' '] := by decide
  have htext : Written (.literal (.text "it's".toList)) " 'it\\'s' ".toList :=
    @Written.string '\'' (by decide) "it's".toList [' '] [' '] hblank hblank
  have hspeaks : Written (.access (.call "Say".toList [.literal (.text "it's".toList)]))
      " Say ( 'it\\'s' ) ".toList := by
    refine @Written.call " Say ".toList _ [' '] _ [" 'it\\'s' ".toList] (by decide) rfl ?_
      (.inr ⟨List.cons_ne_nil _ _, rfl⟩) hblank
    intro p hp
    rw [List.mem_singleton.1 hp]
    exact htext
  have hwritten : Written friendSpeaks " Friends [ 0 ] . Say ( 'it\\'s' ) ".toList :=
    .chain hfriend hspeaks
  rw [(evaluate_written Sample.catalog hwritten Sample.demonstration.1 Sample.demonstration.2
    (.inl (by decide))).1]
  rfl

end ObjectConsole
