import ObjectConsole.Proofs.Evaluation.Segment
import ObjectConsole.Sample.Catalog

/-!
Scalar literals in every place of a line. A text that reads as a scalar means
the same as a line, as an argument, as an assigned value and as an index, and
evaluating it changes nothing, with two exceptions. The point in front of an
expression is dropped before the expression is read, so a numeral that starts
with its point is read without it. And a string that ends in a lone backslash
leaves its last quote open for the scanner of brackets, so it can stand
between brackets nowhere.
-/

namespace ObjectConsole

open Line (Closed Form IsLabel Whole commaJoin dropPoint)
open Literal (Overlong Scalar readScalar)
open Text (Blanks trim trimRight)

/-! ### What is read -/

abbrev LineReading := Except Overlong Scalar

namespace LineReading

def eval : LineReading → Eval Value
  | .ok v => return v.value
  | .error e => Eval.escape (overlongError e.digits)

def outcome : LineReading → Outcome
  | .ok v => .value v.value false
  | .error e => .escaped (overlongError e.digits)

theorem ofResult_eval (r : LineReading) (w : World) :
    Outcome.ofResult false (r.eval w) = (r.outcome, w) := by
  cases r <;> rfl

end LineReading

/-- A numeral without the point that it starts with. -/
theorem readScalar_tail {s : List Char} {v : Scalar}
    (h : readScalar ('.' :: s) = .ok (some v)) (htrim : trim ('.' :: s) = '.' :: s) :
    ∃ r : LineReading, readScalar s = r.map some := by
  have hnumeral : ∃ n, Literal.Numeral.read? ('.' :: s) = some n := by
    rcases Literal.readScalar_cases h with (hk | hn) | ⟨quote, body, hq, hs, -⟩
    · rw [htrim] at hk
      exact absurd (Literal.isPlain_of_mem_keyword hk (List.mem_cons_self ..)) (by decide)
    · rwa [htrim] at hn
    · rw [htrim, List.cons.injEq] at hs
      rw [← hs.1] at hq
      exact absurd hq (by decide)
  obtain ⟨n, hn⟩ := hnumeral
  obtain ⟨htext, hlawful⟩ := Literal.Numeral.read?_spec hn
  have hblank : ∀ c ∈ s, Text.isBlank c = false := by
    intro c hc
    refine Literal.isBlank_of_isNumeralChar (hlawful.isNumeralChar ?_)
    rw [← htext]
    exact List.mem_cons_of_mem _ hc
  -- behind the point stand digits and perhaps a power, which are a numeral again
  obtain ⟨m, hm⟩ := Literal.Numeral.read?_tail hn
  rw [readScalar, Text.trim_of_no_blank hblank]
  rcases Literal.readTrimmed_of_numeral hm with ⟨v, hv⟩ | ⟨e, he⟩
  · exact ⟨.ok v, hv⟩
  · exact ⟨.error e, he⟩

/-- A text that reads as a scalar reads as one in a line, too: as the same one
unless it starts with a point. -/
theorem exists_reading {t : List Char} {v : Scalar} (h : readScalar t = .ok (some v)) :
    ∃ r : LineReading, readScalar (dropPoint (trim t)) = r.map some ∧
      ((trim t).head? ≠ some '.' → r = .ok v) := by
  by_cases hpoint : (trim t).head? = some '.'
  · obtain ⟨s, hs⟩ : ∃ s, trim t = '.' :: s := by
      cases hs : trim t with
      | nil => rw [hs] at hpoint; exact absurd hpoint (by simp)
      | cons c s =>
          rw [hs, List.head?_cons, Option.some.injEq] at hpoint
          exact ⟨s, by rw [hpoint]⟩
    have htrim : trim ('.' :: s) = '.' :: s := by rw [← hs, Text.trim_trim]
    have hread : readScalar ('.' :: s) = .ok (some v) := by
      rwa [readScalar, htrim, ← hs, ← readScalar]
    obtain ⟨r, hr⟩ := readScalar_tail hread htrim
    exact ⟨r, by rw [hs]; exact hr, fun hne => absurd hpoint hne⟩
  · refine ⟨.ok v, ?_, fun _ => rfl⟩
    rw [Line.dropPoint_of_head hpoint, readScalar, Text.trim_trim, ← readScalar, h]
    rfl

namespace Catalog

variable (cat : Catalog)

theorem evalForm_reading {s : List Char} {r : LineReading} (h : readScalar s = r.map some)
    (recur : Value → List Char → Eval Value) (context : Value) :
    cat.evalForm recur context (Form.ofText s) = r.eval := by
  rw [Form.ofText, h]
  cases r <;> rfl

/-- A text with a reading is evaluated to it at every level. -/
theorem evalExpr_reading {t : List Char} {v : Scalar} (h : readScalar t = .ok (some v))
    {r : LineReading} (hr : readScalar (dropPoint (trim t)) = r.map some) {context : Value}
    (hcontext : context.isNull = false) (levels : Nat) :
    cat.evalExpr (levels + 1) context t = r.eval := by
  rw [cat.evalExpr_of_not_blank levels context (not_blanks_of_readScalar h), hcontext,
    if_neg (by decide), Form.ofLine, cat.evalForm_reading hr]

/-! ### Texts between brackets -/

/-- The arguments of a call are evaluated one after the other. -/
theorem evalExpr_call {label : List Char} (hlabel : IsLabel label) {texts : List (List Char)}
    (htexts : ∀ s ∈ texts, Whole s) {t : List Char} (ht : t ∈ texts) (hblank : ¬Blanks t)
    {context : Value} (hcontext : context.isNull = false) (levels : Nat) :
    cat.evalExpr (levels + 1) context (label ++ '(' :: (commaJoin texts ++ [')'])) = (do
      let args ← texts.mapM (cat.evalExpr levels context)
      cat.callMethod context (String.ofList (trim label)) args) := by
  have hnested := Line.WellNested.commaJoin fun s hs => (htexts s hs).toWellNested
  have hseg : (Segment.bracketed .round label (commaJoin texts) []).WellFormed :=
    ⟨.inl hlabel, hnested.round, Text.blanks_nil⟩
  have harguments : Line.arguments (commaJoin texts) = texts :=
    Line.arguments_commaJoin (List.ne_nil_of_mem ht) (fun s hs => (htexts s hs).argument)
      (Line.isBlankText_commaJoin ht hblank)
  have h := hseg.evalExpr_bracketed cat rfl levels context
  rwa [Segment.run, hcontext, if_neg (by decide), Segment.eval, harguments] at h

/-- An index is evaluated after its sequence. -/
theorem evalExpr_index {label t : List Char} (hlabel : Segment.MayStand .square label)
    (ht : Whole t) {context : Value} (hcontext : context.isNull = false) (levels : Nat) :
    cat.evalExpr (levels + 1) context (label ++ '[' :: (t ++ [']'])) = (do
      let sequence ← cat.indexed context (trim label)
      let index ← cat.evalExpr levels context t
      Catalog.itemAt sequence index) := by
  have hseg : (Segment.bracketed .square label t []).WellFormed :=
    ⟨hlabel, ht.square, Text.blanks_nil⟩
  have h := hseg.evalExpr_bracketed cat rfl levels context
  rwa [Segment.run, hcontext, if_neg (by decide), Segment.eval] at h

/-- Nothing closes the brackets around a text that leaves a quote open. -/
theorem enclosed_of_not_closed {t : List Char} {v : Scalar} (h : readScalar t = .ok (some v))
    (hopen : ¬Closed t) (kind : Line.Bracket) :
    Line.enclosed kind (kind.opener :: (t ++ [kind.closer])) = .error .unterminatedQuote := by
  rcases Literal.whole_or_open h with hwhole | hpieces
  · exact absurd hwhole.argument.closed hopen
  have hcloser : ∀ c ∈ [kind.closer], Line.isQuote c = false := by
    intro c hc
    rw [List.mem_singleton.1 hc]
    exact Line.isQuote_closer kind
  obtain ⟨b, u, hb, hu⟩ := hpieces [kind.closer] hcloser
  exact Line.enclosed_of_unclosed hu (Whole.of_blanks hb).balanced

theorem trimRight_closer (t : List Char) (kind : Line.Bracket) :
    trimRight (t ++ [kind.closer]) = t ++ [kind.closer] :=
  Text.trimRight_append_cons kind.isBlank_closer t []

theorem evalExpr_openCall {label t : List Char} (hlabel : IsLabel label) {v : Scalar}
    (h : readScalar t = .ok (some v)) (hopen : ¬Closed t) {context : Value}
    (hcontext : context.isNull = false) (levels : Nat) :
    cat.evalExpr (levels + 1) context (label ++ '(' :: (t ++ [')'])) =
      Eval.fail (.bracket .unterminatedQuote) := by
  have hparts := enclosed_of_not_closed h hopen .round
  have hform := Form.ofLine_label hlabel .call (t ++ [')'])
  have htrim := trimRight_closer t .round
  have hname : (trim label).isEmpty = false := by
    simpa using Line.IsName.nonempty hlabel
  simp only [Line.Bracket.opener, Line.Bracket.closer] at hparts htrim
  rw [Line.Trigger.char, htrim] at hform
  rw [cat.evalExpr_of_not_blank levels context (hlabel.front _).not_blanks, hcontext,
    if_neg (by decide), hform]
  simp only [Form.ofTrigger, Line.Trigger.char, hparts, Except.map, evalForm, hname, bracketed]
  rfl

theorem evalExpr_openIndex {label t : List Char} (hlabel : Segment.MayStand .square label)
    {v : Scalar} (h : readScalar t = .ok (some v)) (hopen : ¬Closed t) {context : Value}
    (hcontext : context.isNull = false) (levels : Nat) :
    cat.evalExpr (levels + 1) context (label ++ '[' :: (t ++ [']'])) = (do
      let _ ← cat.indexed context (trim label)
      Eval.fail (.bracket .unterminatedQuote)) := by
  have hparts := enclosed_of_not_closed h hopen .square
  have hform := Form.ofLine_bracketed hlabel (t ++ [']'])
  have htrim := trimRight_closer t .square
  simp only [Line.Bracket.opener, Line.Bracket.closer] at hparts htrim hform
  rw [htrim] at hform
  have hblank : ¬Blanks (label ++ '[' :: (t ++ [']'])) := by
    intro hb
    exact absurd (hb '[' (by simp)) (by decide)
  rw [cat.evalExpr_of_not_blank levels context hblank, hcontext, if_neg (by decide), hform]
  simp only [Line.Bracket.trigger, Form.ofTrigger, Line.Trigger.char, hparts, Except.map,
    evalForm, bracketed]
  rfl

end Catalog

/-! ### Where it may stand -/

/-- What a text with the given reading comes to as a line, as an expression at
any level, as an assigned value, among the arguments of a call, and as an
index. Between brackets its quotes have to be closed. -/
structure MeansEverywhere (cat : Catalog) (context : Value) (t : List Char) (r : LineReading) :
    Prop where
  line : ∀ w, cat.evaluate t context w = (r.outcome, w)
  nested : ∀ levels, cat.evalExpr (levels + 1) context t = r.eval
  assigned : ∀ levels label, IsLabel label →
    cat.evalExpr (levels + 2) context (label ++ '=' :: t) = do
      cat.requireWritable context (String.ofList (trim label))
      let value ← r.eval
      cat.writeProperty context (String.ofList (trim label)) value
  argument : Closed t → ∀ levels label before after, IsLabel label →
    (∀ s ∈ before ++ after, Whole s) →
    cat.evalExpr (levels + 2) context
        (label ++ '(' :: (commaJoin (before ++ t :: after) ++ [')'])) = do
      let first ← before.mapM (cat.evalExpr (levels + 1) context)
      let value ← r.eval
      let last ← after.mapM (cat.evalExpr (levels + 1) context)
      cat.callMethod context (String.ofList (trim label)) (first ++ value :: last)
  index : Closed t → ∀ levels label, Segment.MayStand .square label →
    cat.evalExpr (levels + 2) context (label ++ '[' :: (t ++ [']'])) = do
      let sequence ← cat.indexed context (trim label)
      let value ← r.eval
      Catalog.itemAt sequence value
  openArgument : ¬Closed t → ∀ levels label, IsLabel label →
    cat.evalExpr (levels + 2) context (label ++ '(' :: (t ++ [')'])) =
      Eval.fail (.bracket .unterminatedQuote)
  openIndex : ¬Closed t → ∀ levels label, Segment.MayStand .square label →
    cat.evalExpr (levels + 2) context (label ++ '[' :: (t ++ [']'])) = do
      let _ ← cat.indexed context (trim label)
      Eval.fail (.bracket .unterminatedQuote)

/-- A text that reads as a scalar means the same in every place of a line: it
gives its value and changes nothing. If it starts with a point, it is read
without the point. If it leaves its last quote open, it cannot stand between
brackets. -/
theorem scalar_means_everywhere (cat : Catalog) {t : List Char} {v : Scalar}
    (h : readScalar t = .ok (some v)) {context : Value} (hcontext : context.isNull = false) :
    ∃ r : LineReading, readScalar (dropPoint (trim t)) = r.map some ∧
      ((trim t).head? ≠ some '.' → r = .ok v) ∧ MeansEverywhere cat context t r := by
  obtain ⟨r, hr, hsame⟩ := exists_reading h
  refine ⟨r, hr, hsame, ?_⟩
  have heval : ∀ levels, cat.evalExpr (levels + 1) context t = r.eval :=
    cat.evalExpr_reading h hr hcontext
  constructor
  case line =>
    intro w
    rw [cat.evaluate_plain (not_blanks_of_readScalar h) (isNavigation_of_readScalar h), heval,
      LineReading.ofResult_eval]
  case nested => exact heval
  case assigned =>
    intro levels label hlabel
    rw [cat.evalExpr_assign hlabel, hcontext, if_neg (by decide), heval]
  case argument =>
    intro hclosed levels label before after hlabel hothers
    have hwhole : ∀ s ∈ before ++ t :: after, Whole s := by
      intro s hs
      rcases List.mem_append.1 hs with hs | hs
      · exact hothers s (List.mem_append_left _ hs)
      · rcases List.mem_cons.1 hs with rfl | hs
        · exact Literal.whole_of_readScalar h hclosed
        · exact hothers s (List.mem_append_right _ hs)
    rw [cat.evalExpr_call hlabel hwhole (t := t) (by simp) (not_blanks_of_readScalar h) hcontext,
      List.mapM_append, List.mapM_cons, heval]
    simp only [bind_assoc, pure_bind]
  case index =>
    intro hclosed levels label hlabel
    rw [cat.evalExpr_index hlabel (Literal.whole_of_readScalar h hclosed) hcontext, heval]
  case openArgument =>
    intro hopen levels label hlabel
    exact cat.evalExpr_openCall hlabel h hopen hcontext (levels + 1)
  case openIndex =>
    intro hopen levels label hlabel
    exact cat.evalExpr_openIndex hlabel h hopen hcontext (levels + 1)

/-- One half, written with its point in front, is read as five. -/
theorem evaluate_pointed_half :
    (∃ x, readScalar ".5".toList = .ok (some (.float x))) ∧
      Sample.catalog.evaluate ".5".toList Sample.demonstration.1 Sample.demonstration.2 =
        (.value (.sized .w8 5 none) false, Sample.demonstration.2) := by
  have hread : ∃ x, readScalar ".5".toList = .ok (some (.float x)) := ⟨_, rfl⟩
  refine ⟨hread, ?_⟩
  obtain ⟨x, hx⟩ := hread
  have hperson : Sample.demonstration.1.isNull = false := by decide
  obtain ⟨r, hr, -, hmeans⟩ := scalar_means_everywhere Sample.catalog hx hperson
  have hfive : readScalar (dropPoint (trim ".5".toList)) = .ok (some (.int .w8 5)) := by decide
  rw [hfive] at hr
  rw [hmeans.line]
  cases r with
  | error e => exact absurd hr (by simp [Except.map])
  | ok v =>
      simp only [Except.map, Except.ok.injEq, Option.some.injEq] at hr
      rw [← hr]
      rfl

end ObjectConsole
