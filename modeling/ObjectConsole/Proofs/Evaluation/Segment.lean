import ObjectConsole.Proofs.Evaluation.Comparison
import ObjectConsole.Proofs.Evaluation.Line

/-!
Segments of a chain as they stand in a line: a property, a call or an index,
with any blanks between their parts. The scanners find a segment again
whatever follows it, so a text that starts with a segment is evaluated by
taking the step of the segment first and going on with the rest of the text
from there.
-/

namespace ObjectConsole

open Line (Bracket Form IsLabel IsName Trigger dropPoint)
open Text (Blanks trim trimLeft trimRight)

namespace Catalog

variable (cat : Catalog)

/-! ### The rest of a chain -/

theorem continueChain_blank (recur : Value → List Char → Eval Value) {rest : List Char}
    (h : Blanks rest) (value : Value) : continueChain recur rest value = pure value := by
  rw [continueChain, Text.trim_of_blanks h]
  rfl

/-- Behind blanks and a point, the chain goes on with what follows the point. -/
theorem continueChain_point (levels : Nat) {gap rest : List Char} (hgap : Blanks gap)
    (hrest : ¬Blanks rest) (value : Value) :
    continueChain (cat.evalExpr levels) (gap ++ '.' :: rest) value =
      goOn (cat.evalExpr levels) rest value := by
  have htrim : trim (gap ++ '.' :: rest) = '.' :: trimRight rest :=
    Text.trim_split hgap (by decide)
  have hblank : Text.isBlankText (trimRight rest) = false :=
    Text.isBlankText_eq_false_iff.2 (mt Text.blanks_trimRight_iff.1 hrest)
  rw [continueChain, htrim]
  simp only [dropPoint, hblank, goOn, evalExpr_trimRight]
  rfl

/-- The point may be left out. -/
theorem continueChain_direct (levels : Nat) {rest : List Char} (hrest : ¬Blanks rest)
    (hpoint : (trim rest).head? ≠ some '.') (value : Value) :
    continueChain (cat.evalExpr levels) rest value =
      goOn (cat.evalExpr levels) rest value := by
  have hdrop : dropPoint (trim rest) = trim rest := Line.dropPoint_of_head hpoint
  have hblank : Text.isBlankText (trim rest) = false :=
    Text.isBlankText_eq_false_iff.2 (mt Text.blanks_trim_iff.1 hrest)
  rw [continueChain, hdrop]
  simp only [hblank, goOn, evalExpr_trim]
  rfl

theorem continueChain_trimRight (recur : Value → List Char → Eval Value) (rest : List Char)
    (value : Value) :
    continueChain recur (trimRight rest) value = continueChain recur rest value := by
  rw [continueChain, Text.trim_trimRight, continueChain]

end Catalog

/-! ### Segments -/

inductive Segment where
  | property (label : List Char)
  | bracketed (kind : Bracket) (label inside gap : List Char)

namespace Segment

def text : Segment → List Char
  | property label => label
  | bracketed kind label inside gap => label ++ kind.opener :: (inside ++ kind.closer :: gap)

/-- Whether the name in front of brackets may be missing: an index applies to
the context itself then. -/
def MayStand (kind : Bracket) (label : List Char) : Prop :=
  IsLabel label ∨ kind = .square ∧ Blanks label

def WellFormed : Segment → Prop
  | property label => IsLabel label
  | bracketed kind label inside gap =>
      MayStand kind label ∧ Line.Balanced kind inside ∧ Blanks gap

def eval (cat : Catalog) (recur : Value → List Char → Eval Value) (context : Value) :
    Segment → Eval Value
  | property label => cat.readProperty context (String.ofList (trim label))
  | bracketed .round label inside _ => do
      let args ← (Line.arguments inside).mapM (recur context)
      cat.callMethod context (String.ofList (trim label)) args
  | bracketed .square label inside _ => do
      let sequence ← cat.indexed context (trim label)
      let index ← recur context inside
      Catalog.itemAt sequence index

end Segment

def Line.Bracket.trigger : Bracket → Trigger
  | .round => .call
  | .square => .index

theorem Line.Bracket.char_trigger (kind : Bracket) : kind.trigger.char = kind.opener := by
  cases kind <;> rfl

theorem Line.Bracket.isBlank_closer (kind : Bracket) : Text.isBlank kind.closer = false := by
  cases kind <;> decide

/-- The form that a text with brackets takes. -/
theorem Line.Form.ofLine_bracketed {kind : Bracket} {label : List Char}
    (hlabel : Segment.MayStand kind label) (rest : List Char) :
    Form.ofLine (label ++ kind.opener :: rest) =
      Form.ofTrigger (trim label) kind.trigger (trimRight rest) := by
  rcases hlabel with hlabel | ⟨rfl, hblank⟩
  · rw [← Bracket.char_trigger]
    exact Form.ofLine_label hlabel kind.trigger rest
  · rw [Text.trim_of_blanks hblank]
    exact Form.ofLine_opening hblank rest

/-! ### How a text starts -/

/-- A text that is not blank and starts neither with a point nor with the
marker of a navigation. -/
structure Front (s : List Char) : Prop where
  not_blanks : ¬Blanks s
  point : (trim s).head? ≠ some '.'
  unmarked : isNavigation s = false

theorem front_of_trimLeft {s r : List Char} {c : Char} (hs : trimLeft s = c :: r)
    (hpoint : c ≠ '.') (hmarker : ¬Catalog.navigationMarker <+: c :: r) : Front s := by
  have hc : Text.isBlank c = false := by
    have h := List.head?_dropWhile_not Text.isBlank s
    rw [← trimLeft, hs] at h
    simpa using h
  have htrim : trim s = c :: trimRight r := by rw [trim, hs, Text.trimRight_cons hc]
  refine ⟨?_, ?_, ?_⟩
  · intro hb
    rw [Text.trim_of_blanks hb] at htrim
    exact absurd htrim (by simp)
  · rw [htrim]
    simpa using hpoint
  · rw [Bool.eq_false_iff]
    intro hnav
    refine hmarker ?_
    rw [← hs]
    exact (isNavigation_iff.1 hnav).trans (List.rdropWhile_prefix ..)

theorem Line.IsName.not_marker {n : List Char} (h : IsName n) (rest : List Char) :
    ¬Catalog.navigationMarker <+: n ++ rest := by
  obtain ⟨c, s, rfl, -⟩ := h.head
  intro hp
  rw [Catalog.navigationMarker, List.cons_append, List.cons_prefix_cons] at hp
  obtain ⟨rfl, hp⟩ := hp
  cases s with
  | nil => exact h.notSign.2 rfl
  | cons d s =>
      rw [List.cons_append, List.cons_prefix_cons] at hp
      obtain ⟨rfl, -⟩ := hp
      exact absurd h.notArrow (by simp [List.isPrefixOf])

theorem Line.IsLabel.not_blanks {label : List Char} (h : IsLabel label) : ¬Blanks label := by
  intro hb
  exact IsName.nonempty h (Text.trim_of_blanks hb)

theorem Line.IsLabel.front {label : List Char} (h : IsLabel label) (rest : List Char) :
    Front (label ++ rest) := by
  obtain ⟨b, -, hlabel⟩ := Text.trimLeft_eq_trim_append label
  obtain ⟨c, s, hn, hc⟩ := IsName.head h
  have hs : trimLeft (label ++ rest) = trim label ++ (b ++ rest) := by
    rw [Text.trimLeft_append_of_not_blanks (IsLabel.not_blanks h), hlabel, List.append_assoc]
  have hmarker := IsName.not_marker h (b ++ rest)
  rw [hn, List.cons_append] at hs hmarker
  exact front_of_trimLeft hs (Line.ne_point_of_isPlain hc) hmarker

theorem front_opening {b : List Char} (hb : Blanks b) (rest : List Char) :
    Front (b ++ '[' :: rest) := by
  have hs : trimLeft (b ++ '[' :: rest) = '[' :: rest := by
    rw [Text.trimLeft_append_cons (by decide), Text.trimLeft_eq_nil_iff.2 hb, List.nil_append]
  refine front_of_trimLeft hs (by decide) ?_
  rw [Catalog.navigationMarker, List.cons_prefix_cons]
  exact fun h => absurd h.1 (by decide)

theorem Segment.WellFormed.front {seg : Segment} (h : seg.WellFormed) (rest : List Char) :
    Front (seg.text ++ rest) := by
  cases seg with
  | property label => exact Line.IsLabel.front h rest
  | bracketed kind label inside gap =>
      rw [text, List.append_assoc, List.cons_append]
      rcases h.1 with hlabel | ⟨rfl, hblank⟩
      · exact Line.IsLabel.front hlabel _
      · exact front_opening hblank _

/-! ### Texts that start with a segment -/

namespace Catalog

variable (cat : Catalog)

/-- A text that starts with a property goes on behind the point. -/
theorem evalForm_property (levels : Nat) (context : Value) {label : List Char}
    (h : IsLabel label) (rest : List Char) :
    cat.evalForm (cat.evalExpr levels) context (Form.ofLine (label ++ '.' :: rest)) =
      (Segment.property label).eval cat (cat.evalExpr levels) context >>=
        goOn (cat.evalExpr levels) rest := by
  have hform : Form.ofLine (label ++ '.' :: rest) = .member (trim label) (trimRight rest) :=
    Form.ofLine_label h .member rest
  rw [hform, evalForm, Segment.eval]
  congr 1
  funext value
  simp only [goOn, evalExpr_trimRight]

/-- A text that starts with brackets goes on behind them. -/
theorem evalForm_bracketed (levels : Nat) (context : Value) {kind : Bracket}
    {label inside : List Char} (hlabel : Segment.MayStand kind label)
    (hinside : Line.Balanced kind inside) (gap after : List Char) :
    cat.evalForm (cat.evalExpr levels) context
        (Form.ofLine (label ++ kind.opener :: (inside ++ kind.closer :: after))) =
      (Segment.bracketed kind label inside gap).eval cat (cat.evalExpr levels) context >>=
        continueChain (cat.evalExpr levels) after := by
  have hrest : trimRight (inside ++ kind.closer :: after) =
      inside ++ kind.closer :: trimRight after :=
    Text.trimRight_append_cons kind.isBlank_closer inside after
  rw [Form.ofLine_bracketed hlabel, hrest]
  have hend (value : Value) : continueChain (cat.evalExpr levels) (trimRight after) value =
      continueChain (cat.evalExpr levels) after value :=
    continueChain_trimRight _ after value
  have hparts := Line.enclosed_of_balanced hinside (trimRight after)
  cases kind with
  | round =>
      -- a call needs a name, an index does not
      have hname : (trim label).isEmpty = false := by
        rcases hlabel with hlabel | ⟨hkind, -⟩
        · rw [← Bool.not_eq_true, List.isEmpty_iff]
          exact IsName.nonempty hlabel
        · exact absurd hkind (by decide)
      rw [Bracket.opener] at hparts
      simp only [Bracket.trigger, Form.ofTrigger, Trigger.char, hparts, Except.map, evalForm,
        hname, bracketed, Segment.eval, hend, pure_bind, bind_assoc]
      rfl
  | square =>
      rw [Bracket.opener] at hparts
      simp only [Bracket.trigger, Form.ofTrigger, Trigger.char, hparts, Except.map, evalForm,
        bracketed, Segment.eval, hend, pure_bind, bind_assoc]

end Catalog

namespace Segment

def isBracketed : Segment → Bool
  | property _ => false
  | bracketed .. => true

def run (cat : Catalog) (recur : Value → List Char → Eval Value) (context : Value)
    (seg : Segment) : Eval Value :=
  if context.isNull then Eval.fail .nullContext else seg.eval cat recur context

variable (cat : Catalog) {seg : Segment}

/-- Brackets alone take their step. -/
theorem WellFormed.evalExpr_bracketed (h : seg.WellFormed) (hb : seg.isBracketed = true)
    (levels : Nat) (context : Value) :
    cat.evalExpr (levels + 1) context seg.text = seg.run cat (cat.evalExpr levels) context := by
  have hblank := (h.front []).not_blanks
  rw [List.append_nil] at hblank
  rw [cat.evalExpr_of_not_blank levels context hblank, run]
  split
  · rfl
  cases seg with
  | property label => exact absurd hb (by simp [isBracketed])
  | bracketed kind label inside gap =>
      obtain ⟨hlabel, hinside, hgap⟩ := h
      have hend : Catalog.continueChain (cat.evalExpr levels) gap = pure := by
        funext value
        exact Catalog.continueChain_blank _ hgap value
      rw [text, cat.evalForm_bracketed levels context hlabel hinside gap gap, hend, bind_pure]

/-- The text of a segment alone takes its step, up to the kind of a missing
member. -/
theorem WellFormed.coarse_evalExpr (h : seg.WellFormed) (levels : Nat) (context : Value) :
    (cat.evalExpr (levels + 1) context seg.text).coarse =
      (seg.run cat (cat.evalExpr levels) context).coarse := by
  cases seg with
  | property label =>
      rw [text, cat.evalExpr_of_not_blank levels context h.not_blanks, run]
      split
      · rfl
      · rw [Form.ofLine_name h, Catalog.evalForm, eval]
        exact cat.coarse_lookupWord context (IsName.trimmed h)
  | bracketed kind label inside gap => rw [h.evalExpr_bracketed cat rfl levels context]

/-- In front of a point, a segment takes its step and what follows the point
goes on. -/
theorem WellFormed.evalExpr_point (h : seg.WellFormed) (levels : Nat) (context : Value)
    {rest : List Char} (hrest : ¬Blanks rest) :
    cat.evalExpr (levels + 1) context (seg.text ++ '.' :: rest) =
      seg.run cat (cat.evalExpr levels) context >>=
        Catalog.goOn (cat.evalExpr levels) rest := by
  rw [cat.evalExpr_of_not_blank levels context (h.front _).not_blanks, run]
  split
  · rfl
  cases seg with
  | property label => exact cat.evalForm_property levels context h rest
  | bracketed kind label inside gap =>
      obtain ⟨hlabel, hinside, hgap⟩ := h
      have htext : (bracketed kind label inside gap).text ++ '.' :: rest =
          label ++ kind.opener :: (inside ++ kind.closer :: (gap ++ '.' :: rest)) := by
        simp [text]
      have hend : Catalog.continueChain (cat.evalExpr levels) (gap ++ '.' :: rest) =
          Catalog.goOn (cat.evalExpr levels) rest := by
        funext value
        exact cat.continueChain_point levels hgap hrest value
      rw [htext, cat.evalForm_bracketed levels context hlabel hinside gap, hend]

/-- Behind brackets, the point may be left out. -/
theorem WellFormed.evalExpr_direct (h : seg.WellFormed) (hb : seg.isBracketed = true) (levels : Nat)
    (context : Value) {rest : List Char} (hrest : Front rest) :
    cat.evalExpr (levels + 1) context (seg.text ++ rest) =
      seg.run cat (cat.evalExpr levels) context >>=
        Catalog.goOn (cat.evalExpr levels) rest := by
  rw [cat.evalExpr_of_not_blank levels context (h.front _).not_blanks, run]
  split
  · rfl
  cases seg with
  | property label => exact absurd hb (by simp [isBracketed])
  | bracketed kind label inside gap =>
      obtain ⟨hlabel, hinside, hgap⟩ := h
      have htext : (bracketed kind label inside gap).text ++ rest =
          label ++ kind.opener :: (inside ++ kind.closer :: (gap ++ rest)) := by
        simp [text]
      have htrim : trim (gap ++ rest) = trim rest := by
        rw [trim, Text.trimLeft_append_of_blanks hgap, ← trim]
      have hblank : ¬Blanks (gap ++ rest) := by
        rw [← Text.blanks_trim_iff, htrim, Text.blanks_trim_iff]
        exact hrest.not_blanks
      have hend : Catalog.continueChain (cat.evalExpr levels) (gap ++ rest) =
          Catalog.goOn (cat.evalExpr levels) rest := by
        funext value
        rw [cat.continueChain_direct levels hblank (by rw [htrim]; exact hrest.point),
          Catalog.goOn, Catalog.goOn]
        congr 1
        funext v
        rw [← cat.evalExpr_trim, htrim, cat.evalExpr_trim]
      rw [htext, cat.evalForm_bracketed levels context hlabel hinside gap, hend]

end Segment

/-! ### Assignments -/

namespace Catalog

variable (cat : Catalog)

/-- Checks that a property exists and can be assigned to. -/
def requireWritable (context : Value) (label : String) : Eval Unit := do
  let w ← get
  match cat.findProperty? w context label with
  | some p =>
    if p.writable then return ()
    else Eval.fail (.memberNotFound (w.className context) .writableProperty label)
  | none => Eval.fail (.memberNotFound (w.className context) .writableProperty label)

/-- An assignment checks that the property is writable, then evaluates its
right side, then stores. -/
theorem evalForm_assign (recur : Value → List Char → Eval Value) (context : Value)
    {name : List Char} (hname : name ≠ []) (right : List Char) :
    cat.evalForm recur context (.assign name right) = (do
      cat.requireWritable context (String.ofList name)
      let value ← recur context right
      cat.writeProperty context (String.ofList name) value) := by
  have hempty : name.isEmpty = false := by simpa using hname
  simp only [evalForm, hempty, requireWritable, bind_assoc, Bool.false_eq_true,
    if_false]
  congr 1
  funext w
  cases cat.findProperty? w context (String.ofList name) with
  | none => rfl
  | some p => cases hp : p.writable <;> simp [hp, Eval.fail_bind]

theorem evalExpr_assign {label : List Char} (h : IsLabel label) (levels : Nat)
    (context : Value) (right : List Char) :
    cat.evalExpr (levels + 1) context (label ++ '=' :: right) =
      if context.isNull then Eval.fail .nullContext
      else (do
        cat.requireWritable context (String.ofList (trim label))
        let value ← cat.evalExpr levels context right
        cat.writeProperty context (String.ofList (trim label)) value) := by
  have hform : Form.ofLine (label ++ '=' :: right) = .assign (trim label) (trimRight right) :=
    Form.ofLine_label h .assign right
  rw [cat.evalExpr_of_not_blank levels context (h.front _).not_blanks, hform,
    cat.evalForm_assign _ _ (IsName.nonempty h), evalExpr_trimRight]

end Catalog

end ObjectConsole
