import ObjectConsole.Proofs.Evaluation.Assignment
import ObjectConsole.Proofs.Session.Navigation
import ObjectConsole.Prompt.Completion

/-!
Completion inside an assigned value or an argument. The evaluator follows the
chain of properties in front of the member and evaluates the text inside against
the value that it has reached. The prompt looks for the expression to complete
behind the last break of words, and what stands in front of that is lost to it,
chain and all: it offers the members of the current context. The two agree where
nothing is in front of the member.
-/

namespace ObjectConsole

open Catalog (navigationMarker)
open Line (Form IsName)
open Literal (readScalar)
open Text (Blanks trim trimLeft trimRight)

/-! ### Words -/

/-- A character that words are made of: no blank, no sign or slash, and none that
the scanners know. Letters, digits and underscores are such characters. -/
def isWordLetter (c : Char) : Bool :=
  Line.isPlain c && !Text.isBlank c && c != '+' && c != '-' && c != '/'

structure IsWord (n : List Char) : Prop where
  nonempty : n ≠ []
  chars : ∀ c ∈ n, isWordLetter c = true

instance (n : List Char) : Decidable (IsWord n) :=
  decidable_of_iff (n ≠ [] ∧ n.all isWordLetter = true)
    ⟨fun ⟨h1, h2⟩ => ⟨h1, List.all_eq_true.1 h2⟩, fun ⟨h1, h2⟩ => ⟨h1, List.all_eq_true.2 h2⟩⟩

theorem isPlain_of_isWordLetter {c : Char} (h : isWordLetter c = true) :
    Line.isPlain c = true := by
  simp only [isWordLetter, Bool.and_eq_true] at h
  exact h.1.1.1.1

theorem isBlank_of_isWordLetter {c : Char} (h : isWordLetter c = true) :
    Text.isBlank c = false := by
  simp only [isWordLetter, Bool.and_eq_true] at h
  simpa using h.1.1.1.2

theorem ne_point_of_isWordLetter {c : Char} (h : isWordLetter c = true) : c ≠ '.' :=
  Line.ne_point_of_isPlain (isPlain_of_isWordLetter h)

namespace IsWord

variable {n : List Char}

theorem trimmed (h : IsWord n) : trim n = n :=
  Text.trim_of_no_blank fun c hc => isBlank_of_isWordLetter (h.chars c hc)

theorem head (h : IsWord n) : ∃ c s, n = c :: s ∧ isWordLetter c = true := by
  obtain ⟨c, s, rfl⟩ := List.exists_cons_of_ne_nil h.nonempty
  exact ⟨c, s, rfl, h.chars c (by simp)⟩

theorem free (h : IsWord n) : ∀ c ∈ n, Line.isTrigger c = false := fun c hc =>
  Line.isTrigger_of_isPlain (isPlain_of_isWordLetter (h.chars c hc))

theorem not_mem {c : Char} (h : IsWord n) (hc : isWordLetter c = false) : c ∉ n := by
  intro hmem
  rw [h.chars c hmem] at hc
  exact absurd hc (by simp)

/-- A word that is no scalar is a name. -/
theorem isName (h : IsWord n) (hscalar : readScalar n = .ok none) : IsName n where
  nonempty := h.nonempty
  plain c hc := isPlain_of_isWordLetter (h.chars c hc)
  trimmed := h.trimmed
  notScalar := hscalar
  notSign := ⟨fun hn => h.not_mem (c := '+') (by decide) (by simp [hn]),
    fun hn => h.not_mem (c := '-') (by decide) (by simp [hn])⟩
  notArrow := by
    rw [Bool.eq_false_iff]
    intro hmarker
    exact h.not_mem (c := '-') (by decide) ((List.isPrefixOf_iff_prefix.1 hmarker).subset (by simp))

theorem unmarked (h : IsWord n) : isNavigation n = false := by
  rw [Bool.eq_false_iff, ne_eq, isNavigation_iff, h.trimmed]
  intro hmarker
  exact h.not_mem (c := '-') (by decide) (hmarker.subset (by simp [navigationMarker]))

theorem trimLeft_append (h : IsWord n) (rest : List Char) : trimLeft (n ++ rest) = n ++ rest := by
  obtain ⟨c, s, rfl, hc⟩ := h.head
  rw [trimLeft, List.cons_append, List.dropWhile_cons_of_neg (by simp [isBlank_of_isWordLetter hc])]

theorem not_blanks_append (h : IsWord n) (rest : List Char) : ¬Blanks (n ++ rest) := by
  obtain ⟨c, s, rfl, hc⟩ := h.head
  intro hb
  have hblank := hb c (by simp)
  rw [isBlank_of_isWordLetter hc] at hblank
  exact absurd hblank (by simp)

theorem unmarked_append (h : IsWord n) (t : Line.Trigger) (rest : List Char) :
    isNavigation (n ++ t.char :: rest) = false :=
  (isNavigation_append_trigger n t rest).trans h.unmarked

/-- A word in front of an assignment or a call starts no scalar. -/
theorem readScalar_append (h : IsWord n) {t : Line.Trigger} (ht : t ≠ .member)
    (rest : List Char) : readScalar (n ++ t.char :: rest) = .ok none := by
  have htrim : trim (n ++ t.char :: rest) = n ++ t.char :: trimRight rest := by
    have hn := h.trimLeft_append []
    rw [List.append_nil] at hn
    rw [Text.trim_append_cons (Line.isBlank_trigger t), hn]
  have hquoted : Literal.readQuoted (n ++ t.char :: trimRight rest) = none := by
    obtain ⟨c, s, rfl, hc⟩ := h.head
    refine Literal.readQuoted_of_head fun d hd => ?_
    obtain rfl : c = d := by simpa using hd
    exact Line.isQuote_of_isPlain (isPlain_of_isWordLetter hc)
  rw [readScalar, htrim, Literal.readTrimmed_of_not_unquoted
    (Literal.not_unquoted_of_trigger ht (by simp)), hquoted]
  rfl

/-- The form of a word in front of an assignment or a call. -/
theorem ofLine_append (h : IsWord n) {t : Line.Trigger} (ht : t ≠ .member) (rest : List Char) :
    Form.ofLine (n ++ t.char :: rest) = Form.ofTrigger n t (trimRight rest) := by
  rw [Form.ofLine_cut h.free (fun _ => ht) (h.readScalar_append ht rest), h.trimmed]

/-- An assignment or a call is evaluated as such. -/
theorem evaluate_append (h : IsWord n) (cat : Catalog) {t : Line.Trigger} (ht : t ≠ .member)
    {o : Value} (ho : o.isNull = false) (rest : List Char) (w : World) :
    cat.evaluate (n ++ t.char :: rest) o w = Outcome.ofResult false
      (cat.evalForm (cat.evalExpr cat.limits.expressions) o
        (Form.ofTrigger n t (trimRight rest)) w) := by
  have hblank := h.not_blanks_append (t.char :: rest)
  rw [cat.evaluate_plain hblank (h.unmarked_append t rest), cat.evalExpr_of_not_blank _ _ hblank,
    ho, if_neg (by simp), h.ofLine_append ht]

end IsWord

/-! ### Chains -/

def dotted (names : List (List Char)) : List Char := ['.'].intercalate names

theorem dotted_singleton (n : List Char) : dotted [n] = n := List.intercalate_singleton

theorem dotted_cons {names : List (List Char)} (hne : names ≠ []) (n : List Char) :
    dotted (n :: names) = n ++ '.' :: dotted names := by
  obtain ⟨n', names, rfl⟩ := List.exists_cons_of_ne_nil hne
  rw [dotted, List.intercalate_cons_cons, List.append_assoc]
  rfl

theorem dotted_concat {names : List (List Char)} (hne : names ≠ []) (n : List Char) :
    dotted (names ++ [n]) = dotted names ++ '.' :: n := by
  induction names with
  | nil => exact absurd rfl hne
  | cons n' names ih =>
      rw [List.cons_append, dotted_cons (by simp)]
      by_cases hnames : names = []
      · simp [hnames, dotted_singleton]
      · rw [ih hnames, dotted_cons hnames, List.append_assoc, List.cons_append]

/-- A name is a segment of a chain. -/
theorem wellFormed_property {n : List Char} (hn : IsName n) : (Segment.property n).WellFormed := by
  rw [Segment.WellFormed, Line.IsLabel, hn.trimmed]
  exact hn

theorem isPath_dotted {names : List (List Char)} (hne : names ≠ [])
    (hnames : ∀ n ∈ names, IsName n) : IsPath (dotted names) := by
  induction names with
  | nil => exact absurd rfl hne
  | cons n names ih =>
      obtain ⟨hn, hrest⟩ := List.forall_mem_cons.1 hnames
      have hseg := wellFormed_property hn
      by_cases hnil : names = []
      · rw [hnil, dotted_singleton]
        exact .segment hseg
      · rw [dotted_cons hnil]
        exact .point hseg (ih hnil hrest)

/-- A line that gives a value and does not navigate is an expression with that
value. -/
theorem Catalog.evalExpr_of_evaluate (cat : Catalog) {text : List Char} (hfront : Front text)
    {context v : Value} {w w₁ : World} {navigates : Bool}
    (h : cat.evaluate text context w = (.value v navigates, w₁)) :
    cat.evalExpr (cat.limits.expressions + 1) context text w = .ok v w₁ := by
  rw [cat.evaluate_plain hfront.not_blanks hfront.unmarked] at h
  exact (Outcome.eq_ok_of_ofResult h).1

/-- What stands behind a path is evaluated against the value of the path, unless
that nests too deeply. -/
theorem IsPath.evalExpr_behind {p : List Char} (hp : IsPath p) (cat : Catalog) {levels : Nat}
    {context v : Value} {w w₁ : World} (hv : cat.evalExpr levels context p w = .ok v w₁)
    {rest : List Char} (hrest : ¬Blanks rest) :
    (∃ w₂, cat.evalExpr levels context (p ++ '.' :: rest) w =
        .error (.reported .nestedTooDeeply) w₂) ∨
      cat.evalExpr levels context (p ++ '.' :: rest) w =
        cat.evalExpr levels (w₁.adopt v).1 rest (w₁.adopt v).2 := by
  obtain ⟨used, steps, hsteps⟩ := hp.leadsOn cat
  rw [hsteps.further _ _ _ hrest, Eval.bind_apply]
  rcases Eval.apply_of_coarse_eq (hsteps.alone levels context) w with
    ⟨u, w₂, hsteps_ok, hpath_ok⟩ | ⟨_, _, _, -, hpath_error, -⟩
  · obtain ⟨rfl, rfl⟩ : v = u ∧ w₁ = w₂ := by
      rw [hv] at hpath_ok
      simpa using hpath_ok
    simp only [hsteps_ok, Session.goOn_apply]
    exact cat.within_evalExpr (Nat.sub_le levels used) (w₁.adopt v).1 rest (w₁.adopt v).2
  · rw [hv] at hpath_error
    exact absurd hpath_error (by simp)

/-- Where a chain of properties leads from a context: to the value that it has as
a line, which is held from then on. No property leads to the context itself. -/
inductive LeadsTo (cat : Catalog) (context : Value) (w : World) :
    List (List Char) → Value → World → Prop
  | here : LeadsTo cat context w [] context w
  | chain {names : List (List Char)} {v : Value} {w₁ : World} (hne : names ≠ [])
      (hvalue : cat.evaluate (dotted names) context w = (.value v false, w₁)) :
      LeadsTo cat context w names (w₁.adopt v).1 (w₁.adopt v).2

namespace LeadsTo

variable {cat : Catalog} {context o : Value} {w w' : World} {names : List (List Char)}
  {m : List Char}

/-- What stands behind a chain is evaluated where the chain leads to, unless that
nests too deeply. -/
theorem evaluate_behind (h : LeadsTo cat context w names o w') (hnames : ∀ n ∈ names, IsName n)
    (hm : IsWord m) (t : Line.Trigger) (rest : List Char) :
    (cat.evaluate (dotted (names ++ [m]) ++ t.char :: rest) context w).1 =
        .failed .nestedTooDeeply ∨
      cat.evaluate (dotted (names ++ [m]) ++ t.char :: rest) context w =
        cat.evaluate (m ++ t.char :: rest) o w' := by
  cases h with
  | here =>
      rw [List.nil_append, dotted_singleton]
      exact .inr rfl
  | @chain _ v w₁ hne hvalue =>
      have hpath := isPath_dotted hne hnames
      have hfront := hpath.front ('.' :: (m ++ t.char :: rest))
      have hblank := hm.not_blanks_append (t.char :: rest)
      have hchain :
          cat.evalExpr (cat.limits.expressions + 1) context (dotted names) w = .ok v w₁ := by
        have halone := hpath.front []
        rw [List.append_nil] at halone
        exact cat.evalExpr_of_evaluate halone hvalue
      rw [dotted_concat hne, List.append_assoc, List.cons_append,
        cat.evaluate_plain hfront.not_blanks hfront.unmarked,
        cat.evaluate_plain hblank (hm.unmarked_append t rest)]
      rcases hpath.evalExpr_behind cat hchain hblank with ⟨w₂, hdeep⟩ | hsame
      · rw [hdeep]
        exact .inl rfl
      · rw [hsame]
        exact .inr rfl

/-- The right side of an assignment is evaluated against the object that the
chain in front of the member has reached. -/
theorem evaluate_assign (h : LeadsTo cat context w names o w') (hnames : ∀ n ∈ names, IsName n)
    (ho : o.isNull = false) (hm : IsWord m) (right : List Char) :
    (cat.evaluate (dotted (names ++ [m]) ++ '=' :: right) context w).1 =
        .failed .nestedTooDeeply ∨
      cat.evaluate (dotted (names ++ [m]) ++ '=' :: right) context w =
        Outcome.ofResult false ((do
          cat.requireWritable o (String.ofList m)
          let value ← cat.evalExpr cat.limits.expressions o right
          cat.writeProperty o (String.ofList m) value) w') := by
  refine (h.evaluate_behind hnames hm .assign right).imp_right fun hbehind => hbehind.trans ?_
  rw [hm.evaluate_append cat (by decide) ho, Form.ofTrigger, cat.evalForm_assign _ _ hm.nonempty,
    cat.evalExpr_trimRight]

/-- The arguments of a call are evaluated against the object that the chain in
front of the method has reached. -/
theorem evaluate_call (h : LeadsTo cat context w names o w') (hnames : ∀ n ∈ names, IsName n)
    (ho : o.isNull = false) (hm : IsWord m) {inside : List Char}
    (hinside : Line.Balanced .round inside) :
    (cat.evaluate (dotted (names ++ [m]) ++ '(' :: (inside ++ [')'])) context w).1 =
        .failed .nestedTooDeeply ∨
      cat.evaluate (dotted (names ++ [m]) ++ '(' :: (inside ++ [')'])) context w =
        Outcome.ofResult false ((do
          let args ← (Line.arguments inside).mapM (cat.evalExpr cat.limits.expressions o)
          cat.callMethod o (String.ofList m) args) w') := by
  refine (h.evaluate_behind hnames hm .call _).imp_right fun hbehind => hbehind.trans ?_
  have hrest : trimRight (inside ++ [')']) = inside ++ [')'] :=
    Text.trimRight_append_cons (by decide) inside []
  have hparts : Line.enclosed .round ('(' :: (inside ++ [')'])) = .ok ⟨[], inside, []⟩ :=
    Line.enclosed_of_balanced hinside []
  have hname : m.isEmpty = false := by simpa using hm.nonempty
  have hend : Catalog.continueChain (cat.evalExpr cat.limits.expressions) [] = pure := by
    funext value
    exact Catalog.continueChain_blank _ (by simp [Blanks]) value
  rw [hm.evaluate_append cat (by decide) ho, hrest, Form.ofTrigger, Line.Trigger.char, hparts]
  simp only [Except.map, Catalog.evalForm, hname, Catalog.bracketed, hend, bind_pure, pure_bind]
  rfl

end LeadsTo

/-! ### Offers -/

namespace Prompt

variable {cat : Catalog} {word : List Char}

theorem isWordBreak_of_isWordLetter {c : Char} (h : isWordLetter c = true) :
    isWordBreak c = false := by
  have hplain := isPlain_of_isWordLetter h
  have hblank := isBlank_of_isWordLetter h
  rw [Line.isPlain_iff] at hplain
  simp only [Line.specials, List.mem_cons, List.not_mem_nil, or_false, not_or] at hplain
  simp [isWordBreak, hplain, hblank]

theorem isWordBreak_trigger {t : Line.Trigger} (ht : t ≠ .member) : isWordBreak t.char = true := by
  cases t with
  | member => exact absurd rfl ht
  | _ => decide

/-- The expression to complete starts behind the last trigger. -/
theorem innermost_behind (front : List Char) {t : Line.Trigger} (ht : t ≠ .member)
    (hword : ∀ c ∈ word, isWordLetter c = true) : innermost (front ++ t.char :: word) = word := by
  -- a marker in front is cut off, but not the trigger
  obtain ⟨front', hfront⟩ : ∃ front', (Catalog.navigation? (front ++ t.char :: word)).getD
      (front ++ t.char :: word) = front' ++ t.char :: word := by
    rw [Catalog.navigation?]
    split
    · next hmarker =>
        have ht : t.char ∉ navigationMarker := by cases t <;> decide
        rw [List.isPrefixOf_iff_prefix, prefix_append_cons_iff ht] at hmarker
        obtain ⟨rest, rfl⟩ := hmarker
        refine ⟨trimLeft rest, ?_⟩
        rw [List.append_assoc, List.drop_left, Option.getD_some,
          Text.trimLeft_append_cons (Line.isBlank_trigger t)]
    · exact ⟨front, rfl⟩
  have htake : (front' ++ t.char :: word).reverse.takeWhile (fun c => !isWordBreak c) =
      word.reverse := by
    rw [List.reverse_append, List.reverse_cons, List.append_assoc, List.takeWhile_append_of_pos,
      List.singleton_append, List.takeWhile_cons_of_neg, List.append_nil]
    · simp [isWordBreak_trigger ht]
    · intro c hc
      simp [isWordBreak_of_isWordLetter (hword c (List.mem_reverse.1 hc))]
  have hdrop : word.dropWhile (· == '.') = word := by
    rw [List.dropWhile_eq_self_iff]
    intro hpos
    simpa using ne_point_of_isWordLetter (hword _ (List.getElem_mem hpos))
  simp only [innermost, hfront, htake, List.reverse_reverse, hdrop]

theorem chainAndWord_word (hword : ∀ c ∈ word, isWordLetter c = true) :
    chainAndWord word = (none, word) := by
  have htake : word.reverse.takeWhile (· != '.') = word.reverse := by
    rw [List.takeWhile_eq_self_iff]
    intro c hc
    simpa using ne_point_of_isWordLetter (hword c (List.mem_reverse.1 hc))
  simp [chainAndWord, htake]

/-- Behind a trigger, members of the current context are offered, whatever stands
in front of it. -/
theorem complete_behind (s : Session) {front : List Char} {t : Line.Trigger} (ht : t ≠ .member)
    (hfront : (front ++ t.char :: word).head? ≠ some '/')
    (hword : ∀ c ∈ word, isWordLetter c = true) :
    complete cat s (front ++ t.char :: word) =
      (memberCompletions cat s.world s.stack.current word, s) := by
  have hleft : trimLeft (front ++ t.char :: word) = trimLeft front ++ t.char :: word :=
    Text.trimLeft_append_cons (Line.isBlank_trigger t) front word
  rw [complete, if_neg (by simpa using hfront), hleft, innermost_behind _ ht hword,
    chainAndWord_word hword]
  rfl

/-- The start of a chain with a member behind it. -/
theorem head_dotted_append {names : List (List Char)} {m : List Char}
    (hnames : ∀ n ∈ names, IsWord n) (hm : IsWord m) (rest : List Char) :
    (dotted (names ++ [m]) ++ rest).head? ≠ some '/' := by
  obtain ⟨c, s, hs, hc⟩ : ∃ c s, dotted (names ++ [m]) = c :: s ∧ isWordLetter c = true := by
    cases names with
    | nil =>
        rw [List.nil_append, dotted_singleton]
        exact hm.head
    | cons n names =>
        obtain ⟨c, s, rfl, hc⟩ := (hnames n (by simp)).head
        exact ⟨c, _, by rw [List.cons_append, dotted_cons (by simp), List.cons_append], hc⟩
  rw [hs, List.cons_append, List.head?_cons, ne_eq, Option.some_inj]
  rintro rfl
  exact absurd hc (by decide)

/-- Inside an assigned value and inside an argument, members of the current context
are offered, which is right where nothing is in front of the member. What stands
there is evaluated against the object that the chain in front leads to. -/
theorem offers_of_context_values_of_object (cat : Catalog) (s : Session)
    {names : List (List Char)} {m word : List Char} {o : Value} {w : World}
    (hnames : ∀ n ∈ names, IsWord n ∧ readScalar n = .ok none) (hm : IsWord m)
    (hword : ∀ c ∈ word, isWordLetter c = true)
    (hleads : LeadsTo cat s.stack.current s.world names o w) (ho : o.isNull = false) :
    (∀ c ∈ ['=', '('], complete cat s (dotted (names ++ [m]) ++ c :: word) =
      (memberCompletions cat s.world s.stack.current word, s)) ∧
    (names = [] → ∀ c ∈ ['=', '('], complete cat s (m ++ c :: word) =
      (memberCompletions cat w o word, s)) ∧
    (∀ right,
      let outcome := cat.evaluate (dotted (names ++ [m]) ++ '=' :: right) s.stack.current s.world
      outcome.1 = .failed .nestedTooDeeply ∨
        outcome = Outcome.ofResult false ((do
          cat.requireWritable o (String.ofList m)
          let value ← cat.evalExpr cat.limits.expressions o right
          cat.writeProperty o (String.ofList m) value) w)) ∧
    ∀ inside, Line.Balanced .round inside →
      let outcome := cat.evaluate (dotted (names ++ [m]) ++ '(' :: (inside ++ [')']))
        s.stack.current s.world
      outcome.1 = .failed .nestedTooDeeply ∨
        outcome = Outcome.ofResult false ((do
          let args ← (Line.arguments inside).mapM (cat.evalExpr cat.limits.expressions o)
          cat.callMethod o (String.ofList m) args) w) := by
  have hwords (n) (hn : n ∈ names) : IsWord n := (hnames n hn).1
  have hall (n) (hn : n ∈ names) : IsName n := (hnames n hn).1.isName (hnames n hn).2
  have hoffers : ∀ c ∈ ['=', '('], complete cat s (dotted (names ++ [m]) ++ c :: word) =
      (memberCompletions cat s.world s.stack.current word, s) := by
    intro c hc
    obtain ⟨t, ht, rfl⟩ : ∃ t : Line.Trigger, t ≠ .member ∧ t.char = c := by
      obtain rfl | rfl : c = '=' ∨ c = '(' := by simpa using hc
      · exact ⟨.assign, by decide, rfl⟩
      · exact ⟨.call, by decide, rfl⟩
    exact complete_behind s ht (head_dotted_append hwords hm _) hword
  refine ⟨hoffers, ?_, fun right => hleads.evaluate_assign hall ho hm right,
    fun inside hinside => hleads.evaluate_call hall ho hm hinside⟩
  rintro rfl
  rw [List.nil_append, dotted_singleton] at hoffers
  cases hleads with
  | here => exact hoffers
  | chain hne _ => exact absurd rfl hne

end Prompt

namespace Sample

open Prompt

/-- Nothing is offered for `Sp` behind the name of the pet, as no member of the
person starts so. The text is looked up on the pet, and two of its members do. -/
theorem no_offers_behind_pet_name :
    ∃ pet, LeadsTo catalog Session.demonstration.stack.current Session.demonstration.world
        ["Pet".toList] pet Session.demonstration.world ∧
      complete catalog Session.demonstration "Pet.Name=Sp".toList =
        ([], Session.demonstration) ∧
      (memberCompletions catalog Session.demonstration.world pet "Sp".toList).map (·.text) =
        ["Species", "Speak"] := by
  obtain ⟨r, hvalue, hmembers⟩ : ∃ r,
      catalog.evaluate "Pet".toList Session.demonstration.stack.current
        Session.demonstration.world = (.value (.object r) false, Session.demonstration.world) ∧
      (memberCompletions catalog Session.demonstration.world (.object r) "Sp".toList).map
        (·.text) = ["Species", "Speak"] :=
    ⟨_, rfl, by decide +kernel⟩
  have hleads : LeadsTo catalog Session.demonstration.stack.current Session.demonstration.world
      ["Pet".toList] (.object r) Session.demonstration.world :=
    .chain (List.cons_ne_nil _ _) (by rwa [dotted_singleton])
  have hoffers : complete catalog Session.demonstration
      (dotted (["Pet".toList] ++ ["Name".toList]) ++ '=' :: "Sp".toList) =
        (memberCompletions catalog Session.demonstration.world Session.demonstration.stack.current
          "Sp".toList, Session.demonstration) :=
    (offers_of_context_values_of_object catalog Session.demonstration (by decide +kernel)
      (by decide +kernel) (List.all_eq_true.1 (by decide +kernel)) hleads rfl).1 '=' (by simp)
  have hnone : memberCompletions catalog Session.demonstration.world
      Session.demonstration.stack.current "Sp".toList = [] := by
    decide +kernel
  rw [hnone] at hoffers
  exact ⟨.object r, hleads, hoffers, hmembers⟩

end Sample

end ObjectConsole
