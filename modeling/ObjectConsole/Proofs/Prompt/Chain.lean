import ObjectConsole.Proofs.Member.Code
import ObjectConsole.Proofs.Prompt.Innermost
import ObjectConsole.Proofs.Sample.Reading

/-!
Completion behind a chain of properties. The prompt walks along the chain from
left to right; the evaluator reads the first property and evaluates the rest of
the chain against what it gives. They meet in the same object, but for two
things. The evaluator holds every value that it goes on from, so an integer of a
fixed width gets a cell there and not here: nothing that is read from an integer
tells the two apart. And the evaluator spends a level of nesting on every
property, so it refuses a long chain, along which the prompt walks to the end.
-/

namespace ObjectConsole

open Catalog (navigationMarker)
open Line (IsName)
open Literal (readScalar)
open Text (Blanks trimLeft)

/-! ### Values that are read alike -/

namespace Catalog

/-- Two values that reading their members does not tell apart: a value and itself,
or integers of one class, with or without a cell. -/
inductive Alike (cat : Catalog) : Value → World → Value → World → Prop
  | same (v : Value) (w : World) : Alike cat v w v w
  | integer {cls : ClassName} {n : Int} {v v' : Value} {w w' : World}
      (hc : ClassDef.OfIntegers ⟨cat.find cls, cat.lineage cls⟩) (h : IsInteger w v cls n)
      (h' : IsInteger w' v' cls n) : Alike cat v w v' w'

inductive Agrees (cat : Catalog) :
    EStateM.Result Stop World Value → EStateM.Result Stop World Value → Prop
  | ok {v v' : Value} {w w' : World} (h : cat.Alike v w v' w') : Agrees cat (.ok v w) (.ok v' w')
  | error (e e' : Stop) (w w' : World) : Agrees cat (.error e w) (.error e' w')

theorem Agrees.refl (cat : Catalog) (r : EStateM.Result Stop World Value) : cat.Agrees r r := by
  cases r with
  | ok v w => exact .ok (.same v w)
  | error e w => exact .error e e w w

variable {cat : Catalog} {v v' : Value} {w w' : World}

namespace Alike

theorem isNull (h : cat.Alike v w v' w') : v'.isNull = v.isNull := by
  cases h with
  | same => rfl
  | integer hc h h' => rw [h.isNull, h'.isNull]

theorem labels (h : cat.Alike v w v' w') : cat.labels w' v' = cat.labels w v := by
  cases h with
  | same => rfl
  | integer hc h h' => rw [labels_integer h, labels_integer h']

/-- A value that gets a cell is read as before. -/
theorem adopt (hcat : cat.PlainIntegers) (h : cat.Alike v w v' w') :
    cat.Alike v w (w'.adopt v').1 (w'.adopt v').2 := by
  rcases w'.adopt_cases v' with hsame | ⟨width, n, rfl, -⟩
  · rwa [hsame]
  · have hadopted := IsInteger.adopt w' width n
    cases h with
    | same => exact .integer (hcat.ofWidth width) (.bare _ width n) hadopted
    | integer hc h h' =>
        obtain rfl := h'.classOf
        obtain rfl := Option.some.inj h'.asInt
        exact .integer hc h hadopted

theorem readProperty (hcat : cat.PlainIntegers) (h : cat.Alike v w v' w') (label : String) :
    cat.Agrees (cat.readProperty v label w) (cat.readProperty v' label w') := by
  cases h with
  | same => exact .refl cat _
  | @integer cls n _ _ _ _ hc h h' =>
      obtain ⟨out, hint, hrun⟩ := uniform_readProperty hc n label
      obtain ⟨hout, -⟩ := hrun v w h
      obtain ⟨hout', -⟩ := hrun v' w' h'
      dsimp only at hout hout'
      cases out with
      | ok u =>
          obtain ⟨m, rfl⟩ := hint u rfl
          rw [resultOutcome_eq_ok_iff.1 hout, resultOutcome_eq_ok_iff.1 hout']
          exact .ok (.integer hcat.core (.int _ m) (.int _ m))
      | error e =>
          rw [resultOutcome_eq_error_iff.1 hout, resultOutcome_eq_error_iff.1 hout']
          exact .error ..

end Alike

theorem readProperty_null (cat : Catalog) (label : String) (w : World) :
    ∃ e, cat.readProperty .null label w = .error e w := ⟨_, rfl⟩

/-! ### The walk along a chain -/

/-- A property in front of a point is read, and `null` has none. -/
theorem Alike.run (hcat : cat.PlainIntegers) (h : cat.Alike v w v' w') {n : List Char}
    (hn : IsName n) (recur : Value → List Char → Eval Value) :
    cat.Agrees (cat.readProperty v (String.ofList n) w)
      ((Segment.property n).run cat recur v' w') := by
  rw [Segment.run]
  split
  · next hnull =>
      rw [h.isNull] at hnull
      obtain rfl := Value.isNull_iff.1 hnull
      obtain ⟨e, he⟩ := readProperty_null cat (String.ofList n) w
      rw [he]
      exact .error ..
  · rw [Segment.eval, hn.trimmed]
    exact h.readProperty hcat _

theorem Agrees.coarse {r : EStateM.Result Stop World Value} {x y : Eval Value}
    (h : cat.Agrees r (x w)) (hxy : x.coarse = y.coarse) : cat.Agrees r (y w) := by
  rcases Eval.apply_of_coarse_eq hxy w with ⟨u, w₁, hx, hy⟩ | ⟨e, e', w₁, hx, hy, -⟩
  · rwa [hy, ← hx]
  · rw [hx] at h
    rw [hy]
    cases h
    exact .error ..

open Prompt (follow)

/-- The first property of a chain is read, and the evaluator goes on from there. -/
theorem evalExpr_dotted_cons (cat : Catalog) {n : List Char} (hn : IsName n)
    {names : List (List Char)} (hne : names ≠ []) (hnames : ∀ n ∈ names, IsName n) (levels : Nat)
    (context : Value) :
    cat.evalExpr (levels + 1) context (dotted (n :: names)) =
      (Segment.property n).run cat (cat.evalExpr levels) context >>=
        goOn (cat.evalExpr levels) (dotted names) := by
  have htext : dotted (n :: names) = (Segment.property n).text ++ '.' :: dotted names :=
    dotted_cons hne n
  rw [htext]
  exact (wellFormed_property hn).evalExpr_point cat levels context
    (isPath_dotted hne hnames).not_blanks

/-- The prompt and the evaluator come to the same along a chain, unless the chain
takes more levels of nesting than there are. -/
theorem agrees_follow (hcat : cat.PlainIntegers) {names : List (List Char)} (hne : names ≠ [])
    (hnames : ∀ n ∈ names, IsName n) {levels : Nat} (h : cat.Alike v w v' w') :
    (levels < names.length ∧
        ∃ w₁, cat.evalExpr levels v' (dotted names) w' = .error (.reported .nestedTooDeeply) w₁) ∨
      cat.Agrees (follow cat v names w) (cat.evalExpr levels v' (dotted names) w') := by
  induction names generalizing levels v w v' w' with
  | nil => exact absurd rfl hne
  | cons n names ih =>
      obtain ⟨hn, hrest⟩ := List.forall_mem_cons.1 hnames
      cases levels with
      | zero => exact .inl ⟨Nat.succ_pos _, w', rfl⟩
      | succ levels =>
          have hstep := h.run hcat hn (cat.evalExpr levels)
          -- the last name is no member in front of a point to the evaluator but a word; the
          -- errors for a missing one differ in kind
          by_cases hnil : names = []
          · subst hnil
            rw [dotted_singleton, follow]
            simp only [follow, bind_pure]
            have halone := (wellFormed_property hn).coarse_evalExpr cat levels v'
            exact .inr (hstep.coarse halone.symm)
          · rw [cat.evalExpr_dotted_cons hn hnil hrest, follow, Eval.bind_apply, Eval.bind_apply]
            generalize cat.readProperty v (String.ofList n) w = r at hstep
            generalize (Segment.property n).run cat (cat.evalExpr levels) v' w' = r' at hstep
            cases hstep with
            | error e e' w w' => exact .inr (.error ..)
            | ok h =>
                simp only [Session.goOn_apply]
                -- from here on the evaluator holds the value, so the two go on apart
                rcases ih hnil hrest (h.adopt hcat) with ⟨hlt, hdeep⟩ | hagrees
                · exact .inl ⟨Nat.succ_lt_succ hlt, hdeep⟩
                · exact .inr hagrees

/-- What a chain of properties is as a line of its own. No property is the context
itself. -/
def evaluateChain (cat : Catalog) (names : List (List Char)) (context : Value) (w : World) :
    Outcome × World :=
  if names = [] then (.value context false, w) else cat.evaluate (dotted names) context w

theorem agrees_evaluateChain (hcat : cat.PlainIntegers) {names : List (List Char)}
    (hnames : ∀ n ∈ names, IsName n) {context : Value}
    (hlimit : names.length ≤ cat.limits.expressions + 1 ∨
      (cat.evaluateChain names context w).1 ≠ .failed .nestedTooDeeply) :
    ∃ r, cat.evaluateChain names context w = Outcome.ofResult false r ∧
      cat.Agrees (follow cat context names w) r := by
  rw [evaluateChain] at hlimit ⊢
  split
  · next hnil =>
      subst hnil
      exact ⟨.ok context w, rfl, .ok (.same context w)⟩
  · next hne =>
      have hfront := (isPath_dotted hne hnames).front []
      rw [List.append_nil] at hfront
      have hvalue := cat.evaluate_plain hfront.not_blanks hfront.unmarked context w
      rw [if_neg hne, hvalue] at hlimit
      refine ⟨_, hvalue, ?_⟩
      rcases cat.agrees_follow hcat hne hnames (.same context w) with ⟨hlt, w₁, hdeep⟩ | hagrees
      · rw [hdeep] at hlimit
        exact absurd hlimit (not_or.2 ⟨Nat.not_le.2 hlt, fun h => h rfl⟩)
      · exact hagrees

/-! ### Properties that lead nowhere -/

section

variable {n : List Char} (hread : cat.readProperty v (String.ofList n) w = .ok v w)

include hread

/-- The prompt walks any number of times along a property that gives its own
object. -/
theorem follow_replicate (k : Nat) : follow cat v (List.replicate k n) w = .ok v w := by
  induction k with
  | zero => rfl
  | succ k ih =>
      rw [List.replicate_succ, follow, Eval.bind_apply, hread]
      exact ih

/-- The evaluator spends a level on each of them. -/
theorem evalExpr_replicate (hn : IsName n) (hnull : v.isNull = false)
    (hheld : w.adopt v = (v, w)) {levels k : Nat} (hk : levels ≤ k) :
    cat.evalExpr levels v (dotted (List.replicate (k + 1) n)) w =
      .error (.reported .nestedTooDeeply) w := by
  induction levels generalizing k with
  | zero => rfl
  | succ levels ih =>
      obtain ⟨k, rfl⟩ : ∃ k', k = k' + 1 := Nat.exists_eq_add_one.2 (Nat.zero_lt_of_lt hk)
      have hne : List.replicate (k + 1) n ≠ [] := by simp
      have hnames : ∀ m ∈ List.replicate (k + 1) n, IsName m := by
        intro m hm
        rwa [List.eq_of_mem_replicate hm]
      have hrun : (Segment.property n).run cat (cat.evalExpr levels) v w = .ok v w := by
        rw [Segment.run, hnull, Segment.eval, hn.trimmed]
        exact hread
      rw [List.replicate_succ, cat.evalExpr_dotted_cons hn hne hnames, Eval.bind_apply, hrun]
      simp only [Session.goOn_apply, hheld]
      exact ih (Nat.le_of_succ_le_succ hk)

end

end Catalog

/-! ### Texts that end in a chain -/

namespace Prompt

def chainText (marked : Bool) (names : List (List Char)) (word : List Char) : List Char :=
  (if marked then navigationMarker else []) ++ dotted (names ++ [word])

variable {cat : Catalog} {names : List (List Char)} {word : List Char}

theorem mem_dotted {c : Char} (h : c ∈ dotted names) : c = '.' ∨ ∃ n ∈ names, c ∈ n := by
  induction names with
  | nil => exact absurd h List.not_mem_nil
  | cons n names ih =>
      by_cases hnil : names = []
      · rw [hnil, dotted_singleton] at h
        exact .inr ⟨n, List.mem_cons_self .., h⟩
      · rw [dotted_cons hnil, List.mem_append, List.mem_cons] at h
        rcases h with h | h | h
        · exact .inr ⟨n, List.mem_cons_self .., h⟩
        · exact .inl h
        · refine (ih h).imp_right ?_
          rintro ⟨n', hn', hc⟩
          exact ⟨n', List.mem_cons_of_mem _ hn', hc⟩

theorem breaksChain_of_isWordLetter {c : Char} (h : isWordLetter c = true) :
    breaksChain c = false := by
  have hplain := isPlain_of_isWordLetter h
  have hblank := isBlank_of_isWordLetter h
  rw [Line.isPlain_iff] at hplain
  simp only [Line.specials, List.mem_cons, List.not_mem_nil, or_false, not_or] at hplain
  have hspace : c ≠ ' ' := by
    rintro rfl
    exact absurd hblank (by decide)
  simp [breaksChain, hplain, hspace]

theorem dropWhile_of_head {p : Char → Bool} {s : List Char}
    (h : ∀ c, s.head? = some c → p c = false) : s.dropWhile p = s := by
  cases s with
  | nil => rfl
  | cons c s => exact List.dropWhile_cons_of_neg (by simp [h c rfl])

section

variable (hnames : ∀ n ∈ names, IsWord n) (hword : ∀ c ∈ word, isWordLetter c = true)

include hnames hword

theorem chars_chain : ∀ c ∈ dotted (names ++ [word]), c = '.' ∨ isWordLetter c = true := by
  intro c hc
  rcases mem_dotted hc with rfl | ⟨n, hn, hc⟩
  · exact .inl rfl
  · rcases List.mem_append.1 hn with hn | hn
    · exact .inr ((hnames n hn).chars c hc)
    · rw [List.mem_singleton.1 hn] at hc
      exact .inr (hword c hc)

/-- No character of the text is a blank or a slash. -/
theorem chars_chainText (marked : Bool) :
    ∀ c ∈ chainText marked names word, Text.isBlank c = false ∧ c ≠ '/' := by
  intro c hc
  rw [chainText, List.mem_append] at hc
  rcases hc with hc | hc
  · cases marked with
    | false => exact absurd hc List.not_mem_nil
    | true =>
        obtain rfl | rfl : c = '-' ∨ c = '>' := by simpa [navigationMarker] using hc
        · decide
        · decide
  · rcases chars_chain hnames hword c hc with rfl | hc
    · decide
    · refine ⟨isBlank_of_isWordLetter hc, ?_⟩
      rintro rfl
      exact absurd hc (by decide)

theorem trimLeft_chainText (marked : Bool) :
    trimLeft (chainText marked names word) = chainText marked names word :=
  dropWhile_of_head fun c hc =>
    (chars_chainText hnames hword marked c (List.mem_of_head? hc)).1

theorem head_chain : (dotted (names ++ [word])).head? ≠ some '.' := by
  intro hhead
  cases names with
  | nil =>
      rw [List.nil_append, dotted_singleton] at hhead
      exact ne_point_of_isWordLetter (hword '.' (List.mem_of_head? hhead)) rfl
  | cons n names =>
      obtain ⟨c, s, rfl, hc⟩ := (hnames n (List.mem_cons_self ..)).head
      rw [List.cons_append, dotted_cons (by simp), List.cons_append, List.head?_cons] at hhead
      exact ne_point_of_isWordLetter hc (Option.some.inj hhead)

/-- The chain and the word are all that is left for completion. -/
theorem innermost_chain (marked : Bool) :
    innermost (chainText marked names word) = dotted (names ++ [word]) := by
  have hchars := chars_chain hnames hword
  have hhead := head_chain hnames hword
  have hnavigation : (Catalog.navigation? (chainText marked names word)).getD
      (chainText marked names word) = dotted (names ++ [word]) := by
    cases marked with
    | false =>
        have hnone : ¬navigationMarker <+: dotted (names ++ [word]) := by
          intro hmarker
          have hmem : '-' ∈ dotted (names ++ [word]) := hmarker.subset (by simp [navigationMarker])
          rcases hchars _ hmem with h | h <;> exact absurd h (by decide)
        rw [chainText, if_neg (by simp), List.nil_append, Catalog.navigation?,
          if_neg (by rwa [List.isPrefixOf_iff_prefix])]
        rfl
    | true =>
        have hleft : trimLeft (dotted (names ++ [word])) = dotted (names ++ [word]) :=
          trimLeft_chainText hnames hword false
        rw [chainText, if_pos rfl, Catalog.navigation?,
          if_pos (List.isPrefixOf_iff_prefix.2 (List.prefix_append ..)), List.drop_left, hleft]
        rfl
  have htake : (dotted (names ++ [word])).reverse.takeWhile (fun c => !isWordBreak c) =
      (dotted (names ++ [word])).reverse := by
    rw [List.takeWhile_eq_self_iff]
    intro c hc
    rcases hchars c (List.mem_reverse.1 hc) with rfl | hc
    · decide
    · simp [isWordBreak_of_isWordLetter hc]
  have hdrop : (dotted (names ++ [word])).dropWhile (· == '.') = dotted (names ++ [word]) := by
    refine dropWhile_of_head fun c hc => ?_
    rw [beq_eq_false_iff_ne]
    rintro rfl
    exact hhead hc
  simp only [innermost, hnavigation, htake, List.reverse_reverse, hdrop]

theorem chainAndWord_chain : chainAndWord (dotted (names ++ [word])) =
    (if names = [] then none else some names, word) := by
  by_cases hne : names = []
  · subst hne
    exact (congrArg chainAndWord (dotted_singleton word)).trans (chainAndWord_word hword)
  have htake : (dotted names ++ '.' :: word).reverse.takeWhile (· != '.') = word.reverse := by
    rw [List.reverse_append, List.reverse_cons, List.append_assoc, List.takeWhile_append_of_pos,
      List.singleton_append, List.takeWhile_cons_of_neg (by simp), List.append_nil]
    intro c hc
    simpa using ne_point_of_isWordLetter (hword c (List.mem_reverse.1 hc))
  have hlength :
      (dotted names ++ '.' :: word).length - word.length - 1 = (dotted names).length := by
    rw [List.length_append, List.length_cons]
    omega
  have hsplit : (dotted names).splitOn '.' = names :=
    List.splitOn_intercalate '.' (fun n hn hmem => (hnames n hn).not_mem (by decide) hmem) hne
  simp only [chainAndWord, dotted_concat hne, htake, List.reverse_reverse, hlength, List.take_left,
    hsplit]
  rw [if_pos (by rw [List.length_append, List.length_cons]; omega), if_neg hne]

omit hword in
theorem completionTarget_words (context : Value) (w : World) :
    completionTarget cat context (if names = [] then none else some names) w =
      match follow cat context names w with
      | .ok v w => (some v, w)
      | .error _ w => (none, w) := by
  split
  · next hnil =>
      subst hnil
      rfl
  · have hplain : (names.any fun name => name.any breaksChain) = false := by
      rw [List.any_eq_false]
      intro n hn
      rw [List.any_eq_true]
      rintro ⟨c, hc, hbreaks⟩
      rw [breaksChain_of_isWordLetter ((hnames n hn).chars c hc)] at hbreaks
      exact absurd hbreaks (by simp)
    rw [completionTarget, hplain]
    rfl

/-- Completion walks along the chain. -/
theorem complete_chain (s : Session) (marked : Bool) :
    complete cat s (chainText marked names word) =
      match follow cat s.stack.current names s.world with
      | .ok v w => (memberCompletions cat w v word, { s with world := w })
      | .error _ w => ([], { s with world := w }) := by
  have hslash : ((chainText marked names word).head? == some '/') = false := by
    rw [beq_eq_false_iff_ne]
    exact fun h => (chars_chainText hnames hword marked '/' (List.mem_of_head? h)).2 rfl
  simp only [complete, hslash, trimLeft_chainText hnames hword, innermost_chain hnames hword,
    chainAndWord_chain hnames hword, completionTarget_words hnames]
  cases follow cat s.stack.current names s.world <;> rfl

end

/-! ### Offers -/

theorem map_text_memberCompletions (cat : Catalog) (w : World) (v : Value) (word : List Char) :
    (memberCompletions cat w v word).map (·.text) =
      (cat.memberNames w v).filter fun name => word.isPrefixOf name.toList := by
  rw [memberCompletions, List.map_map]
  exact List.map_id _

theorem replaces_of_mem_memberCompletions {w : World} {v : Value} {offer : Completion}
    (h : offer ∈ memberCompletions cat w v word) : offer.replaces = word.length := by
  obtain ⟨name, -, rfl⟩ := List.mem_map.1 h
  rfl

theorem memberCompletions_null (cat : Catalog) (w : World) {v : Value} (h : v.isNull = true)
    (word : List Char) : memberCompletions cat w v word = [] := by
  obtain rfl := Value.isNull_iff.1 h
  rfl

theorem follow_withCode (cat : Catalog) (code : Method → Value → List Value → Act Value)
    (v : Value) (names : List (List Char)) :
    follow (cat.withCode code) v names = follow cat v names := by
  induction names generalizing v with
  | nil => rfl
  | cons n names ih =>
      rw [follow, follow, Catalog.readProperty_withCode]
      simp only [ih]

/-- Completion calls no method, so it does not matter what code the methods have. -/
theorem complete_withCode (cat : Catalog) (code : Method → Value → List Value → Act Value)
    (s : Session) (text : List Char) :
    complete (cat.withCode code) s text = complete cat s text := by
  have htarget (chain : Option (List (List Char))) :
      completionTarget (cat.withCode code) s.stack.current chain s.world =
        completionTarget cat s.stack.current chain s.world := by
    cases chain with
    | none => rfl
    | some names => rw [completionTarget, completionTarget, follow_withCode]
  simp only [complete, htarget, memberCompletions, Catalog.memberNames_withCode]

section

variable (hnames : ∀ n ∈ names, IsWord n) (hword : ∀ c ∈ word, isWordLetter c = true)

include hnames hword

/-- What completion keeps to on any chain, wherever it leads. -/
theorem conduct_complete_chain (s : Session) (marked : Bool) :
    let completed := complete cat s (chainText marked names word)
    (completed.1.map (·.text)).Nodup ∧
      (∀ offer ∈ completed.1, offer.replaces = word.length) ∧
      completed.2 = { s with world := completed.2.world } := by
  intro completed
  have hcompleted : completed = _ := complete_chain hnames hword s marked
  rw [hcompleted]
  cases follow cat s.stack.current names s.world with
  | error e w => exact ⟨List.nodup_nil, by simp, rfl⟩
  | ok v w =>
      refine ⟨?_, fun offer => replaces_of_mem_memberCompletions, rfl⟩
      rw [map_text_memberCompletions]
      exact (Catalog.nodup_memberNames cat w v).filter _

/-- What is offered where another run agrees with the walk. -/
theorem offers_of_agrees (s : Session) (marked : Bool) {r : EStateM.Result Stop World Value}
    (h : cat.Agrees (follow cat s.stack.current names s.world) r) :
    let completed := complete cat s (chainText marked names word)
    (∀ e w, r = .error e w → completed.1 = []) ∧
      ∀ o w, r = .ok o w → (o.isNull = true → completed.1 = []) ∧
        completed.1.map (·.text) =
          (cat.labels w o).eraseDups.filter fun label => word.isPrefixOf label.toList := by
  intro completed
  have hcompleted : completed = _ := complete_chain hnames hword s marked
  rw [hcompleted]
  generalize follow cat s.stack.current names s.world = walked at h
  cases h with
  | error e e' w w' => exact ⟨fun _ _ _ => rfl, by simp⟩
  | @ok v v' w w' halike =>
      refine ⟨by simp, fun o w₁ hr => ?_⟩
      obtain ⟨rfl, rfl⟩ := EStateM.Result.ok.inj hr
      refine ⟨fun hnull => memberCompletions_null cat w (halike.isNull.symm.trans hnull) word, ?_⟩
      rw [map_text_memberCompletions, Catalog.memberNames_eq_eraseDups, halike.labels]

end

/-- Behind a chain of properties, the members are offered that continue the word and
belong to the object that the chain evaluates to, each once and in the order of its
listing, and nothing is offered where the evaluation fails or gives `null`. The
exception is a chain longer than the levels of nesting that the evaluator refuses
as nested too deeply. -/
theorem offers_of_evaluated_object (hcat : cat.PlainIntegers) (s : Session) (marked : Bool)
    (hnames : ∀ n ∈ names, IsWord n ∧ readScalar n = .ok none)
    (hword : ∀ c ∈ word, isWordLetter c = true) :
    let evaluated := cat.evaluateChain names s.stack.current s.world
    let completed := complete cat s (chainText marked names word)
    (names.length ≤ cat.limits.expressions + 1 ∨ evaluated.1 ≠ .failed .nestedTooDeeply →
      (evaluated.1.value? = none → completed.1 = []) ∧
      ∀ o, evaluated.1.value? = some o → (o.isNull = true → completed.1 = []) ∧
        completed.1.map (·.text) =
          (cat.labels evaluated.2 o).eraseDups.filter fun label =>
            word.isPrefixOf label.toList) ∧
    (completed.1.map (·.text)).Nodup ∧
    (∀ offer ∈ completed.1, offer.replaces = word.length) ∧
    completed.2 = { s with world := completed.2.world } ∧
    ∀ code, complete (cat.withCode code) s (chainText marked names word) = completed := by
  have hwords : ∀ n ∈ names, IsWord n := fun n hn => (hnames n hn).1
  have hall : ∀ n ∈ names, IsName n := fun n hn => (hnames n hn).1.isName (hnames n hn).2
  obtain ⟨hnodup, hreplaces, hsession⟩ :=
    conduct_complete_chain hwords hword s marked
  refine ⟨fun hlimit => ?_, hnodup, hreplaces, hsession,
    fun code => complete_withCode cat code s _⟩
  obtain ⟨r, hevaluated, hagrees⟩ := Catalog.agrees_evaluateChain hcat hall hlimit
  obtain ⟨hfails, hgives⟩ := offers_of_agrees hwords hword s marked hagrees
  rw [hevaluated]
  cases r with
  | error e w =>
      refine ⟨fun _ => hfails e w rfl, fun o ho => ?_⟩
      rw [Outcome.value?_ofResult_error] at ho
      cases ho
  | ok v w =>
      refine ⟨(fun h => by cases h), fun o ho => ?_⟩
      obtain rfl : v = o := Option.some.inj ho
      exact hgives v w rfl

end Prompt

namespace Sample

open Prompt

/-- Behind the pet, its members are offered, whatever the line is to navigate to. -/
theorem offers_behind_pet :
    (complete catalog Session.demonstration "->Pet.Sp".toList).1.map (·.text) =
      ["Species", "Speak"] := by
  obtain ⟨r, hpet, hlabels⟩ : ∃ r,
      catalog.evaluateChain ["Pet".toList] Session.demonstration.stack.current
        Session.demonstration.world = (.value (.object r) false, Session.demonstration.world) ∧
      ((catalog.labels Session.demonstration.world (.object r)).eraseDups.filter fun label =>
        "Sp".toList.isPrefixOf label.toList) = ["Species", "Speak"] :=
    ⟨_, rfl, by decide +kernel⟩
  obtain ⟨hoffers, -⟩ := offers_of_evaluated_object plainIntegers Session.demonstration true
    (show ∀ n ∈ ["Pet".toList], IsWord n ∧ readScalar n = .ok none by decide +kernel)
    (List.all_eq_true.1 (show "Sp".toList.all isWordLetter = true by decide +kernel))
  rw [hpet] at hoffers
  rw [← hlabels]
  exact ((hoffers (.inl (by decide))).2 (.object r) rfl).2

/-- An integer is its own real part. The evaluator refuses a chain of six hundred
real parts, and the prompt offers members of the integer behind it. -/
theorem offers_behind_refused_chain :
    let names := List.replicate 600 "real".toList
    let s := Session.start (.int 5) World.empty
    (∀ n ∈ names, IsWord n ∧ readScalar n = .ok none) ∧
      (catalog.evaluateChain names s.stack.current s.world).1 = .failed .nestedTooDeeply ∧
      "real" ∈ (complete catalog s (chainText false names [])).1.map (·.text) := by
  intro names s
  have hreal : IsWord "real".toList ∧ readScalar "real".toList = .ok none := by decide +kernel
  have hname : IsName "real".toList := hreal.1.isName hreal.2
  have hread : catalog.readProperty (.int 5) "real" World.empty = .ok (.int 5) World.empty := rfl
  have hwords : ∀ n ∈ names, IsWord n ∧ readScalar n = .ok none := by
    intro n hn
    rwa [List.eq_of_mem_replicate hn]
  have hne : names ≠ [] := List.ne_nil_of_length_pos (by rw [List.length_replicate]; decide)
  have hwalk : follow catalog (.int 5) names World.empty = .ok (.int 5) World.empty :=
    Catalog.follow_replicate hread 600
  have hrefused : catalog.evalExpr (catalog.limits.expressions + 1) (.int 5) (dotted names)
      World.empty = .error (.reported .nestedTooDeeply) World.empty :=
    Catalog.evalExpr_replicate (k := 599) hread hname rfl rfl (by decide)
  refine ⟨hwords, ?_, ?_⟩
  · have hfront := (isPath_dotted hne fun n hn => (hwords n hn).1.isName (hwords n hn).2).front []
    rw [List.append_nil] at hfront
    rw [Catalog.evaluateChain, if_neg hne, catalog.evaluate_plain hfront.not_blanks hfront.unmarked]
    exact congrArg (fun r => (Outcome.ofResult false r).1) hrefused
  · rw [complete_chain (fun n hn => (hwords n hn).1) (by simp) s false]
    have hoffers : "real" ∈ (memberCompletions catalog World.empty (.int 5) []).map (·.text) := by
      decide +kernel
    rw [show follow catalog s.stack.current names s.world = _ from hwalk]
    exact hoffers

end Sample

end ObjectConsole
