import ObjectConsole.Proofs.Member.Moves
import ObjectConsole.Proofs.Prompt.Expression

/-!
Inputs that only look. A blank line, an interrupt, a request for completion and
every command but the one for a reset leave the session as it is, provided that
reading properties changes nothing. What they may change is which members a
listing shows and whether failures are traced, and neither matters to an input
that does more than look.
-/

namespace ObjectConsole

/-! ### Reading without effects -/

section

variable {ε α β : Type} {w : World}

theorem resultWorld_bind {x : EStateM ε World α} {f : α → EStateM ε World β}
    (hx : resultWorld (x w) = w) (hf : ∀ a, resultWorld (f a w) = w) :
    resultWorld ((x >>= f) w) = w := by
  rw [Eval.bind_apply]
  cases hrun : x w with
  | ok a w' =>
      rw [hrun] at hx
      obtain rfl : w' = w := hx
      exact hf a
  | error e w' =>
      rw [hrun] at hx
      exact hx

theorem resultWorld_mapM {f : α → EStateM ε World β} (h : ∀ a, resultWorld (f a w) = w)
    (as : List α) : resultWorld (as.mapM f w) = w := by
  induction as with
  | nil => rfl
  | cons a as ih =>
      rw [List.mapM_cons]
      exact resultWorld_bind (h a) fun b => resultWorld_bind ih fun bs => rfl

end

namespace Catalog

variable {cat : Catalog} {v : Value} {w : World}

theorem resultWorld_propertyLine (h : ∀ label, resultWorld (cat.readProperty v label w) = w)
    (p : PropertyInfo) : resultWorld (cat.propertyLine v p w) = w := by
  have hp := h p.label
  rw [propertyLine]
  split
  · rfl
  · refine resultWorld_bind ?_ fun shown => rfl
    rwa [resultWorld_shownReading]

/-- Listing the members of a value reads its properties and does nothing else. -/
theorem resultWorld_memberLines (h : ∀ label, resultWorld (cat.readProperty v label w) = w)
    (showAll : Bool) : resultWorld (cat.memberLines v showAll w) = w := by
  rw [memberLines, Eval.get_bind_apply]
  exact resultWorld_bind (resultWorld_mapM (resultWorld_propertyLine h) _) fun lines => rfl

end Catalog

namespace Prompt

variable {cat : Catalog} {s t : State} {input : Input}

/-- Wherever a chain of properties leads from the current context, reading it
leaves the world as it is. -/
def QuietReads (cat : Catalog) (s : Session) : Prop :=
  ∀ names, resultWorld (follow cat s.stack.current names s.world) = s.world

namespace QuietReads

variable {s : Session}

theorem property (h : QuietReads cat s) (label : String) :
    resultWorld (cat.readProperty s.stack.current label s.world) = s.world := by
  have hfollow := h [label.toList]
  rw [follow, String.ofList_toList, Eval.bind_apply] at hfollow
  cases hread : cat.readProperty s.stack.current label s.world <;>
    rw [hread] at hfollow <;> exact hfollow

theorem target (h : QuietReads cat s) (chain : Option (List (List Char))) :
    (completionTarget cat s.stack.current chain s.world).2 = s.world := by
  cases chain with
  | none => rfl
  | some names =>
      have hfollow := h names
      rw [completionTarget]
      split
      · rfl
      · cases hread : follow cat s.stack.current names s.world <;>
          rw [hread] at hfollow <;> exact hfollow

/-- Completing follows a chain of properties and leaves the session as it is. -/
theorem completion (h : QuietReads cat s) (text : List Char) : (complete cat s text).2 = s := by
  rw [complete]
  split
  · rfl
  · have htarget := h.target (chainAndWord (innermost (Text.trimLeft text))).1
    dsimp only
    split <;> next hpair =>
      rw [hpair] at htarget
      exact congrArg (fun w => { s with world := w }) htarget

end QuietReads

/-! ### Kinds of inputs -/

inductive Kind where
  | blank
  | leave
  | command (c : Command) (argument : List Char)
  | unknown (word : List Char)
  | expression (text : List Char)

def kindOf (typed : List Char) : Kind :=
  let text := visible typed
  if Text.isBlankText text then .blank
  else if exitWords.contains (Text.trim text) then .leave
  else
    match slashLine? text with
    | none => .expression text
    | some (word, argument) =>
      match Command.ofWord? word with
      | some c => .command c argument
      | none => .unknown word

theorem handle_eq (cat : Catalog) (s : State) (typed : List Char) :
    handle cat s typed =
      match kindOf typed with
      | .blank => { state := s }
      | .leave => { state := { s with running := false } }
      | .command c argument => runCommand cat s c argument
      | .unknown word =>
        { state := s, printed := { err := line ("Unknown command: " ++ String.ofList word) } }
      | .expression text => runExpression cat s text := by
  rw [handle, kindOf]
  split
  · rfl
  split
  · rfl
  rcases slashLine? (visible typed) with _ | ⟨word, argument⟩
  · rfl
  · cases hcommand : Command.ofWord? word <;> simp [hcommand]

/-- An input that only looks: a blank line, an interrupt, a request for
completion, or any command, known or not, but the one for a reset. -/
def Input.isView : Input → Bool
  | .typed text =>
    match kindOf text with
    | .blank | .unknown _ => true
    | .command c _ => c != .reset
    | .leave | .expression _ => false
  | .interrupt | .complete _ => true
  | .endOfInput => false

def Input.leaves : Input → Bool
  | .typed text =>
    match kindOf text with
    | .leave => true
    | _ => false
  | .endOfInput => true
  | .interrupt | .complete _ => false

/-! ### One input -/

structure Agrees (s t : State) : Prop where
  session : s.session = t.session
  running : s.running = t.running

theorem Agrees.prompt (h : Agrees s t) : s.prompt = t.prompt := by
  rw [State.prompt, State.prompt, h.session]

theorem printing_agrees (hs : s.session.flushed = s.session) (r : Except Raised Printed) :
    Agrees (printing s r).state s := by
  rw [printing_eq]
  exact ⟨hs, rfl⟩

/-- Commands that only look leave the session as it is. -/
theorem runCommand_agrees (hquiet : QuietReads cat s.session)
    (hs : s.session.flushed = s.session) {c : Command} (hc : c ≠ .reset) (argument : List Char) :
    Agrees (runCommand cat s c argument).state s := by
  cases c with
  | members =>
      have hworld := Catalog.resultWorld_memberLines hquiet.property s.showAll
      rw [runCommand, listMembers]
      cases hlines : cat.memberLines s.session.stack.current s.showAll s.session.world <;>
        rw [hlines] at hworld <;> obtain rfl := hworld <;> exact printing_agrees hs _
  | reset => exact absurd rfl hc
  | showAll =>
      rw [runCommand]
      split <;> exact ⟨rfl, rfl⟩
  | traceback =>
      rw [runCommand]
      split <;> exact ⟨rfl, rfl⟩
  | _ => exact ⟨rfl, rfl⟩

/-- At an input that only looks the prompt stands still. -/
theorem react_of_isView (hquiet : QuietReads cat s.session)
    (hs : s.session.flushed = s.session) (h : input.isView = true) :
    Agrees (react cat s input).state s := by
  cases input with
  | typed text =>
      rw [react, handle_eq]
      rw [Input.isView] at h
      split at h
      · next hkind => rw [hkind]; exact ⟨rfl, rfl⟩
      · next hkind => rw [hkind]; exact ⟨rfl, rfl⟩
      · next c argument hkind =>
          rw [hkind]
          exact runCommand_agrees hquiet hs (by simpa using h) argument
      · exact absurd h (by simp)
      · exact absurd h (by simp)
  | interrupt => exact ⟨rfl, rfl⟩
  | complete text =>
      rw [react]
      refine ⟨?_, rfl⟩
      simp [withPrinted_eq, hquiet.completion text, hs]
  | endOfInput => exact absurd h (by simp [Input.isView])

/-- Two reactions that differ at most in the errors that are printed and in the
switches. -/
structure SameEffect (q r : Reaction) : Prop where
  state : Agrees q.state r.state
  out : q.printed.out = r.printed.out
  escaped : q.escaped = r.escaped

/-- At any other input prompts that agree do the same, whatever their switches
are, and leave nothing to be printed. -/
theorem react_of_not_isView (hagrees : Agrees s t) (hs : s.session.flushed = s.session)
    (h : input.isView = false) :
    SameEffect (react cat s input) (react cat t input) ∧
      (react cat s input).state.session.flushed = (react cat s input).state.session := by
  obtain ⟨hsession, hrunning⟩ := hagrees
  cases input with
  | typed text =>
      rw [react, react, handle_eq, handle_eq]
      rw [Input.isView] at h
      cases hkind : kindOf text with
      | blank => simp [hkind] at h
      | unknown word => simp [hkind] at h
      | leave => exact ⟨⟨⟨hsession, rfl⟩, rfl, rfl⟩, hs⟩
      | command c argument =>
          obtain rfl : c = .reset := by simpa [hkind] using h
          refine ⟨⟨⟨congrArg Session.reset hsession, hrunning⟩, rfl, rfl⟩, ?_⟩
          exact congrArg Session.reset hs
      | expression text =>
          obtain ⟨hout, hescaped⟩ := runExpression_congr cat hsession text
          refine ⟨⟨⟨?_, ?_⟩, hout, hescaped⟩, ?_⟩
          · simp [hsession]
          · simpa using hrunning
          · simp
  | endOfInput => exact ⟨⟨⟨hsession, rfl⟩, rfl, rfl⟩, hs⟩
  | _ => exact absurd h (by simp [Input.isView])

/-! ### All inputs -/

inductive Reachable (cat : Catalog) (s : State) : State → Prop
  | start : Reachable cat s s
  | react {t : State} (h : Reachable cat s t) (input : Input) :
      Reachable cat s (Prompt.react cat t input).state

theorem Reachable.trans {u : State} (h : Reachable cat s t) (h' : Reachable cat t u) :
    Reachable cat s u := by
  induction h' with
  | start => exact h
  | react _ input ih => exact ih.react input

theorem running_runCommand (cat : Catalog) (s : State) (c : Command) (argument : List Char) :
    (runCommand cat s c argument).state.running = s.running := by
  cases c with
  | members =>
      rw [runCommand, listMembers]
      split <;> rw [printing_eq]
  | showAll =>
      rw [runCommand]
      split <;> rfl
  | traceback =>
      rw [runCommand]
      split <;> rfl
  | _ => rfl

/-- The prompt goes on until it is left. -/
theorem running_react (cat : Catalog) (s : State) (input : Input) :
    (react cat s input).state.running = (s.running && !input.leaves) := by
  cases input with
  | typed text =>
      rw [react, handle_eq, Input.leaves]
      cases kindOf text with
      | command c argument => simp [running_runCommand]
      | _ => simp
  | endOfInput => simp [react, Input.leaves]
  | interrupt => simp [react, Input.leaves]
  | complete text => simp [react, Input.leaves, withPrinted_eq]

end Prompt

end ObjectConsole
