import ObjectConsole.CommandLine.Run
import ObjectConsole.Proofs.CommandLine.Arguments
import ObjectConsole.Proofs.Render.Tree
import ObjectConsole.Proofs.Sample.Quiet
import ObjectConsole.Sample.Modules

/-!
The command line and the prompt agree. Both run lines on a session and print
what comes up; the command line puts the pieces together into one text for each
stream and keeps a flag for its exit status, and the prompt reacts to each line
apart. Failures end neither of the two. An error that escapes from a line, or
while its value is printed, ends both after the same text.
-/

namespace ObjectConsole

/-- The outcomes of lines that are run in turn. What a line prints is taken
before the next one is run. -/
def Session.outcomes (cat : Catalog) (s : Session) : List (List Char) → List Outcome
  | [] => []
  | line :: rest => (s.runLine cat line).1 :: outcomes cat (s.runLine cat line).2.flushed rest

namespace Prompt

variable {cat : Catalog} {s : State}

/-- What some reactions print, one after the other. -/
def printedOf (reactions : List (String × Reaction)) : Printed :=
  (reactions.map (·.2.printed)).foldr Printed.followedBy {}

def escapedOf (reactions : List (String × Reaction)) : Option Raised :=
  reactions.findSome? (·.2.escaped)

@[simp] theorem Printed.followedBy_empty (p : Printed) : p.followedBy {} = p := by
  simp [followedBy]

/-- Without traces the prompt reports of an outcome what the command line echoes. -/
theorem reportOutcome_of_untraced (cat : Catalog) (htrace : s.trace = false) (text : List Char)
    (o : Outcome) :
    reportOutcome cat s text o =
      (CommandLine.echoed cat s.session.world text o).map fun out => { out } := by
  cases o with
  | failed e => cases e <;> simp [reportOutcome, CommandLine.echoed, htrace, Except.map]
  | escaped e => rfl
  | blank => rfl
  | value v navigates =>
      cases hshown : (Outcome.value v navigates).isShown text with
      | false => simp [reportOutcome, CommandLine.echoed, hshown, Except.map]
      | true =>
          simp only [reportOutcome, CommandLine.echoed, hshown]
          cases cat.format s.session.world v <;> rfl

theorem runExpression_of_untraced (cat : Catalog) (htrace : s.trace = false)
    (text : List Char) :
    runExpression cat s text =
      let outcome := (s.session.runLine cat text).1
      let after := (s.session.runLine cat text).2
      let state := { s with session := after.flushed }
      match CommandLine.echoed cat after.world text outcome with
      | .ok echo =>
        { state, printed := ⟨after.world.printed ++ echo, lines after.emitted⟩ }
      | .error e =>
        { state, printed := ⟨after.world.printed, lines after.emitted⟩, escaped := some e } := by
  have hreport := reportOutcome_of_untraced cat
    (s := { s with session := (s.session.runLine cat text).2 }) htrace text
    (s.session.runLine cat text).1
  rw [runExpression_eq]
  simp only [hreport]
  cases CommandLine.echoed cat (s.session.runLine cat text).2.world text
      (s.session.runLine cat text).1 <;>
    simp [shownOf, errorOf, Except.map, Except.toOption]

end Prompt

namespace CommandLine

open Prompt (State IsExpression printedOf escapedOf runExpression)

variable {cat : Catalog} {s : State} {texts : List (List Char)}

/-! ### One line -/

/-- A line that is echoed is followed by the other lines, in a session with
nothing left to be printed. -/
theorem runLines_cons_ok {session : Session} {text : List Char} {echo : String}
    (h : echoed cat (session.runLine cat text).2.world text (session.runLine cat text).1 =
      .ok echo) (failed : Bool) (rest : List (Option (List Char))) :
    runLines cat session failed (some text :: rest) =
      let after := (session.runLine cat text).2
      let more := runLines cat after.flushed
        (failed || (session.runLine cat text).1.error?.isSome) rest
      (Prompt.Printed.followedBy ⟨after.world.printed ++ echo, Prompt.lines after.emitted⟩ more.1,
        more.2) := by
  rw [runLines]
  simp only [h]
  rfl

/-- An error that escapes ends the run. -/
theorem runLines_cons_error {session : Session} {text : List Char} {e : Raised}
    (h : echoed cat (session.runLine cat text).2.world text (session.runLine cat text).1 =
      .error e) (failed : Bool) (rest : List (Option (List Char))) :
    runLines cat session failed (some text :: rest) =
      let after := (session.runLine cat text).2
      (⟨after.world.printed, Prompt.lines after.emitted⟩, .error e) := by
  rw [runLines]
  simp only [h]
  rfl

theorem run_cons_typed {text : List Char} (hrunning : s.running = true)
    (hs : s.session.flushed = s.session) (htyped : IsExpression text) (rest : List Prompt.Input) :
    Prompt.run cat s (.typed text :: rest) =
      if (runExpression cat s text).escaped.isSome then
        ([(s.prompt, runExpression cat s text)], rest.length)
      else
        ((s.prompt, runExpression cat s text) ::
            (Prompt.run cat (runExpression cat s text).state rest).1,
          (Prompt.run cat (runExpression cat s text).state rest).2) := by
  have hreact : Prompt.react cat s (.typed text) = runExpression cat s text :=
    Prompt.handle_of_isExpression hs htyped
  rw [Prompt.run, if_pos hrunning]
  simp only [hreact]

/-! ### Runs -/

/-- A prompt without traces and a command line on the same session print the
same for the same lines, and end with the same error if one escapes. If none
does, then the prompt reacts to all lines, and the flag of the command line
tells whether one of them failed. -/
theorem runLines_typed (cat : Catalog) (hrunning : s.running = true)
    (hs : s.session.flushed = s.session) (htrace : s.trace = false)
    (htyped : ∀ text ∈ texts, IsExpression text) (failed : Bool) :
    let reactions := Prompt.run cat s (texts.map .typed)
    runLines cat s.session failed (texts.map some) =
        (printedOf reactions.1, match escapedOf reactions.1 with
          | some e => .error e
          | none => .ok (failed || (s.session.outcomes cat texts).any (·.error?.isSome))) ∧
      (escapedOf reactions.1 = none → reactions.1.length = texts.length ∧ reactions.2 = 0) := by
  -- between the lines nothing is left to be printed
  induction texts generalizing s failed with
  | nil => simp [Prompt.run, runLines, printedOf, escapedOf, Session.outcomes]
  | cons text texts ih =>
      obtain ⟨hfirst, hrest⟩ := List.forall_mem_cons.1 htyped
      have hreaction := Prompt.runExpression_of_untraced cat htrace text
      rw [List.map_cons, List.map_cons, run_cons_typed hrunning hs hfirst]
      cases hecho : echoed cat (s.session.runLine cat text).2.world text
          (s.session.runLine cat text).1 with
      | error e =>
          simp only [hecho] at hreaction
          rw [hreaction, runLines_cons_error hecho]
          simp [printedOf, escapedOf]
      | ok echo =>
          obtain ⟨hsame, hall⟩ :=
            @ih { s with session := (s.session.runLine cat text).2.flushed } hrunning rfl htrace
              hrest (failed || (s.session.runLine cat text).1.error?.isSome)
          simp only [hecho] at hreaction
          dsimp only at hsame hall
          rw [hreaction, runLines_cons_ok hecho]
          simp only [hsame]
          refine ⟨?_, ?_⟩
          · simp [printedOf, escapedOf, Session.outcomes, Bool.or_assoc]
          · simpa [escapedOf] using hall

end CommandLine

namespace Sample

open Prompt (IsExpression printedOf escapedOf)

open CommandLine in
theorem start_callArguments [Host] (calls : List Call) :
    CommandLine.start catalog modules demoPerson initialWorld (callArguments calls) =
      .ready demoSession ((calls.map Call.line).map valueText) := by
  obtain ⟨bart, w, hbart, -⟩ := reached_demoPerson
  have hsource : Source.value catalog modules demoPerson .demo initialWorld =
      .ok (.ok bart) w := by
    rw [Source.value, Eval.bind_apply, hbart]
    rfl
  rw [CommandLine.start, usage_callArguments, demoSession, hbart]
  simp only [Option.getD_none, hsource]

def optionLikeCalls : List CommandLine.Call :=
  [⟨"-c".toList, "->Pet".toList, by decide +kernel⟩,
    ⟨"--command".toList, "-1".toList, by decide +kernel⟩,
    ⟨"-c".toList, "--json".toList, by decide +kernel⟩,
    ⟨"-c".toList, [], by decide +kernel⟩,
    ⟨"-c".toList, "-c".toList, by decide +kernel⟩]

def longCall : CommandLine.Call :=
  ⟨"-c".toList, "Pet.Age.from_bytes(to_bytes(2000,\"little\"))".toList, by decide +kernel⟩

def longOutcome : Outcome := (demoSession.runLine catalog longCall.line).1

theorem longOutcome_is_long :
    longOutcome.isShown longCall.line = true ∧
      ((longOutcome.value?.bind Value.asInt?).any fun n =>
        decide (10 ^ Literal.digitLimit ≤ n.natAbs)) = true := by
  decide +kernel

end Sample

end ObjectConsole
