import ObjectConsole.CommandLine.Run
import Mathlib.Data.List.TakeDrop

/-!
Arguments that ask for lines to be run. Each line follows the option for lines
as an argument of its own. It is attached to the option before the arguments
are looked at, so the line may look like an option itself, and the text behind
the first equals sign is the line again.
-/

namespace ObjectConsole.CommandLine

def lineWords : List (List Char) := ["-c".toList, "--command".toList]

structure Call where
  word : List Char
  line : List Char
  named : word ∈ lineWords

def callArguments (calls : List Call) : List (List Char) :=
  calls.flatMap fun call => [call.word, call.line]

def attachedLine (line : List Char) : List Char := "--command=".toList ++ line

theorem attachedLine_eq (line : List Char) :
    attachedLine line = ['-', '-', 'c', 'o', 'm', 'm', 'a', 'n', 'd'] ++ '=' :: line := by
  have hlong : "--command=".toList =
      ['-', '-', 'c', 'o', 'm', 'm', 'a', 'n', 'd'] ++ ['='] := by decide +kernel
  unfold attachedLine
  rw [hlong, List.append_assoc, List.singleton_append]

theorem attachLines_cons (call : Call) (args : List (List Char)) :
    attachLines (call.word :: call.line :: args) = attachedLine call.line :: attachLines args := by
  have hword : call.word = "-c".toList ∨ call.word = "--command".toList := by
    simpa [lineWords] using call.named
  rw [attachLines, if_pos hword]
  rfl

theorem attachLines_callArguments (calls : List Call) :
    attachLines (callArguments calls) = (calls.map Call.line).map attachedLine := by
  induction calls with
  | nil => rfl
  | cons call calls ih =>
      have hcons : callArguments (call :: calls) =
          call.word :: call.line :: callArguments calls := rfl
      rw [hcons, attachLines_cons, ih, List.map_cons, List.map_cons]

/-! ### Classification -/

theorem cutEquals_attachedLine (line : List Char) :
    cutEquals (attachedLine line) =
      (['-', '-', 'c', 'o', 'm', 'm', 'a', 'n', 'd'], .equals line) := by
  rw [attachedLine_eq, cutEquals]
  simp [List.span_eq_takeWhile_dropWhile]

/-- No word of an option has an equals sign. -/
theorem lookup_flagWords_attachedLine (line : List Char) :
    flagWords.lookup (attachedLine line) = none := by
  have hfree : ∀ f ∈ flagWords, '=' ∉ f.1 := by decide +kernel
  refine List.lookup_eq_none_iff.2 fun f hf => bne_iff_ne.2 fun h => hfree f hf ?_
  rw [← h, attachedLine_eq]
  simp

theorem classify_attachedLine (line : List Char) :
    classify (attachedLine line) = .flag .line (.equals line) := by
  have hdashed : classify (attachedLine line) = classifyDashed (attachedLine line) := by
    rw [attachedLine_eq]
    rfl
  have hword : flagWords.lookup ['-', '-', 'c', 'o', 'm', 'm', 'a', 'n', 'd'] =
      some .line := by decide +kernel
  rw [hdashed, classifyDashed, cutEquals_attachedLine]
  simp only [lookup_flagWords_attachedLine, hword]
  rfl

theorem classifyAll_attachedLines (lines : List (List Char)) :
    classifyAll (lines.map attachedLine) = lines.map fun line => .flag .line (.equals line) := by
  induction lines with
  | nil => rfl
  | cons line lines ih =>
      have hdashes : attachedLine line ≠ ['-', '-'] := by simp [attachedLine_eq]
      rw [List.map_cons, classifyAll, if_neg hdashes, classify_attachedLine, ih, List.map_cons]

/-! ### Interpretation -/

theorem interpret_lines (r : Request) (lines : List (List Char)) :
    interpret r false (lines.map fun line => .flag .line (.equals line)) =
      .ok (.request { r with lines := r.lines ++ lines.map valueText }) := by
  induction lines generalizing r with
  | nil => simp [interpret]
  | cons line lines ih =>
      have htake : r.take .line line = .ok { r with lines := r.lines ++ [valueText line] } := rfl
      rw [List.map_cons, interpret, if_pos (by rfl), htake]
      exact (ih _).trans (by simp)

/-- Arguments that only ask for lines are a request for these lines, with no
source. -/
theorem usage_callArguments (calls : List Call) :
    usage (callArguments calls) =
      .ok (.request { lines := (calls.map Call.line).map valueText }) := by
  have hclear : ((calls.map Call.line).map fun line =>
      Argument.flag .line (.equals line)).contains .ambiguous = false := by
    simp
  rw [usage]
  simp only [attachLines_callArguments, classifyAll_attachedLines]
  rw [hclear]
  exact interpret_lines {} (calls.map Call.line)

end ObjectConsole.CommandLine
