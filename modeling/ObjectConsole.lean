import ObjectConsole.Main
import ObjectConsole.SlotType.Spelling
import ObjectConsole.Proofs.Evaluation.Escape
import ObjectConsole.Proofs.Evaluation.Literal
import ObjectConsole.Proofs.Sample.Acyclic
import ObjectConsole.Proofs.Session.Navigation
import ObjectConsole.Proofs.Evaluation.Expression
import ObjectConsole.Proofs.Evaluation.Quoted
import ObjectConsole.Proofs.Member.Property
import ObjectConsole.Proofs.Sample.Properties
import ObjectConsole.Proofs.Sample.Reached
import ObjectConsole.Proofs.Evaluation.Assignment
import ObjectConsole.Proofs.Sample.Assignment
import ObjectConsole.Proofs.Evaluation.Effects
import ObjectConsole.Proofs.Sample.Failure
import ObjectConsole.Proofs.Member.Stability
import ObjectConsole.Proofs.Render.ReadBack
import ObjectConsole.Proofs.CommandLine.Agreement
import ObjectConsole.Proofs.Prompt.Transparency
import ObjectConsole.Proofs.Coercion.Arms
import ObjectConsole.Proofs.Coercion.Sound
import ObjectConsole.Proofs.Coercion.Stable
import ObjectConsole.Proofs.Member.Overflow
import ObjectConsole.Proofs.Prompt.Innermost
import ObjectConsole.Proofs.Line.Pair
import ObjectConsole.Proofs.Line.Separator
import ObjectConsole.Proofs.Member.Width
import ObjectConsole.Proofs.Literal.Stored
import ObjectConsole.Proofs.Literal.Integer
import ObjectConsole.Proofs.Sample.Reading
import ObjectConsole.Proofs.Evaluation.Refusal
import ObjectConsole.Proofs.Prompt.Chain
import ObjectConsole.Proofs.Prompt.LiteralToken
import ObjectConsole.Proofs.Coercion.Forward
import ObjectConsole.Proofs.Evaluation.Progress
import ObjectConsole.Proofs.Evaluation.Hidden
