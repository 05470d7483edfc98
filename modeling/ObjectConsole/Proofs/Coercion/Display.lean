import ObjectConsole.Display
import ObjectConsole.Proofs.Literal.Decimal

/-!
What can go wrong with a display. It stops at an integer of too many digits, or
where the interpreter does not go deeper; there is no third way.
-/

namespace ObjectConsole

/-! ### Computations whose errors are all of a kind -/

section

variable {ε α β : Type} {P : ε → Prop} {x : Except ε α}

def ErrsIn (P : ε → Prop) (x : Except ε α) : Prop := ∀ e, x = .error e → P e

theorem errsIn_ok (a : α) : ErrsIn P (.ok a : Except ε α) := fun _ h => absurd h (by simp)

theorem errsIn_error {e : ε} (h : P e) : ErrsIn P (.error e : Except ε α) :=
  fun _ he => Except.error.inj he ▸ h

theorem ErrsIn.bind (hx : ErrsIn P x) {f : α → Except ε β} (hf : ∀ a, ErrsIn P (f a)) :
    ErrsIn P (x >>= f) := by
  cases x with
  | error e => exact errsIn_error (hx e rfl)
  | ok a => exact hf a

theorem errsIn_mapM {f : α → Except ε β} {l : List α} (h : ∀ a ∈ l, ErrsIn P (f a)) :
    ErrsIn P (l.mapM f) := by
  induction l with
  | nil => exact errsIn_ok []
  | cons a l ih =>
      obtain ⟨ha, hl⟩ := List.forall_mem_cons.1 h
      rw [List.mapM_cons]
      exact ha.bind fun _ => (ih hl).bind fun _ => errsIn_ok _

end

/-- The error of a display that would have to go too deep. -/
def deepDisplayError : Raised := .tooDeep " while getting the repr of an object"

def IsDisplayError (e : Raised) : Prop := e = longIntegerError ∨ e = deepDisplayError

theorem integerText_of_lt {n : Int} (h : n.natAbs < 10 ^ Literal.digitLimit) :
    integerText n = .ok (toString n) :=
  if_neg (Nat.not_lt.2 ((Literal.length_decimalDigits_le (by decide)).2 h))

theorem integerText_of_le {n : Int} (h : 10 ^ Literal.digitLimit ≤ n.natAbs) :
    integerText n = .error longIntegerError :=
  if_pos (Nat.not_le.1 fun hle =>
    Nat.not_lt.2 h ((Literal.length_decimalDigits_le (by decide)).1 hle))

theorem errsIn_integerText (n : Int) : ErrsIn IsDisplayError (integerText n) := by
  rw [integerText]
  split
  · exact errsIn_error (.inl rfl)
  · exact errsIn_ok _

namespace Outlines

theorem errsIn_displayWithin (o : Outlines) (w : World) (levels : Nat) (outer : List Ref)
    (v : Value) : ErrsIn IsDisplayError (o.displayWithin w levels outer v) := by
  induction levels generalizing outer v with
  | zero =>
      rw [displayWithin]
      exact errsIn_error (.inr rfl)
  | succ levels ih =>
      rw [displayWithin.eq_def]
      dsimp only
      split
      · exact errsIn_ok _
      · exact errsIn_ok _
      · exact errsIn_integerText _
      · exact errsIn_integerText _
      · exact errsIn_ok _
      · exact errsIn_ok _
      · exact errsIn_ok _
      · exact (ih _ _).bind fun _ => errsIn_ok _
      · exact (errsIn_mapM fun _ _ => ih _ _).bind fun _ => errsIn_ok _
      · split
        · exact errsIn_ok _
        split
        · exact errsIn_ok _
        split
        · exact (errsIn_mapM fun _ _ => ih _ _).bind fun _ => errsIn_ok _
        · exact (errsIn_mapM fun _ _ => (ih _ _).bind fun _ =>
            (ih _ _).bind fun _ => errsIn_ok _).bind fun _ => errsIn_ok _
        · exact (errsIn_mapM fun _ _ => (ih _ _).bind fun _ => errsIn_ok _).bind
            fun _ => errsIn_ok _

theorem isDisplayError_of_display {o : Outlines} {w : World} {v : Value} {e : Raised}
    (h : o.display w v = .error e) : IsDisplayError e :=
  o.errsIn_displayWithin w _ _ v e h

end Outlines

end ObjectConsole
