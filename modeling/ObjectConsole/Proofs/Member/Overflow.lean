import ObjectConsole.Proofs.Coercion.Sound
import ObjectConsole.Proofs.Member.Resolution

/-!
How a conversion fails. Where a value is refused, no more is ruled out than the
arm or the method that refuses it, and the search goes on behind it. But an
error can also be raised over the value, and then the search is over, whatever
stands behind. Either the value has no display, which a refusal needs, or the
conversion overflows. That takes an integer beyond all doubles and a slot for
doubles that is reached before anything takes the integer. And `null` is not
shown to the arms of a union at all: a union takes it if it lists the class of
`null`.
-/

namespace ObjectConsole

namespace Outlines

/-- An integer that no double is near to, or the member of an enumeration that
has such an integer for its value. -/
def BeyondDoubles (o : Outlines) (v : Value) : Prop :=
  ∃ n, (o.underlying v).asInt? = some n ∧ Decimal.ofInt? n = none

variable {o : Outlines} {w : World} {v : Value} {type : SlotType} {e : Raised}

theorem not_beyondDoubles_null : ¬o.BeyondDoubles .null := by
  rintro ⟨n, hn, -⟩
  exact nomatch hn

/-! ### One type -/

theorem coerceFloat_eq_tooLarge_iff :
    o.coerceFloat w v = .error (.raised tooLargeError) ↔ o.BeyondDoubles v := by
  rw [BeyondDoubles]
  cases hn : (o.underlying v).asInt? with
  | some n =>
      rw [coerceFloat_of_asInt? hn]
      cases hx : Decimal.ofInt? n <;> simp [hx]
  | none =>
      simp only [reduceCtorEq, false_and, exists_false, iff_false]
      by_cases hfloat : ∃ x, o.underlying v = .float x
      · obtain ⟨x, hx⟩ := hfloat
        rw [coerceFloat_of_float hx]
        simp
      · rw [coerceFloat_of_not_number hn (by simpa using hfloat)]
        exact refuse_ne_tooLarge _

/-- Of all types but unions only that of doubles can overflow. -/
theorem overflows_iff_of_not_union (htype : type.isUnion = false) :
    o.Raises w v type tooLargeError ↔ type = .float ∧ o.BeyondDoubles v := by
  constructor
  · intro h
    rcases takesOrRefuses_or_overflows (o := o) (w := w) (v := v) htype with hresult | ⟨rfl, -⟩
    · exact absurd (isDisplayError_of_display (hresult.display_error h))
        not_isDisplayError_tooLargeError
    · rw [Raises, coerce] at h
      exact ⟨rfl, coerceFloat_eq_tooLarge_iff.1 h⟩
  · rintro ⟨rfl, h⟩
    rw [Raises, coerce]
    exact coerceFloat_eq_tooLarge_iff.2 h

theorem not_overflows_null : ¬o.Raises w .null type tooLargeError := by
  intro h
  cases htype : type.isUnion with
  | false => exact not_beyondDoubles_null ((overflows_iff_of_not_union htype).1 h).2
  | true =>
      cases type with
      | union style arms =>
          have hnull : Value.null.isNull = true := rfl
          rw [Raises, coerce, if_pos hnull] at h
          split at h
          · exact nomatch h
          · exact refuse_ne_tooLarge _ h
      | _ => exact absurd htype (by simp [SlotType.isUnion])

/-! ### Unions -/

/-- If a conversion overflows, the value is an integer beyond all doubles, and the
first of the listed types that does not pass it over is that of doubles. -/
theorem beyondDoubles_of_overflows (h : o.Raises w v type tooLargeError) :
    o.BeyondDoubles v ∧ ∃ before after, type.listed = before ++ .float :: after ∧
      ∀ a ∈ before, o.PassesOver w v a := by
  cases hv : v.isNull with
  | true =>
      obtain rfl := Value.isNull_iff.1 hv
      exact absurd h not_overflows_null
  | false =>
      obtain ⟨before, a, after, hlisted, -, hcoerce, hbefore⟩ :=
        exists_listed_of_coerce hv (by simp) refuse_ne_tooLarge h
      have ha : a.isUnion = false :=
        SlotType.not_union_of_mem_listed type (by rw [hlisted]; simp)
      obtain ⟨rfl, hbeyond⟩ := (overflows_iff_of_not_union ha).1 hcoerce
      exact ⟨hbeyond, before, after, hlisted, hbefore⟩

/-- And so it does, if the value can be displayed. -/
theorem overflows_of_beyondDoubles (hd : o.Displays w v) (hbeyond : o.BeyondDoubles v)
    {before after : List SlotType} (hlisted : type.listed = before ++ .float :: after)
    (hbefore : ∀ a ∈ before, o.PassesOver w v a) : o.Raises w v type tooLargeError := by
  have hv : v.isNull = false := by
    rw [Bool.eq_false_iff]
    intro hnull
    obtain rfl := Value.isNull_iff.1 hnull
    exact not_beyondDoubles_null hbeyond
  have hfloat : o.Raises w v .float tooLargeError :=
    (overflows_iff_of_not_union rfl).2 ⟨rfl, hbeyond⟩
  exact coerce_of_listed hv hd (by simp) hlisted rfl hfloat hbefore

/-- A union does not refuse a value that one of its arms takes. -/
theorem accepts_or_raises_union {arm : SlotType} {arms : List SlotType} (hv : v.isNull = false)
    (harm : arm ∈ arms) (haccepts : o.Accepts w v arm) (style : UnionStyle) :
    o.Accepts w v (.union style arms) ∨ ∃ e, o.Raises w v (.union style arms) e := by
  have hnot : ¬ o.PassesOver w v arm := by
    obtain ⟨u, hu⟩ := haccepts
    rintro (hnull | ⟨shown, label, hrefuses⟩)
    · cases arm with
      | nullType => simp [coerce, hv] at hu
      | _ => exact absurd hnull (by simp [SlotType.isNullType])
    · exact absurd (hu.symm.trans hrefuses) (by simp)
  rcases accepts_or_refuses_or_raises o w v (.union style arms) with h | ⟨shown, label, h⟩ | h
  · exact .inl h
  · rw [coerce_union hv, coerceArms_eq_unfit_iff] at h
    exact absurd (h.2.2 arm harm) hnot
  · exact .inr h

theorem accepts_null_union_iff {style : UnionStyle} {arms : List SlotType} :
    o.Accepts w .null (.union style arms) ↔ ∃ arm ∈ arms, arm.isNullType = true := by
  have hnull : Value.null.isNull = true := rfl
  rw [← List.any_eq_true, Accepts, coerce, if_pos hnull, SlotType.isNullable]
  split
  · next h => simpa using h
  · next h => simpa using h

end Outlines

namespace Catalog

variable {cat : Catalog} {w : World} {v : Value} {label : String} {m : MethodInfo}
  {args fitted : List Value}

/-! ### Methods -/

/-- A call that one of the methods of its name takes has a meaning, unless it ends
at a method in front of that one. -/
theorem resolves_or_stops (hm : m ∈ cat.overloads w v label) (hfits : cat.Fits w m args fitted) :
    (∃ found, cat.resolve w v label args = .ok found) ∨
      ∃ e before m' after, cat.overloads w v label = before ++ m' :: after ∧
        cat.StopsAt w m' args e ∧ ∀ m'' ∈ before, cat.Leaves w m'' args := by
  cases hfound : (cat.overloads w v label).findSome? (cat.answer? w args) with
  | none =>
      have hleaves := List.findSome?_eq_none_iff.1 hfound m hm
      rw [answer?_eq_ok_iff.2 ⟨rfl, hfits⟩] at hleaves
      exact absurd hleaves (by simp)
  | some answer =>
      obtain ⟨before, m', after, hsplit, hm', hbefore⟩ := List.findSome?_eq_some_iff.1 hfound
      simp only [answer?_eq_none_iff] at hbefore
      cases answer with
      | ok found =>
          obtain ⟨rfl, hfits'⟩ := answer?_eq_ok_iff.1 hm'
          exact .inl ⟨_, resolve_eq_ok_iff.2 ⟨before, after, hsplit, hfits', hbefore⟩⟩
      | error e =>
          exact .inr ⟨e, before, m', after, hsplit, answer?_eq_error_iff.1 hm', hbefore⟩

/-- A refusal rules out what refuses, and nothing else; only an error that is
raised over a value rules out what stands behind it. That is the error of its
display, or an overflow: the value is an integer beyond all doubles, and a slot
for doubles comes first. Without such an error, a value other than `null` that
one arm takes is taken by the union, and a call that one method takes means some
method of the name. -/
theorem refusal_rules_out_one (cat : Catalog) (w : World) :
    (∀ v type e, cat.Raises w v type e → cat.display w v = .error e ∨
      e = tooLargeError ∧ cat.BeyondDoubles v ∧
        ∃ before after, type.listed = before ++ .float :: after ∧
          ∀ a ∈ before, cat.PassesOver w v a) ∧
    (∀ v type before after, cat.Displays w v → cat.BeyondDoubles v →
      type.listed = before ++ .float :: after → (∀ a ∈ before, cat.PassesOver w v a) →
      cat.Raises w v type tooLargeError) ∧
    (∀ v style arms, v.isNull = false → (∃ arm ∈ arms, cat.Accepts w v arm) →
      cat.Accepts w v (.union style arms) ∨ ∃ e, cat.Raises w v (.union style arms) e) ∧
    (∀ style arms, cat.Accepts w .null (.union style arms) ↔
      ∃ arm ∈ arms, arm.isNullType = true) ∧
    ∀ v label args, (∃ m ∈ cat.overloads w v label, ∃ fitted, cat.Fits w m args fitted) →
      (∃ found, cat.resolve w v label args = .ok found) ∨
        ∃ e, cat.resolve w v label args = .error (.escaped e) ∧
          (∃ a ∈ args, cat.display w a = .error e ∨ e = tooLargeError ∧ cat.BeyondDoubles a) ∧
          ∃ before m after, cat.overloads w v label = before ++ m :: after ∧
            cat.StopsAt w m args e ∧ ∀ m' ∈ before, cat.Leaves w m' args := by
  refine ⟨fun v type e h => ?_, fun v type before after hd hbeyond hlisted hbefore =>
    Outlines.overflows_of_beyondDoubles hd hbeyond hlisted hbefore, ?_,
    fun style arms => Outlines.accepts_null_union_iff, ?_⟩
  · rcases Outlines.raises_cases type h with hdisplay | rfl
    · exact .inl hdisplay
    · exact .inr ⟨rfl, Outlines.beyondDoubles_of_overflows h⟩
  · rintro v style arms hv ⟨arm, harm, haccepts⟩
    exact Outlines.accepts_or_raises_union hv harm haccepts style
  · rintro v label args ⟨m, hm, fitted, hfits⟩
    refine (resolves_or_stops hm hfits).imp_right ?_
    rintro ⟨e, before, m', after, hsplit, hstops, hbefore⟩
    refine ⟨e, resolve_eq_escaped_iff.2 ⟨before, m', after, hsplit, hstops, hbefore⟩, ?_,
      before, m', after, hsplit, hstops, hbefore⟩
    obtain ⟨a, ha, hraises⟩ := hstops.exists_raises
    refine ⟨a, ha, hraises.imp_right ?_⟩
    rintro ⟨p, -, hoverflows, hlarge⟩
    exact ⟨hlarge, (Outlines.beyondDoubles_of_overflows hoverflows).1⟩

end Catalog

namespace Sample

open Catalog

def hugeInt : Value := .int (10 ^ 400)

theorem refuses_hugeInt : catalog.Refuses demonstration.2 hugeInt .text := by
  have hdigits : integerText (10 ^ 400) = .ok (toString ((10 : Int) ^ 400)) :=
    if_neg (by decide +kernel)
  have hdisplay : catalog.display demonstration.2 hugeInt = .ok (toString ((10 : Int) ^ 400)) :=
    hdigits
  have hcoerce : catalog.coerce demonstration.2 hugeInt .text =
      catalog.refuse demonstration.2 hugeInt (ClassName.core "str").name := by
    have hnot : catalog.isInstance demonstration.2 hugeInt (.core "str") = false := rfl
    have hnull : hugeInt.isNull = false := rfl
    change catalog.coerce demonstration.2 hugeInt (.cls (.core "str")) = _
    rw [Outlines.coerce, hnull, if_neg (by simp)]
    unfold Outlines.coerceClass
    split
    · next hs => exact nomatch hs
    · rw [Outlines.coerceInstance, hnot, if_neg (by simp)]
  exact ⟨_, _, hcoerce.trans (Outlines.refuse_of_display hdisplay _)⟩

/-- The name of a kind is no integer, and a number of times is no text to say;
both are taken by what stands behind. But a number too large for a slot in front
is taken by nothing. -/
theorem cat_and_times_taken :
    catalog.Accepts demonstration.2 (.text "CAT") (.union .spelled [.int, .cls speciesName]) ∧
      (∃ found, catalog.resolve demonstration.2 demonstration.1 "Say" [.int 2] = .ok found) ∧
      catalog.Raises demonstration.2 hugeInt (.union .spelled [.text, .float, .int])
        tooLargeError := by
  obtain ⟨hraises, hoverflows, hunion, -, hcall⟩ := refusal_rules_out_one catalog demonstration.2
  have hcat : catalog.Accepts demonstration.2 (.text "CAT") (.cls speciesName) :=
    ⟨species "CAT", by rw [Outlines.coerce]; rfl⟩
  have hquiet : ¬∃ e, catalog.Raises demonstration.2 (.text "CAT")
      (.union .spelled [.int, .cls speciesName]) e := by
    rintro ⟨e, he⟩
    rcases hraises _ _ _ he with hdisplay | ⟨-, ⟨n, hn, -⟩, -⟩
    · exact nomatch hdisplay
    · exact nomatch hn
  obtain ⟨say, sayTimes, -, -, hoverloads, -, -, hleaves, hfits⟩ := exists_overloads_say
  have harm : ∃ arm ∈ [SlotType.int, .cls speciesName],
      catalog.Accepts demonstration.2 (.text "CAT") arm :=
    ⟨_, by simp, hcat⟩
  have hmethod : ∃ m ∈ catalog.overloads demonstration.2 demonstration.1 "Say",
      ∃ fitted, catalog.Fits demonstration.2 m [.int 2] fitted :=
    ⟨sayTimes, by simp [hoverloads], _, hfits⟩
  refine ⟨(hunion _ _ _ rfl harm).resolve_right hquiet, (hcall _ _ _ hmethod).resolve_right ?_, ?_⟩
  · rintro ⟨e, -, -, before, m, after, hsplit, hstops, -⟩
    obtain rfl | rfl : m = say ∨ m = sayTimes := by
      have hm : m ∈ [say, sayTimes] := by
        rw [← hoverloads, hsplit]
        simp
      simpa using hm
    · exact hleaves.not_stopsAt e hstops
    · exact hfits.not_stopsAt e hstops
  · have hbeyond : catalog.BeyondDoubles hugeInt := ⟨10 ^ 400, rfl, by decide +kernel⟩
    have hbefore : ∀ a ∈ [SlotType.text], catalog.PassesOver demonstration.2 hugeInt a := by
      intro a ha
      rw [List.mem_singleton.1 ha]
      exact .inr refuses_hugeInt
    exact hoverflows _ _ [.text] [.int] refuses_hugeInt.displays hbeyond rfl hbefore

end Sample

end ObjectConsole
