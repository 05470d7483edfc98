import ObjectConsole.Proofs.Coercion.Sound
import ObjectConsole.Sample.Catalog

/-!
Fitting a value twice. What a conversion has made, its type takes as it is. That
a union does so too is a matter of the arms in front of the one that has made it:
an arm that refused the value must not convert what was made of it. Only one pair
of arms can do that, an integer of some width in front of a double: an integer
just out of the range is rounded to a double that is in it. A member of an
enumeration is a value of its own and is not looked up again by a name, unless the
members of the enumeration are strings: then it is, by the string that it is. If
they are numbers, an arm for numbers takes the member for its number.
-/

namespace ObjectConsole

namespace SlotType

def isSized : SlotType → Bool
  | sized _ => true
  | _ => false

def isFloat : SlotType → Bool
  | float => true
  | _ => false

def isInteger : SlotType → Bool
  | int | sized _ => true
  | _ => false

def isNumber (t : SlotType) : Bool := t.isInteger || t.isFloat

/-- Whether a union lists integers of some width together with doubles. -/
def isMixed (t : SlotType) : Bool := t.listed.any isSized && t.listed.any isFloat

end SlotType

namespace Outlines

def Reflexive (o : Outlines) : Prop := ∀ c, (o.find c).descendsFrom c = true

/-- No enumeration that the type lists has strings for members, nor numbers if
the type lists a type of numbers, too. -/
def PlainChoices (o : Outlines) (t : SlotType) : Prop :=
  ∀ c member, .cls c ∈ t.listed → (o.find c).isEnumeration = true →
    (∀ s, o.underlying (.choice c member) ≠ .text s) ∧
      (t.listed.any SlotType.isNumber = true →
        o.underlying (.choice c member) = .choice c member)

theorem reflexive_ofList {limits : Limits} {outlines : List Outline}
    (h : ∀ c ∈ outlines, c.descendsFrom c.name = true) :
    (ofList limits outlines).Reflexive := by
  intro c
  have hfind : (ofList limits outlines).find c =
      (outlines.find? fun o => o.name == c).getD { name := c, ancestors := [c] } := rfl
  cases ho : outlines.find? fun o => o.name == c with
  | none =>
      rw [hfind, ho]
      simp [Outline.descendsFrom]
  | some o =>
      have hname : o.name = c := by simpa using List.find?_some ho
      rw [hfind, ho, ← hname]
      exact h o (List.mem_of_find?_eq_some ho)

variable {o : Outlines} {w : World} {v u : Value} {type a b : SlotType}

/-! ### What numbers and truth values are refused for -/

theorem coerceInstance_self_or_refuse (o : Outlines) (w : World) (u : Value) (c : ClassName) :
    o.coerceInstance w u c = .ok u ∨ o.coerceInstance w u c = o.refuse w u c.name := by
  rw [coerceInstance]
  split
  · exact .inl rfl
  · exact .inr rfl

theorem refuses_of_eq_refuse (hd : o.Displays w v) (label : String)
    (h : o.coerce w v type = o.refuse w v label) : o.Refuses w v type := by
  obtain ⟨shown, hshown⟩ := hd
  exact ⟨shown, label, by rw [h, refuse_of_display hshown]⟩

theorem refuses_bool (hd : o.Displays w v) (h : ∀ b, v ≠ .bool b) : o.Refuses w v .bool := by
  refine refuses_of_eq_refuse hd "bool" ?_
  rw [coerce]
  cases v with
  | bool b => exact absurd rfl (h b)
  | _ => rfl

theorem refuses_int_iff :
    o.Refuses w v .int ↔ o.Displays w v ∧ (o.underlying v).integral? = none := by
  constructor
  · intro h
    refine ⟨h.displays, Option.eq_none_iff_forall_ne_some.2 fun n hn => ?_⟩
    obtain ⟨shown, label, h⟩ := h
    exact absurd h (by simp [coerce, coerceInt, hn])
  · rintro ⟨hd, hnone⟩
    exact refuses_of_eq_refuse hd "int" (by rw [coerce, coerceInt, hnone])

theorem refuses_sized_iff {width : Width} :
    o.Refuses w v (.sized width) ↔
      o.Displays w v ∧ ∀ n, (o.underlying v).integral? = some n → width.fits n = false := by
  constructor
  · intro h
    refine ⟨h.displays, fun n hn => ?_⟩
    rw [Bool.eq_false_iff]
    intro hfits
    obtain ⟨shown, label, h⟩ := h
    exact absurd h (by simp [coerce, coerceSized, hn, hfits])
  · rintro ⟨hd, hfits⟩
    refine refuses_of_eq_refuse hd width.name ?_
    rw [coerce, coerceSized]
    cases hn : (o.underlying v).integral? with
    | none => rfl
    | some n => simp [hfits n hn]

/-- A slot for doubles takes every number, or the number is beyond them. -/
theorem refuses_float_iff :
    o.Refuses w v .float ↔
      o.Displays w v ∧ (o.underlying v).asInt? = none ∧ ∀ x, o.underlying v ≠ .float x := by
  constructor
  · intro h
    refine ⟨h.displays, ?_, fun x hx => ?_⟩
    · rw [Option.eq_none_iff_forall_ne_some]
      intro n hn
      obtain ⟨shown, label, h⟩ := h
      rw [coerce, coerceFloat_of_asInt? hn] at h
      cases hx : Decimal.ofInt? n <;> exact absurd h (by simp [hx])
    · obtain ⟨shown, label, h⟩ := h
      rw [coerce, coerceFloat_of_float hx] at h
      exact absurd h (by simp)
  · rintro ⟨hd, hint, hfloat⟩
    exact refuses_of_eq_refuse hd _ (by rw [coerce, coerceFloat_of_not_number hint hfloat])

/-- A number without a fraction is an integer or a double. -/
theorem asInt?_or_float_of_integral? {n : Int} (h : v.integral? = some n) :
    v.asInt? = some n ∨ ∃ x, v = .float x := by
  cases v with
  | int m => exact .inl h
  | sized width m own => exact .inl h
  | float x => exact .inr ⟨x, rfl⟩
  | _ => exact absurd h (by simp [Value.integral?])

/-! ### What was made of a value -/

namespace Converts

theorem not_text (h : o.Converts v a u) (hplain : o.PlainChoices type) (ha : a ∈ type.listed)
    (s : String) : o.underlying u ≠ .text s := by
  cases h with
  | @choice c member henum _ _ => exact (hplain c member ha henum).1 s
  | _ => simp

/-- In front of a type of numbers, what a conversion makes counts as itself. -/
theorem underlying_self (h : o.Converts v a u) (hplain : o.PlainChoices type)
    (ha : a ∈ type.listed) (hnumber : type.listed.any SlotType.isNumber = true) :
    o.underlying u = u := by
  cases h with
  | @choice c member henum _ _ => exact (hplain c member ha henum).2 hnumber
  | _ => rfl

theorem coerceClass_of_not_text {c : ClassName} (h : ∀ s, o.underlying u ≠ .text s) :
    o.coerceClass w u c = o.coerceInstance w u c := by
  unfold coerceClass
  split
  · next s _ hs => exact absurd hs (h s)
  · rfl

/-- What a conversion has made is taken as it is. -/
theorem coerce_self (ho : o.Reflexive) (h : o.Converts v a u)
    (htext : ∀ s, o.underlying u ≠ .text s) : o.coerce w u a = .ok u := by
  cases h with
  | sized hv hfits => simp [coerce, coerceSized, Value.integral?, hfits]
  | int hv => simp [coerce, coerceInt, Value.integral?]
  | float hv hx => simp [coerce, coerceFloat]
  | fraction hv => simp [coerce, coerceFloat]
  | @choice c s henum _ _ =>
      have hinstance : o.isInstance w (.choice c s) c = true := ho c
      simp [coerce, Value.isNull, coerceClass_of_not_text htext, coerceInstance, hinstance]

theorem refuses_int (h : o.Converts v a u) (hd : o.Displays w u) (hself : o.underlying u = u)
    (hrefuses : o.Refuses w v .int) : o.Refuses w u .int := by
  have hnone := (refuses_int_iff.1 hrefuses).2
  refine refuses_int_iff.2 ⟨hd, ?_⟩
  rw [hself]
  cases h with
  | sized hv _ => exact absurd hv (by simp [hnone])
  | int hv => exact absurd hv (by simp [hnone])
  | float hv _ => exact absurd (integral?_of_asInt? hv) (by simp [hnone])
  | fraction hv => rwa [hv] at hnone
  | choice _ _ _ => rfl

theorem refuses_float (h : o.Converts v a u) (hd : o.Displays w u) (hself : o.underlying u = u)
    (hrefuses : o.Refuses w v .float) : o.Refuses w u .float := by
  obtain ⟨-, hint, hfloat⟩ := refuses_float_iff.1 hrefuses
  have hnone (n : Int) : (o.underlying v).integral? ≠ some n := by
    intro hn
    rcases asInt?_or_float_of_integral? hn with hn | ⟨x, hx⟩
    · exact absurd hn (by simp [hint])
    · exact hfloat x hx
  refine refuses_float_iff.2 ⟨hd, ?_⟩
  rw [hself]
  cases h with
  | sized hv _ => exact absurd hv (hnone _)
  | int hv => exact absurd hv (hnone _)
  | float hv _ => exact absurd hv (by simp [hint])
  | fraction hv => exact absurd hv (hfloat _)
  | choice _ _ _ => exact ⟨rfl, by simp⟩

/-- An integer of some width that a slot refused, it refuses again in any other
form, unless it was rounded. -/
theorem refuses_sized (h : o.Converts v a u) (hd : o.Displays w u) (hself : o.underlying u = u)
    (ha : a.isFloat = false) {width : Width} (hrefuses : o.Refuses w v (.sized width)) :
    o.Refuses w u (.sized width) := by
  have hfits := (refuses_sized_iff.1 hrefuses).2
  refine refuses_sized_iff.2 ⟨hd, fun n hn => ?_⟩
  rw [hself] at hn
  cases h with
  | sized hv _ =>
      obtain rfl := Option.some.inj hn
      exact hfits _ hv
  | int hv =>
      obtain rfl := Option.some.inj hn
      exact hfits _ hv
  | float _ _ | fraction _ => exact absurd ha (by simp [SlotType.isFloat])
  | choice _ _ _ => exact absurd hn (by simp [Value.integral?])

/-- An arm that passed a value over passes over what another arm has made of it,
or takes it as it is. -/
theorem passesOver_or_keeps (h : o.Converts v a u) (htext : ∀ s, o.underlying u ≠ .text s)
    (hself : b.isNumber = true → o.underlying u = u) (hd : o.Displays w u)
    (hb : b.isUnion = false) (hpass : o.PassesOver w v b)
    (hsep : a.isFloat = true → b.isSized = false) :
    o.PassesOver w u b ∨ o.coerce w u b = .ok u := by
  have hu := h.not_null
  rcases hpass with hnull | hrefuses
  · exact .inl (.inl hnull)
  have hinstance {c : ClassName} (hcoerce : o.coerce w u b = o.coerceInstance w u c) :
      o.PassesOver w u b ∨ o.coerce w u b = .ok u := by
    rcases o.coerceInstance_self_or_refuse w u c with hok | hrefused
    · exact .inr (hcoerce.trans hok)
    · exact .inl (.inr (refuses_of_eq_refuse hd _ (hcoerce.trans hrefused)))
  cases b with
  | nullType => exact .inl (.inl rfl)
  | union style arms => exact absurd hb (by simp [SlotType.isUnion])
  | bool => exact .inl (.inr (refuses_bool hd fun b => (h.not_bool b).2))
  | int => exact .inl (.inr (h.refuses_int hd (hself rfl) hrefuses))
  | float => exact .inl (.inr (h.refuses_float hd (hself rfl) hrefuses))
  | sized width =>
      have ha : a.isFloat = false := by
        rw [Bool.eq_false_iff]
        exact fun ha => absurd (hsep ha) (by simp [SlotType.isSized])
      exact .inl (.inr (h.refuses_sized hd (hself rfl) ha hrefuses))
  | cls c =>
      exact hinstance (c := c) (by
        rw [coerce, hu, if_neg (by simp), coerceClass_of_not_text htext])
  | generic style origin arguments =>
      exact hinstance (c := origin) (by rw [coerce, hu, if_neg (by simp)])
  | forward text => exact .inr (by simp [coerce, hu])
  | literal text => exact .inr (by simp [coerce, hu])
  | placeholder name => exact .inr (by simp [coerce, hu])
  | _ => exact .inr (by rw [coerce])

end Converts

/-! ### Fitting twice -/

/-- The first to settle something settles what those behind it would, if all that
settle anything agree up to there. -/
theorem findSome?_of_agree {f : SlotType → Option (Except Refusal Value)}
    {before after : List SlotType} {r : Except Refusal Value}
    (hbefore : ∀ b ∈ before, f b = none ∨ f b = some r) (ha : f a = some r) :
    (before ++ a :: after).findSome? f = some r := by
  induction before with
  | nil => rw [List.nil_append, List.findSome?_cons, ha]
  | cons b before ih =>
      obtain ⟨hb, hrest⟩ := List.forall_mem_cons.1 hbefore
      rw [List.cons_append, List.findSome?_cons, ih hrest]
      rcases hb with hb | hb <;> rw [hb]

theorem isSized_of_not_mixed (hmixed : type.isMixed = false) (ha : a ∈ type.listed)
    (hfloat : a.isFloat = true) (hb : b ∈ type.listed) : b.isSized = false := by
  rw [Bool.eq_false_iff]
  intro hsized
  rw [SlotType.isMixed, List.any_eq_true.2 ⟨b, hb, hsized⟩, List.any_eq_true.2 ⟨a, ha, hfloat⟩]
    at hmixed
  exact absurd hmixed (by simp)

/-- Of the arms in front of the one that has made a value, the first that does not
pass it over keeps it, too. -/
theorem Converts.settle?_again (h : o.Converts v a u) (hmixed : type.isMixed = false)
    (hplain : o.PlainChoices type) (ha : a ∈ type.listed) (hb : b ∈ type.listed)
    (hd : o.Displays w u) (hpass : o.PassesOver w v b) :
    o.settle? w u b = none ∨ o.settle? w u b = some (.ok u) := by
  have hself (hnumber : b.isNumber = true) : o.underlying u = u :=
    h.underlying_self hplain ha (List.any_eq_true.2 ⟨b, hb, hnumber⟩)
  rcases h.passesOver_or_keeps (h.not_text hplain ha) hself hd
    (SlotType.not_union_of_mem_listed type hb) hpass
    (fun hfloat => isSized_of_not_mixed hmixed ha hfloat hb) with hpass | hkeeps
  · exact .inl (settle?_eq_none_iff.2 hpass)
  · cases hnull : b.isNullType with
    | true => exact .inl (settle?_eq_none_iff.2 (.inl hnull))
    | false => exact .inr (settle?_eq_some_iff.2 ⟨hnull, hkeeps, by simp⟩)

/-- What a type stores it takes as it is, unless it lists integers of some width
together with doubles, or enumerations that are not plain. The arms of a union may
have to display it to pass it over. -/
theorem coerce_again (ho : o.Reflexive) (hmixed : type.isMixed = false)
    (hplain : o.PlainChoices type) (hd : type.isUnion = true → o.Displays w u)
    (h : o.coerce w v type = .ok u) : o.coerce w u type = .ok u := by
  rcases eq_or_made h with rfl | ⟨before, a, after, hlisted, hconverts, hbefore⟩
  · exact h
  have ha : a ∈ type.listed := by simp [hlisted]
  have hkept := hconverts.coerce_self (w := w) ho (hconverts.not_text hplain ha)
  cases hunion : type.isUnion with
  | false =>
      rw [SlotType.listed_of_not_union hunion, List.mem_singleton] at ha
      rwa [ha] at hkept
  | true =>
      have hsettle (b : SlotType) (hb : b ∈ before) :
          o.settle? w u b = none ∨ o.settle? w u b = some (.ok u) :=
        hconverts.settle?_again hmixed hplain ha (by simp [hlisted, hb]) (hd hunion) (hbefore b hb)
      have hlast : o.settle? w u a = some (.ok u) := by
        refine settle?_eq_some_iff.2 ⟨?_, hkept, by simp⟩
        cases hconverts <;> rfl
      have hfirst : type.listed.findSome? (o.settle? w u) = some (.ok u) := by
        rw [hlisted]
        exact findSome?_of_agree hsettle hlast
      rw [findSome?_listed hconverts.not_null (hd hunion)] at hfirst
      exact (settle?_eq_some_iff.1 hfirst).2.1

theorem displays_float (w : World) (x : Float) : o.Displays w (.float x) :=
  ⟨floatDisplay x, rfl⟩

/-- A double that equals no integer does not fit any of the slots for integers,
nor a union of them. -/
theorem refuses_of_not_integer {x : Float}
    (hx : ∀ n : Int, Decimal.rational? x ≠ some (n : ℚ))
    (htype : ∀ a ∈ type.listed, a.isNullType = true ∨ a.isInteger = true) :
    o.Refuses w (.float x) type := by
  have hd : o.Displays w (.float x) := displays_float w x
  have hnone : (o.underlying (.float x)).integral? = none :=
    Option.eq_none_iff_forall_ne_some.2 fun n hn => hx n (Value.integral?_eq_some_iff.1 hn)
  have hpass : ∀ a ∈ type.listed, o.settle? w (.float x) a = none := by
    intro a ha
    rw [settle?_eq_none_iff]
    refine (htype a ha).imp_right fun hinteger => ?_
    cases a with
    | int => exact refuses_int_iff.2 ⟨hd, hnone⟩
    | sized width => exact refuses_sized_iff.2 ⟨hd, fun n hn => absurd hn (by rw [hnone]; simp)⟩
    | _ => exact absurd hinteger (by simp [SlotType.isInteger])
  have htype : o.settle? w (.float x) type = none := by
    rw [← findSome?_listed rfl hd, List.findSome?_eq_none_iff]
    exact hpass
  rcases settle?_eq_none_iff.1 htype with hnull | hrefuses
  · cases type with
    | nullType => exact refuses_of_eq_refuse hd _ (by rw [coerce, if_neg (by simp [Value.isNull])])
    | _ => exact absurd hnull (by simp [SlotType.isNullType])
  · exact hrefuses

structure Sound (o : Outlines) (w : World) (v : Value) (type : SlotType) (u : Value) : Prop where
  null : v.isNull = true ∨ u.isNull = true → u = v ∧ type.isNullable = true
  stores : v.isNull = false → o.Stores w v type u
  truth : ∀ b, v = .bool b ∨ u = .bool b → u = v
  exact : ∀ n : Int, u.asInt? = some n → (o.underlying v).rational? = some (n : ℚ)
  again : type.isMixed = false → o.PlainChoices type →
    (type.isUnion = true → o.Displays w u) → o.coerce w u type = .ok u

/-- What a slot stores for a value is what its type says, is the number that the
value is wherever it is an integer, and is stored as it is if it is assigned again.
Infinities, NaN and fractions find no place in slots for integers. -/
theorem coerce_sound (ho : o.Reflexive) (w : World) (v : Value) (type : SlotType) :
    (∀ u, o.coerce w v type = .ok u → o.Sound w v type u) ∧
      ∀ x, v = .float x → (∀ n : Int, Decimal.rational? x ≠ some (n : ℚ)) →
        (∀ a ∈ type.listed, a.isNullType = true ∨ a.isInteger = true) → o.Refuses w v type := by
  refine ⟨fun u h => ⟨?_, fun hv => stores_of_coerce hv h, ?_, ?_,
    fun hmixed hplain hd => coerce_again ho hmixed hplain hd h⟩, ?_⟩
  · intro hnull
    have hmade := eq_or_made h
    have hv : v.isNull = true := by
      rcases hnull with hv | hu
      · exact hv
      · rcases hmade with rfl | ⟨_, _, _, _, hconverts, _⟩
        · exact hu
        · exact absurd hu (by simp [hconverts.not_null])
    exact null_of_coerce hv h
  · intro b hb
    rcases eq_or_made h with hu | ⟨_, _, _, _, hconverts, _⟩
    · exact hu
    · rcases hb with hb | hb
      · exact absurd hb (hconverts.not_bool b).1
      · exact absurd hb (hconverts.not_bool b).2
  · intro n hn
    rcases eq_or_made h with rfl | ⟨_, _, _, _, hconverts, _⟩
    · rw [underlying_of_asInt? hn]
      exact Value.integral?_eq_some_iff.1 (integral?_of_asInt? hn)
    · exact hconverts.exact hn
  · rintro x rfl hx htype
    exact refuses_of_not_integer hx htype

end Outlines

namespace Sample

theorem reflexive_outlines [Host] : outlines.Reflexive := Outlines.reflexive_ofList (by decide)

/-- A string names the kind of a pet, in an optional slot. -/
theorem sound_cat :
    outlines.Reflexive ∧
      outlines.coerce World.empty (.text "CAT") (.union .spelled [.nullType, .cls speciesName]) =
        .ok (species "CAT") ∧
      outlines.Sound World.empty (.text "CAT") (.union .spelled [.nullType, .cls speciesName])
        (species "CAT") := by
  have hcat : outlines.coerce World.empty (.text "CAT")
      (.union .spelled [.nullType, .cls speciesName]) = .ok (species "CAT") := by
    simp only [Outlines.coerce, Outlines.coerceArms, Outlines.coerceClass]
    rfl
  exact ⟨reflexive_outlines, hcat, (Outlines.coerce_sound reflexive_outlines _ _ _).1 _ hcat⟩

def colorName : ClassName := ⟨"", "Color"⟩

def levelName : ClassName := ⟨"", "Level"⟩

def sizeName : ClassName := ⟨"", "Size"⟩

/-- Enumerations whose members are strings, numbers, and neither. -/
def choices : Outlines :=
  .ofList outlines.limits
    [{ name := colorName
       ancestors := [colorName, .core "str"]
       choices := [("RED", .text "red")] },
     { name := levelName
       ancestors := [levelName, .core "int"]
       choices := [("ONE", .int 1)] },
     { name := sizeName
       ancestors := [sizeName]
       choices := [("VAST", .int (Nat.pow 10 Literal.digitLimit))] }]

/-- The vast member has no display. -/
theorem display_vast :
    choices.display World.empty (.choice sizeName "VAST") = .error longIntegerError := by
  have hlong : integerText (Nat.pow 10 Literal.digitLimit) = .error longIntegerError :=
    integerText_of_le (by rw [Int.natAbs_natCast, Nat.pow_eq])
  have hdisplay : choices.display World.empty (.choice sizeName "VAST") = (do
      let shown ← integerText (Nat.pow 10 Literal.digitLimit)
      return "<" ++ "Size" ++ "." ++ "VAST" ++ ": " ++ shown ++ ">") := rfl
  rw [hdisplay, hlong]
  rfl

/-- A slot for an integer or nothing stores `null`, which no arm but that of `null`
takes. A slot for members that are strings does not take back the member that it
has stored for the name, and a union with an arm for integers stores the integer
that a member is, if it is given the member that it has stored. A member without
a display is not taken back where an arm in front has to display it. -/
theorem optional_null_and_text_choice :
    outlines.coerce World.empty .null (.union .spelled [.int, .nullType]) = .ok .null ∧
      ¬outlines.Accepts World.empty .null .int ∧
      choices.coerce World.empty (.text "RED") (.cls colorName) = .ok (.choice colorName "RED") ∧
      ¬choices.Accepts World.empty (.choice colorName "RED") (.cls colorName) ∧
      choices.coerce World.empty (.text "ONE") (.union .barred [.int, .cls levelName]) =
        .ok (.choice levelName "ONE") ∧
      choices.coerce World.empty (.choice levelName "ONE") (.union .barred [.int, .cls levelName]) =
        .ok (.int 1) ∧
      choices.coerce World.empty (.text "VAST") (.union .barred [.bool, .cls sizeName]) =
        .ok (.choice sizeName "VAST") ∧
      choices.Raises World.empty (.choice sizeName "VAST") (.union .barred [.bool, .cls sizeName])
        longIntegerError := by
  refine ⟨by rw [Outlines.coerce]; rfl, ?_, by rw [Outlines.coerce]; rfl, ?_,
    by rw [Outlines.coerce]; rfl, by rw [Outlines.coerce]; rfl, by rw [Outlines.coerce]; rfl, ?_⟩
  · rintro ⟨u, hu⟩
    exact absurd hu (by simp [Outlines.coerce, Outlines.coerceInt, Outlines.underlying,
      Value.integral?])
  · rintro ⟨u, hu⟩
    have hrefused : choices.coerce World.empty (.choice colorName "RED") (.cls colorName) =
        choices.refuse World.empty (.choice colorName "RED") colorName.name := by
      rw [Outlines.coerce]
      rfl
    exact absurd (hrefused.symm.trans hu) Outlines.refuse_ne_ok
  · have hbool : choices.coerce World.empty (.choice sizeName "VAST") .bool =
        .error (.raised longIntegerError) := by
      rw [Outlines.coerce]
      exact Outlines.refuse_of_display_error display_vast "bool"
    rw [Outlines.Raises, Outlines.coerce, if_neg (by simp [Value.isNull]), Outlines.coerceArms,
      if_neg (by simp [SlotType.isNullType]), hbool]

end Sample

end ObjectConsole
