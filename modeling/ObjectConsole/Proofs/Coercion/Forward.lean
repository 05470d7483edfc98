import ObjectConsole.Proofs.Coercion.Sound
import ObjectConsole.Proofs.Member.Resolution
import ObjectConsole.Proofs.Text.Trim
import ObjectConsole.SlotType.Spelling

/-!
Declarations that are left unresolved. A declared type that is resolved takes
`null` if it lists the class of `null` among its arms, or says nothing about
values. One that is not resolved is judged by its text, in which two words are
looked for. The words stand in every text whose type lists `null`; but they may
also stand in the name of a class, or among the arguments of a generic type,
where they say nothing about the type itself.
-/

namespace ObjectConsole

open SlotType (arms barred dropRepeated isWordChar occurs ofName? ofWord? unionOf withArguments?)
open Text (Blanks)

/-! ### Declarations and what they resolve to -/

inductive Annotation where
  | name (word : String)
  | optional (inner : Annotation)
  | union (arms : List Annotation)
  | bars (left right : Annotation)
  | generic (head : String) (arguments : List Annotation)

namespace Annotation

def generic? (classes : List ClassName) (head : String) (arguments : List SlotType) :
    Option SlotType :=
  if arguments.isEmpty then none
  else
    match ofName? classes head with
    | some (.generic _ _ _) => withArguments? head arguments
    | some (.cls origin) => some (.generic .plain origin arguments)
    | _ => none

mutual

def resolve? (classes : List ClassName) : Annotation → Option SlotType
  | .name word => ofName? classes word
  | .optional inner => do withArguments? "Optional" [← resolve? classes inner]
  | .union arms => do withArguments? "Union" (← resolveAll? classes arms)
  | .bars left right => return barred (← resolve? classes left) (← resolve? classes right)
  | .generic head arguments => do generic? classes head (← resolveAll? classes arguments)

def resolveAll? (classes : List ClassName) : List Annotation → Option (List SlotType)
  | [] => some []
  | a :: as => return (← resolve? classes a) :: (← resolveAll? classes as)

end

def Mentions (s : List Char) : Prop := "None".toList <:+: s ∨ "Optional".toList <:+: s

instance (s : List Char) : Decidable (Mentions s) := inferInstanceAs (Decidable (_ ∨ _))

def MeansNull (classes : List ClassName) (word : String) : Prop :=
  ofName? classes word = some .nothing ∨ ofName? classes word = some .nullType

mutual

/-- The declaration has `None` among its arms, at any depth of unions. -/
def ListsNull (classes : List ClassName) : Annotation → Prop
  | .name word => MeansNull classes word
  | .optional _ => True
  | .union arms => AnyListsNull classes arms
  | .bars left right => ListsNull classes left ∨ ListsNull classes right
  | .generic _ _ => False

def AnyListsNull (classes : List ClassName) : List Annotation → Prop
  | [] => False
  | a :: as => ListsNull classes a ∨ AnyListsNull classes as

end

mutual

/-- One of the words stands where it does not say that the type takes `null`: in the
name of a class, or anywhere among the arguments of a generic type. -/
def Hides (classes : List ClassName) : Annotation → Prop
  | .name word => ¬MeansNull classes word ∧ Mentions word.toList
  | .optional inner => Hides classes inner
  | .union arms => AnyHides classes arms
  | .bars left right => Hides classes left ∨ Hides classes right
  | .generic head arguments =>
    Mentions head.toList ∨ AnyListsNull classes arguments ∨ AnyHides classes arguments

def AnyHides (classes : List ClassName) : List Annotation → Prop
  | [] => False
  | a :: as => Hides classes a ∨ AnyHides classes as

end

def IsName (word : String) : Prop :=
  word.toList ≠ [] ∧ ∀ c ∈ word.toList, isWordChar c = true ∨ c = '.'

mutual

/-- The texts of a declaration, with blanks and round brackets as one likes. Bars
group to the left, so behind a bar a declaration with bars needs brackets. -/
inductive Spelled : (bars : Bool) → Annotation → List Char → Prop
  | name {bars : Bool} {word : String} : IsName word → Spelled bars (.name word) word.toList
  | optional {bars : Bool} {a : Annotation} {b s : List Char} : Blanks b → Spelled true a s →
      Spelled bars (.optional a) ("Optional".toList ++ b ++ '[' :: (s ++ [']']))
  | union {bars : Bool} {as : List Annotation} {b s : List Char} : Blanks b → SpelledAll as s →
      Spelled bars (.union as) ("Union".toList ++ b ++ '[' :: (s ++ [']']))
  | generic {bars : Bool} {head : String} {as : List Annotation} {b s : List Char} :
      IsName head → Blanks b → SpelledAll as s →
      Spelled bars (.generic head as) (head.toList ++ b ++ '[' :: (s ++ [']']))
  | bars {a a' : Annotation} {s s' : List Char} : Spelled true a s → Spelled false a' s' →
      Spelled true (.bars a a') (s ++ '|' :: s')
  | grouped {bars : Bool} {a : Annotation} {s : List Char} : Spelled true a s →
      Spelled bars a ('(' :: (s ++ [')']))
  | blanks {bars : Bool} {a : Annotation} {b b' s : List Char} : Blanks b → Blanks b' →
      Spelled bars a s → Spelled bars a (b ++ s ++ b')

inductive SpelledAll : List Annotation → List Char → Prop
  | one {a : Annotation} {s : List Char} : Spelled true a s → SpelledAll [a] s
  | more {a : Annotation} {as : List Annotation} {s s' : List Char} : Spelled true a s →
      SpelledAll as s' → SpelledAll (a :: as) (s ++ ',' :: s')

end

variable {classes : List ClassName} {c : Char} {s s' b b' needle : List Char}

/-! ### The words in a text -/

theorem occurs_iff : occurs needle s = true ↔ needle <:+: s := by
  induction s with
  | nil => simp [occurs]
  | cons c s ih => rw [occurs, Bool.or_eq_true, List.isPrefixOf_iff_prefix, ih, List.infix_cons_iff]

/-- A text does not reach over a character that it does not have. -/
theorem infix_append_cons_iff (hc : c ∉ needle) :
    needle <:+: s ++ c :: s' ↔ needle <:+: s ∨ needle <:+: s' := by
  constructor
  · -- the text ends in front of the character, begins behind it, or reaches over it
    rintro ⟨before, after, h⟩
    rcases List.append_eq_append_iff.1 h with ⟨r, rfl, -⟩ | ⟨r, hr, hafter⟩
    · exact .inl ⟨before, r, rfl⟩
    cases r with
    | nil => exact .inl ⟨before, [], by rw [hr, List.append_nil, List.append_nil]⟩
    | cons d r =>
        obtain ⟨rfl, hs'⟩ := List.cons.inj hafter
        rcases List.append_eq_append_iff.1 hr with ⟨r', -, rfl⟩ | ⟨r', -, hneedle⟩
        · exact absurd (by simp) hc
        cases r' with
        | nil =>
            rw [List.nil_append] at hneedle
            exact absurd (hneedle ▸ List.mem_cons_self ..) hc
        | cons d r' =>
            exact .inr ⟨r', after, by rw [hs', (List.cons.inj hneedle).2]; rfl⟩
  · rintro (h | h)
    · exact h.trans (List.infix_append_left ..)
    · exact h.trans ⟨s ++ [c], [], by simp⟩

/-- A character that both words are without. -/
def Parts (c : Char) : Prop := c ∉ "None".toList ∧ c ∉ "Optional".toList

instance (c : Char) : Decidable (Parts c) := inferInstanceAs (Decidable (_ ∧ _))

theorem mentions_append_cons (hc : Parts c) :
    Mentions (s ++ c :: s') ↔ Mentions s ∨ Mentions s' := by
  rw [Mentions, infix_append_cons_iff hc.1, infix_append_cons_iff hc.2, Mentions, Mentions,
    or_or_or_comm]

theorem not_mentions_nil : ¬Mentions [] := by
  rw [Mentions, List.infix_nil, List.infix_nil]
  decide

theorem parts_of_isBlank (hc : Text.isBlank c = true) : Parts c := by
  have hnot {word : List Char} (hword : word.all (fun d => !Text.isBlank d) = true) : c ∉ word := by
    intro hmem
    have h := List.all_eq_true.1 hword c hmem
    rw [hc] at h
    exact absurd h (by decide)
  exact ⟨hnot (by decide), hnot (by decide)⟩

theorem mentions_append_blanks (hb : Blanks b) : Mentions (s ++ b) ↔ Mentions s := by
  induction b generalizing s with
  | nil => rw [List.append_nil]
  | cons c b ih =>
      obtain ⟨hc, hb⟩ := List.forall_mem_cons.1 hb
      have hnone : ¬Mentions b := by
        have h := ih (s := []) hb
        rw [List.nil_append] at h
        exact mt h.1 not_mentions_nil
      rw [mentions_append_cons (parts_of_isBlank hc), or_iff_left hnone]

theorem mentions_blanks_append (hb : Blanks b) : Mentions (b ++ s) ↔ Mentions s := by
  induction b with
  | nil => rfl
  | cons c b ih =>
      obtain ⟨hc, hb⟩ := List.forall_mem_cons.1 hb
      rw [List.cons_append, ← List.nil_append (c :: (b ++ s)),
        mentions_append_cons (parts_of_isBlank hc), or_iff_right not_mentions_nil, ih hb]

/-- In front of a bracket stands a head, and inside it the rest. -/
theorem mentions_bracketed (hb : Blanks b) {head : List Char} :
    Mentions (head ++ b ++ '[' :: (s ++ [']'])) ↔ Mentions head ∨ Mentions s := by
  rw [mentions_append_cons (by decide), mentions_append_blanks hb, mentions_append_cons (by decide),
    or_iff_left not_mentions_nil]

/-- The words stand in the text of a declaration because it lists `None`, or they
are hidden in it. -/
theorem mentions_of_meansNull {word : String} (h : MeansNull classes word) :
    Mentions word.toList := by
  have hword : ofWord? word = some .nothing ∨ ofWord? word = some .nullType := by
    rw [MeansNull, ofName?] at h
    split at h
    · simp at h
    · exact h
  have hnull : word = "None" ∨ word = "NoneType" := by
    unfold ofWord? at hword
    split at hword
    all_goals first
      | exact .inl rfl
      | exact .inr rfl
      | (exfalso; simp [SlotType.text, SlotType.ofCore] at hword)
  rcases hnull with rfl | rfl <;> decide

mutual

theorem Spelled.mentions_iff (classes : List ClassName) {bars : Bool} {a : Annotation}
    {s : List Char} : Spelled bars a s →
      (Mentions s ↔ ListsNull classes a ∨ Hides classes a)
  | @Spelled.name _ word _ => by
      rw [ListsNull, Hides]
      exact ⟨fun h => (em _).imp_right fun hnot => ⟨hnot, h⟩,
        fun h => h.elim mentions_of_meansNull And.right⟩
  | .optional hb _ => by
      rw [mentions_bracketed hb, ListsNull, true_or, iff_true]
      exact .inl (.inr (List.infix_refl _))
  | .union hb h => by
      have hunion : ¬Mentions "Union".toList := by decide
      rw [mentions_bracketed hb, or_iff_right hunion, h.mentions_iff classes, ListsNull, Hides]
  | .generic _ hb h => by
      rw [mentions_bracketed hb, h.mentions_iff classes, ListsNull, Hides, false_or]
  | .bars h h' => by
      rw [mentions_append_cons (by decide), h.mentions_iff classes, h'.mentions_iff classes,
        ListsNull, Hides, or_or_or_comm]
  | .grouped h => by
      rw [← List.nil_append ('(' :: _), mentions_append_cons (by decide),
        mentions_append_cons (by decide), or_iff_right not_mentions_nil,
        or_iff_left not_mentions_nil, h.mentions_iff classes]
  | .blanks hb hb' h => by
      rw [mentions_append_blanks hb', mentions_blanks_append hb, h.mentions_iff classes]

theorem SpelledAll.mentions_iff (classes : List ClassName) {as : List Annotation}
    {s : List Char} : SpelledAll as s →
      (Mentions s ↔ AnyListsNull classes as ∨ AnyHides classes as)
  | .one h => by
      rw [h.mentions_iff classes, AnyListsNull, AnyListsNull, AnyHides, AnyHides, or_false,
        or_false]
  | .more h h' => by
      rw [mentions_append_cons (by decide), h.mentions_iff classes, h'.mentions_iff classes,
        AnyListsNull, AnyHides, or_or_or_comm]

end

end Annotation

/-! ### The arms of a resolved type -/

namespace SlotType

/-- A type as it stands in a union: no union and not `None` itself, and written like
the class of `null` only if it is that class. -/
structure IsArm (t : SlotType) : Prop where
  arms : t.arms = [t]
  null : t.inner = "NoneType" → t = .nullType
  resolved : ∀ text, t ≠ .forward text

def IsResolved (t : SlotType) : Prop := ∀ arm ∈ t.arms, IsArm arm

variable {t : SlotType} {types : List SlotType} {style : UnionStyle} {seen : List String}
  {classes : List ClassName} {word : String}

theorem isArm_nullType : IsArm .nullType := ⟨rfl, fun _ => rfl, by simp⟩

theorem IsArm.isResolved (h : IsArm t) : IsResolved t := by
  intro arm harm
  rw [h.arms, List.mem_singleton] at harm
  rwa [harm]

theorem isResolved_nothing : IsResolved .nothing :=
  List.forall_mem_singleton.2 isArm_nullType

/-- A resolved type takes `null` if it lists the class of `null`, or says nothing
about values. -/
theorem isNullable_iff (h : IsResolved t) :
    t.isNullable = true ↔ .nullType ∈ t.arms ∨ t.isUnknown = true := by
  cases t with
  | union style ts =>
      have hany : ts.any isNullType = true ↔ .nullType ∈ ts := by
        rw [List.any_eq_true]
        constructor
        · rintro ⟨t, ht, hnull⟩
          cases t with
          | nullType => exact ht
          | _ => exact absurd hnull (by simp [isNullType])
        · exact fun hmem => ⟨_, hmem, rfl⟩
      simp [isNullable, hany, arms, isUnknown]
  | forward text => exact absurd rfl ((h (.forward text) (by simp [arms])).resolved text)
  | _ => simp [isNullable, arms, isUnknown]

theorem isArm_of_ne (harms : t.arms = [t]) (hinner : t.inner ≠ "NoneType")
    (hresolved : ∀ text, t ≠ .forward text) : IsArm t :=
  ⟨harms, fun h => absurd h hinner, hresolved⟩

theorem isArm_cls {c : ClassName} (h : c.qualified ≠ "NoneType") : IsArm (.cls c) :=
  isArm_of_ne rfl h (by simp)

/-- A word that is known to the language means `None`, a type of its own, or an
integer of some width. -/
theorem isArm_of_ofWord? (h : ofWord? word = some t) : t = .nothing ∨ IsArm t := by
  unfold ofWord? at h
  split at h
  all_goals first
    | (obtain rfl := Option.some.inj h
       first
         | exact .inl rfl
         | exact .inr isArm_nullType
         | exact .inr (isArm_of_ne rfl (by decide) (by simp [text, ofCore])))
    | (obtain ⟨w, -, rfl⟩ := Option.map_eq_some_iff.1 h
       exact .inr (isArm_of_ne rfl (by cases w <;> decide) (by simp)))

theorem ofName?_cases (hclasses : ∀ c ∈ classes, c.qualified ≠ "NoneType")
    (h : ofName? classes word = some t) : t = .nothing ∨ IsArm t := by
  rw [ofName?] at h
  split at h
  · next c hc =>
      obtain rfl := Option.some.inj h
      exact .inr (isArm_cls (hclasses c (List.mem_of_find?_eq_some hc)))
  · exact isArm_of_ofWord? h

theorem isArm_generic {gstyle : GenericStyle} {origin : ClassName} {arguments : List SlotType}
    (h : arguments ≠ []) : IsArm (.generic gstyle origin arguments) := by
  refine isArm_of_ne rfl (fun hinner => ?_) (by simp)
  obtain ⟨t, ts, rfl⟩ := List.exists_cons_of_ne_nil h
  have hmem : '[' ∈ "NoneType".toList := by
    rw [← hinner, inner]
    · simp
    · simp
  exact absurd hmem (by decide)

/-! ### Unions -/

theorem mem_of_mem_dropRepeated (h : t ∈ dropRepeated seen types) : t ∈ types := by
  induction types generalizing seen with
  | nil => exact h
  | cons u types ih =>
      rw [dropRepeated] at h
      split at h
      · exact List.mem_cons_of_mem _ (ih h)
      · rcases List.mem_cons.1 h with rfl | h
        · exact List.mem_cons_self ..
        · exact List.mem_cons_of_mem _ (ih h)

theorem nullType_mem_dropRepeated (hseen : "NoneType" ∉ seen) (harms : ∀ t ∈ types, IsArm t)
    (h : .nullType ∈ types) : .nullType ∈ dropRepeated seen types := by
  induction types generalizing seen with
  | nil => exact h
  | cons u types ih =>
      obtain ⟨hu, harms⟩ := List.forall_mem_cons.1 harms
      rw [dropRepeated]
      split
      · next hrepeated =>
          refine ih hseen harms ((List.mem_cons.1 h).resolve_left ?_)
          rintro rfl
          exact hseen (List.contains_iff_mem.1 hrepeated)
      · rcases List.mem_cons.1 h with rfl | h
        · exact List.mem_cons_self ..
        -- an arm that is written like the class of `null`, and so hides it, is that class
        by_cases hnull : u.inner = "NoneType"
        · exact hu.null hnull ▸ List.mem_cons_self ..
        · refine List.mem_cons_of_mem _ (ih ?_ harms h)
          rw [List.mem_cons, not_or]
          exact ⟨Ne.symm hnull, hseen⟩

theorem arms_unionOf (h : ∀ t ∈ types, IsResolved t) :
    (unionOf style types).arms = dropRepeated [] (types.flatMap SlotType.arms) := by
  rw [unionOf]
  split
  · next t ht =>
      obtain ⟨u, hu, hmem⟩ := List.mem_flatMap.1
        (mem_of_mem_dropRepeated (by rw [ht]; exact List.mem_singleton_self t))
      rw [(h u hu t hmem).arms, ht]
  · rfl

theorem isResolved_unionOf (h : ∀ t ∈ types, IsResolved t) :
    IsResolved (unionOf style types) := by
  intro arm harm
  rw [arms_unionOf h] at harm
  obtain ⟨u, hu, hmem⟩ := List.mem_flatMap.1 (mem_of_mem_dropRepeated harm)
  exact h u hu arm hmem

/-- A union lists the class of `null` if one of its types does. -/
theorem nullType_mem_unionOf_iff (h : ∀ t ∈ types, IsResolved t) :
    .nullType ∈ (unionOf style types).arms ↔ ∃ t ∈ types, .nullType ∈ t.arms := by
  rw [arms_unionOf h, ← List.mem_flatMap]
  refine ⟨mem_of_mem_dropRepeated, nullType_mem_dropRepeated (by simp) fun arm harm => ?_⟩
  obtain ⟨u, hu, hmem⟩ := List.mem_flatMap.1 harm
  exact h u hu arm hmem

end SlotType

/-! ### What a declaration means for `null` -/

namespace Annotation

variable {classes : List ClassName} {t : SlotType}

theorem ofWord?_of_generic {word : String} {style : GenericStyle} {origin : ClassName}
    {ts : List SlotType} (h : ofName? classes word = some (.generic style origin ts)) :
    ofWord? word = some (.generic style origin ts) := by
  rw [ofName?] at h
  split at h
  · cases h
  · exact h

theorem isArm_of_generic? {head : String} {arguments : List SlotType}
    (h : generic? classes head arguments = some t) : t.IsArm ∧ t ≠ .nullType := by
  rw [generic?] at h
  split at h
  · cases h
  next hempty =>
  have hne : arguments ≠ [] := fun hnil => hempty (List.isEmpty_iff.2 hnil)
  split at h
  · next hname =>
      have hword := ofWord?_of_generic hname
      unfold withArguments? at h
      split at h
      · cases hword
      · cases hword
      · obtain rfl := Option.some.inj h
        exact ⟨SlotType.isArm_generic (by simpa using hne), by simp⟩
      · next hcls =>
          rw [hcls] at hword
          cases hword
      · cases h
  · obtain rfl := Option.some.inj h
    exact ⟨SlotType.isArm_generic hne, by simp⟩
  · cases h

mutual

theorem resolve?_spec (hclasses : ∀ c ∈ classes, c.qualified ≠ "NoneType") {t : SlotType} :
    (a : Annotation) → resolve? classes a = some t →
      t.IsResolved ∧ (.nullType ∈ t.arms ↔ ListsNull classes a)
  | .name word, h => by
      rw [resolve?] at h
      rw [ListsNull, MeansNull, h]
      rcases SlotType.ofName?_cases hclasses h with rfl | harm
      · exact ⟨SlotType.isResolved_nothing, by simp [arms]⟩
      · refine ⟨harm.isResolved, ?_⟩
        have hnothing : t ≠ .nothing := by
          rintro rfl
          exact absurd harm.arms (by simp [arms])
        rw [harm.arms, List.mem_singleton, Option.some.injEq, Option.some.injEq,
          or_iff_right hnothing, eq_comm]
  | .optional inner, h => by
      rw [resolve?, Option.bind_eq_bind, Option.bind_eq_some_iff] at h
      obtain ⟨u, hu, ht⟩ := h
      obtain rfl : unionOf .spelled [u, .nullType] = t := Option.some.inj ht
      have hresolved : ∀ t ∈ [u, .nullType], t.IsResolved :=
        List.forall_mem_cons.2 ⟨(resolve?_spec hclasses inner hu).1,
          List.forall_mem_singleton.2 SlotType.isArm_nullType.isResolved⟩
      refine ⟨SlotType.isResolved_unionOf hresolved, ?_⟩
      rw [SlotType.nullType_mem_unionOf_iff hresolved, ListsNull, iff_true]
      exact ⟨.nullType, by simp, by simp [arms]⟩
  | .union arms, h => by
      rw [resolve?, Option.bind_eq_bind, Option.bind_eq_some_iff] at h
      obtain ⟨ts, hts, ht⟩ := h
      obtain rfl : unionOf .spelled ts = t := Option.some.inj ht
      obtain ⟨hresolved, hnull⟩ := resolveAll?_spec hclasses arms hts
      exact ⟨SlotType.isResolved_unionOf hresolved,
        (SlotType.nullType_mem_unionOf_iff hresolved).trans hnull⟩
  | .bars left right, h => by
      simp only [resolve?, Option.bind_eq_bind, Option.bind_eq_some_iff] at h
      obtain ⟨u, hu, v, hv, ht⟩ := h
      obtain rfl := Option.some.inj ht
      obtain ⟨hleft, hleftNull⟩ := resolve?_spec hclasses left hu
      obtain ⟨hright, hrightNull⟩ := resolve?_spec hclasses right hv
      have hresolved : ∀ t ∈ [u, v], t.IsResolved := by
        simp [hleft, hright]
      refine ⟨SlotType.isResolved_unionOf hresolved, ?_⟩
      rw [barred, SlotType.nullType_mem_unionOf_iff hresolved, ListsNull, ← hleftNull,
        ← hrightNull]
      simp
  | .generic head arguments, h => by
      rw [resolve?, Option.bind_eq_bind, Option.bind_eq_some_iff] at h
      obtain ⟨ts, -, ht⟩ := h
      obtain ⟨harm, hnot⟩ := isArm_of_generic? ht
      refine ⟨harm.isResolved, ?_⟩
      rw [harm.arms, List.mem_singleton, ListsNull, iff_false]
      exact hnot.symm

theorem resolveAll?_spec (hclasses : ∀ c ∈ classes, c.qualified ≠ "NoneType")
    {ts : List SlotType} : (as : List Annotation) → resolveAll? classes as = some ts →
      (∀ t ∈ ts, t.IsResolved) ∧ ((∃ t ∈ ts, .nullType ∈ t.arms) ↔ AnyListsNull classes as)
  | [], h => by
      obtain rfl := Option.some.inj h
      simp [AnyListsNull]
  | a :: as, h => by
      simp only [resolveAll?, Option.bind_eq_bind, Option.bind_eq_some_iff] at h
      obtain ⟨t, ht, ts', hts, heq⟩ := h
      obtain rfl := Option.some.inj heq
      obtain ⟨hfirst, hfirstNull⟩ := resolve?_spec hclasses a ht
      obtain ⟨hrest, hrestNull⟩ := resolveAll?_spec hclasses as hts
      refine ⟨List.forall_mem_cons.2 ⟨hfirst, hrest⟩, ?_⟩
      rw [List.exists_mem_cons_iff, hfirstNull, hrestNull, AnyListsNull]

end

end Annotation

/-! ### Where `null` is accepted -/

theorem Outlines.accepts_null_iff {o : Outlines} {w : World} {t : SlotType} :
    o.Accepts w .null t ↔ t.isNullable = true := by
  constructor
  · rintro ⟨u, hu⟩
    exact (null_of_coerce rfl hu).2
  · intro h
    have hnull : Value.null.isNull = true := rfl
    refine ⟨.null, ?_⟩
    cases t with
    | nullType => rw [coerce, if_pos hnull]
    | forward text => rw [coerce, h]; rfl
    | union style arms => rw [coerce, if_pos hnull, if_pos h]
    | undeclared | any | anyObject | nothing => rw [coerce]
    | _ => exact absurd h (by simp [SlotType.isNullable])

theorem Catalog.takes_null_iff {cat : Catalog} {w : World} {p : Param} :
    cat.Takes w (Subject.ofParam p) .null .null ↔
      p.type.isNullable = true ∨ p.default = some .null := by
  have hnull : Value.null.isNull = true := rfl
  have hdefault : (p.default.map Value.isNull).getD false = true ↔ p.default = some .null := by
    cases p.default with
    | none => simp
    | some v => simpa using Value.isNull_iff
  rw [Takes, if_pos hnull, and_iff_left rfl, ← hdefault, ← Bool.or_eq_true]
  rfl

namespace Annotation

variable {classes : List ClassName} {a : Annotation} {text : List Char} {t : SlotType}

theorem isNullable_forward_iff (classes : List ClassName) (h : Spelled true a text) :
    (SlotType.forward (String.ofList text)).isNullable = true ↔
      ListsNull classes a ∨ Hides classes a := by
  have hoccurs : (SlotType.forward (String.ofList text)).isNullable = true ↔ Mentions text := by
    rw [SlotType.isNullable, Bool.or_eq_true, occurs_iff, occurs_iff]
    simp only [String.toList_ofList]
    exact Iff.rfl
  exact hoccurs.trans (h.mentions_iff classes)

/-- A declaration that is left unresolved and the type that it means judge `null` alike
if and only if the declaration lists `None`, or it hides one of the two words just
when its type says nothing about values. For the text alone decides on the one
side, where the words stand anywhere in it, and the arms of the type on the other;
and a slot of either type accepts `null`, and a parameter takes it, as that judgement
says, or because `null` is the default of the parameter. -/
theorem forward_agrees_iff (hclasses : ∀ c ∈ classes, c.qualified ≠ "NoneType")
    (hspelled : Spelled true a text) (hresolved : resolve? classes a = some t) (cat : Catalog)
    (w : World) :
    ((SlotType.forward (String.ofList text)).isNullable = true ↔
        ListsNull classes a ∨ Hides classes a) ∧
      (t.isNullable = true ↔ ListsNull classes a ∨ t.isUnknown = true) ∧
      ((SlotType.forward (String.ofList text)).isNullable = t.isNullable ↔
        ListsNull classes a ∨ (Hides classes a ↔ t.isUnknown = true)) ∧
      (∀ type, cat.Accepts w .null type ↔ type.isNullable = true) ∧
      ∀ p, cat.Takes w (Subject.ofParam p) .null .null ↔
        p.type.isNullable = true ∨ p.default = some .null := by
  obtain ⟨hshape, hlists⟩ := resolve?_spec hclasses a hresolved
  have hforward := isNullable_forward_iff classes hspelled
  have hresolved : t.isNullable = true ↔ ListsNull classes a ∨ t.isUnknown = true := by
    rw [SlotType.isNullable_iff hshape, hlists]
  refine ⟨hforward, hresolved, ?_, fun type => Outlines.accepts_null_iff,
    fun p => Catalog.takes_null_iff⟩
  rw [Bool.eq_iff_iff, hforward, hresolved]
  by_cases hlisted : ListsNull classes a <;> simp [hlisted]

end Annotation

namespace Sample

open Annotation

/-- A list of pets or `None` takes no `null` itself, and does so while it is left
unresolved. -/
theorem forward_list_takes_null :
    catalog.Accepts demonstration.2 .null (.forward "List[Optional[Pet]]") ∧
      ¬catalog.Accepts demonstration.2 .null
        (.generic .capital (.core "list") [.union .spelled [.cls petName, .nullType]]) := by
  have hword (word : String) (h : word.toList.all isWordChar = true) (hne : word.toList ≠ []) :
      IsName word := ⟨hne, fun c hc => .inl (List.all_eq_true.1 h c hc)⟩
  have hspelled : Spelled true (.generic "List" [.optional (.name "Pet")])
      "List[Optional[Pet]]".toList :=
    @Spelled.generic true "List" _ [] "Optional[Pet]".toList
      (hword "List" (by decide) (by decide)) (by decide)
      (.one (@Spelled.optional true _ [] "Pet".toList (by decide)
        (.name (hword "Pet" (by decide) (by decide)))))
  have hresolved : resolve? [petName] (.generic "List" [.optional (.name "Pet")]) =
      some (.generic .capital (.core "list") [.union .spelled [.cls petName, .nullType]]) := rfl
  obtain ⟨hforward, hlist, -, haccepts, -⟩ := forward_agrees_iff (by decide) hspelled hresolved
    catalog demonstration.2
  rw [haccepts, haccepts, hlist]
  refine ⟨hforward.2 (.inr (.inr (.inl (.inl trivial)))), ?_⟩
  simp [ListsNull, SlotType.isUnknown]

end Sample

end ObjectConsole
