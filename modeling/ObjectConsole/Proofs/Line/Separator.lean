import ObjectConsole.Proofs.Line.Position

/-!
Where the text of several arguments is cut, by positions. A comma separates two
arguments if it is live and no bracket is open in front of it. A text is its
parts with commas between them, and the commas between them are exactly those
that separate; so parts that none of these commas cuts are found again.
-/

namespace ObjectConsole.Line

def Sight.depthAfter (depth : Nat) : Sight → Nat
  | .live c => Line.depthAfter depth c
  | _ => depth

/-- The depth of brackets in front of a position, those of both kinds together. -/
def depthAt (s : List Char) (i : Nat) : Nat := ((sights s).take i).foldl Sight.depthAfter 0

/-- The position is that of a comma outside quoted regions and brackets. -/
def SeparatorAt (s : List Char) (i : Nat) : Prop := LiveAt s i ',' ∧ depthAt s i = 0

instance (s : List Char) (i : Nat) : Decidable (SeparatorAt s i) :=
  inferInstanceAs (Decidable (_ ∧ _))

def Settled (s : List Char) : Prop := Closed s ∧ depthAt s s.length = 0

instance (s : List Char) : Decidable (Settled s) := inferInstanceAs (Decidable (_ ∧ _))

def IsCut (parts : List (List Char)) (i : Nat) : Prop :=
  ∃ front back, parts = front ++ back ∧ front ≠ [] ∧ back ≠ [] ∧ i = (commaJoin front).length

variable {s t u : List Char} {c : Char} {i j : Nat}

/-! ### Positions of a text behind another -/

theorem Settled.foldl_sights (h : Settled s) :
    (sights s).foldl Sight.depthAfter 0 = 0 := by
  have hdepth := h.2
  rwa [depthAt, ← length_sights, List.take_length] at hdepth

theorem separatorAt_append_left (h : Closed t) (hi : i < t.length) :
    SeparatorAt (t ++ u) i ↔ SeparatorAt t i := by
  rw [← length_sights] at hi
  rw [SeparatorAt, SeparatorAt, LiveAt, LiveAt, depthAt, depthAt, sights_append h,
    List.getElem?_append_left hi, List.take_append_of_le_length (Nat.le_of_lt hi)]

theorem separatorAt_append_right (h : Settled t) (j : Nat) :
    SeparatorAt (t ++ u) (t.length + j) ↔ SeparatorAt u j := by
  rw [SeparatorAt, SeparatorAt, LiveAt, LiveAt, depthAt, depthAt, sights_append h.1,
    ← length_sights t, List.getElem?_append_right (Nat.le_add_right ..),
    List.take_length_add_append, List.foldl_append, h.foldl_sights, Nat.add_sub_cancel_left]

theorem settled_comma : Settled [','] := by decide +kernel

/-- Behind a text without separators the next one is the comma, and the others
are those of what follows the comma. -/
theorem separatorAt_append_comma (hsettled : Settled t) (hnone : ∀ i, ¬SeparatorAt t i) :
    SeparatorAt (t ++ ',' :: s) i ↔
      i = t.length ∨ ∃ j, i = t.length + 1 + j ∧ SeparatorAt s j := by
  have hcomma : SeparatorAt (',' :: s) 0 :=
    (separatorAt_append_left settled_comma.1 (by decide)).2 (by decide +kernel)
  have hbehind (j : Nat) : SeparatorAt (t ++ ',' :: s) (t.length + 1 + j) ↔ SeparatorAt s j := by
    rw [Nat.add_assoc, separatorAt_append_right hsettled]
    exact separatorAt_append_right settled_comma j
  rcases Nat.lt_trichotomy i t.length with hlt | rfl | hlt
  · rw [separatorAt_append_left hsettled.1 hlt]
    exact iff_of_false (hnone i) (by omega)
  · exact iff_of_true ((separatorAt_append_right hsettled 0).2 hcomma) (.inl rfl)
  · obtain ⟨j, rfl⟩ := Nat.exists_eq_add_of_le hlt
    rw [← Nat.add_one, hbehind]
    constructor
    · exact fun hj => .inr ⟨j, rfl, hj⟩
    · rintro (heq | ⟨k, heq, hk⟩)
      · omega
      · rwa [show j = k by omega]

/-! ### Texts without separators -/

/-- Every comma that is seen stands in brackets, if the depth in front is `d`. -/
def CommasInside (d : Nat) (xs : List Sight) : Prop :=
  ∀ i, xs[i]? = some (.live ',') → (xs.take i).foldl Sight.depthAfter d ≠ 0

theorem commasInside_cons {d : Nat} {x : Sight} {xs : List Sight} :
    CommasInside d (x :: xs) ↔
      (x = .live ',' → d ≠ 0) ∧ CommasInside (x.depthAfter d) xs := by
  constructor
  · intro h
    exact ⟨fun hx => h 0 (by rw [hx]; rfl), fun i hi => h (i + 1) hi⟩
  · rintro ⟨hfirst, hrest⟩ i hi
    cases i with
    | zero => exact hfirst (by simpa using hi)
    | succ i => exact hrest i hi

theorem foldl_quoted (d n : Nat) (xs : List Sight) :
    (List.replicate n Sight.quoted ++ xs).foldl Sight.depthAfter d =
      xs.foldl Sight.depthAfter d := by
  induction n with
  | zero => rfl
  | succ n ih => exact ih

theorem commasInside_quoted {d n : Nat} {xs : List Sight} :
    CommasInside d (List.replicate n .quoted ++ xs) ↔ CommasInside d xs := by
  induction n with
  | zero => rfl
  | succ n ih =>
      rw [List.replicate_succ, List.cons_append, commasInside_cons, and_iff_right (by simp)]
      exact ih

theorem span_eq_some_iff {ps : List Piece} (hclosed : ∀ p ∈ ps, p.isClosed = true) {d e : Nat} :
    span d ps = some e ↔
      CommasInside d (piecesSights ps) ∧ (piecesSights ps).foldl Sight.depthAfter d = e := by
  induction ps generalizing d with
  | nil => simp [span, CommasInside]
  | cons p ps ih =>
      obtain ⟨hp, hps⟩ := List.forall_mem_cons.1 hclosed
      cases p with
      | unclosed r => exact absurd hp (by simp [Piece.isClosed])
      | quoted r =>
          rw [piecesSights_cons, Piece.sights, commasInside_quoted, foldl_quoted]
          exact ih hps
      | live c =>
          rw [piecesSights_cons, Piece.sights, List.singleton_append, commasInside_cons,
            List.foldl_cons, span]
          by_cases hc : c = ',' ∧ d = 0
          · simp [hc]
          · rw [if_neg (by simpa using hc), ih hps]
            simp_all [Sight.depthAfter]

/-- A text is cut at no comma and leaves nothing open if no position is that of a
separator and at the end neither a quote nor a bracket is open. -/
theorem isArgument_iff : IsArgument t ↔ Settled t ∧ ∀ i, ¬SeparatorAt t i := by
  have key (hclosed : Closed t) :
      IsArgument t ↔ depthAt t t.length = 0 ∧ ∀ i, ¬SeparatorAt t i := by
    have htake : (sights t).take t.length = sights t := by rw [← length_sights, List.take_length]
    rw [IsArgument, span_eq_some_iff hclosed, ← sights_eq, and_comm, depthAt, htake]
    exact and_congr_right fun _ => forall_congr' fun i => by rw [SeparatorAt, not_and]; rfl
  constructor
  · intro h
    obtain ⟨hdepth, hnone⟩ := (key h.closed).1 h
    exact ⟨⟨h.closed, hdepth⟩, hnone⟩
  · rintro ⟨⟨hclosed, hdepth⟩, hnone⟩
    exact (key hclosed).2 ⟨hdepth, hnone⟩

/-! ### The first separator -/

/-- The pieces in front of the first separator or open quote can be followed. -/
theorem exists_span (ps : List Piece) (d : Nat) :
    ∃ front e, span d front = some e ∧ (ps = front ∨
      (∃ r rest, ps = front ++ .unclosed r :: rest) ∨
      e = 0 ∧ ∃ rest, ps = front ++ .live ',' :: rest) := by
  induction ps generalizing d with
  | nil => exact ⟨[], d, rfl, .inl rfl⟩
  | cons p ps ih =>
      -- a piece that can be followed from depth `d` to `d'` is passed
      have pass (d' : Nat) (hp : ∀ qs, span d (p :: qs) = span d' qs) :
          ∃ front e, span d front = some e ∧ (p :: ps = front ∨
            (∃ r rest, p :: ps = front ++ .unclosed r :: rest) ∨
            e = 0 ∧ ∃ rest, p :: ps = front ++ .live ',' :: rest) := by
        obtain ⟨front, e, hspan, hrest⟩ := ih d'
        refine ⟨p :: front, e, by rw [hp, hspan], ?_⟩
        exact hrest.imp (congrArg _) (Or.imp
          (fun ⟨r, rest, h⟩ => ⟨r, rest, by rw [h]; rfl⟩)
          fun ⟨he, rest, h⟩ => ⟨he, rest, by rw [h]; rfl⟩)
      cases p with
      | unclosed r => exact ⟨[], d, rfl, .inr (.inl ⟨r, ps, rfl⟩)⟩
      | quoted r => exact pass d fun qs => rfl
      | live c =>
          by_cases hc : (c == ',' && d == 0) = true
          · simp only [Bool.and_eq_true, beq_iff_eq] at hc
            obtain ⟨rfl, rfl⟩ := hc
            exact ⟨[], 0, rfl, .inr (.inr ⟨rfl, ps, rfl⟩)⟩
          · exact pass (depthAfter d c) fun qs => by rw [span, if_neg hc]

theorem not_separatorAt_of_span {ps : List Piece} {e n : Nat} (hspan : span 0 ps = some e)
    (hpieces : sights s = piecesSights ps ++ List.replicate n .unclosed) (i : Nat) :
    ¬SeparatorAt s i := by
  rintro ⟨hlive, hdepth⟩
  have hinside := ((span_eq_some_iff (isClosed_of_span hspan)).1 hspan).1
  rw [LiveAt, hpieces] at hlive
  have hi : i < (piecesSights ps).length := by
    by_contra hge
    rw [List.getElem?_append_right (Nat.le_of_not_lt hge)] at hlive
    exact absurd (List.eq_of_mem_replicate (List.mem_of_getElem? hlive)) (by simp)
  rw [List.getElem?_append_left hi] at hlive
  rw [depthAt, hpieces, List.take_append_of_le_length (Nat.le_of_lt hi)] at hdepth
  exact hinside i hlive hdepth

/-- A text has no separator and is not cut, or it is cut at its first one. -/
theorem cut_cases (s : List Char) :
    ((∀ i, ¬SeparatorAt s i) ∧ cut 0 (pieces s) = [s]) ∨
      ∃ t rest, IsArgument t ∧ s = t ++ ',' :: rest ∧
        cut 0 (pieces s) = t :: cut 0 (pieces rest) := by
  obtain ⟨front, e, hspan, hall | ⟨r, rest, hopen⟩ | ⟨rfl, rest, hcomma⟩⟩ :=
    exists_span (pieces s) 0
  · refine .inl ⟨not_separatorAt_of_span (n := 0) hspan ?_, ?_⟩
    · rw [sights_eq, hall, List.replicate_zero, List.append_nil]
    · rw [hall, cut_of_span hspan, ← hall, piecesText_pieces]
  · obtain rfl := eq_nil_of_pieces_unclosed hopen (isClosed_of_span hspan)
    have htext : piecesText front ++ r = s := by
      rw [← piecesText_pieces s, hopen, piecesText_append, piecesText_cons, piecesText_nil,
        List.append_nil]
      rfl
    refine .inl ⟨not_separatorAt_of_span (n := r.length) hspan ?_, ?_⟩
    · rw [sights_eq, hopen, piecesSights_append, piecesSights_cons, piecesSights_nil,
        List.append_nil, Piece.sights]
    · rw [hopen, cut_append hspan, cut, prependPart, htext]
  · have hclosed := isClosed_of_span hspan
    have hfront : pieces (piecesText front) = front := pieces_prefix hcomma hclosed
    have hrest : pieces (piecesText rest) = rest := by
      rw [← List.singleton_append, ← List.append_assoc] at hcomma
      refine pieces_suffix hcomma fun p hp => ?_
      rcases List.mem_append.1 hp with hp | hp
      · exact hclosed p hp
      · rw [List.mem_singleton.1 hp]
        rfl
    refine .inr ⟨piecesText front, piecesText rest, ?_, ?_, ?_⟩
    · rw [IsArgument, hfront, hspan]
    · rw [← piecesText_pieces s, hcomma, piecesText_append, piecesText_cons]
      rfl
    · rw [hcomma, cut_append_comma hspan, hrest]

/-! ### Cuts -/

theorem isCut_cons {parts : List (List Char)} (hne : parts ≠ []) :
    IsCut (t :: parts) i ↔ i = t.length ∨ ∃ j, i = t.length + 1 + j ∧ IsCut parts j := by
  constructor
  · rintro ⟨front, back, heq, hfront, hback, rfl⟩
    obtain ⟨u, front, rfl⟩ := List.exists_cons_of_ne_nil hfront
    rw [List.cons_append, List.cons.injEq] at heq
    obtain ⟨rfl, rfl⟩ := heq
    cases front with
    | nil => exact .inl (by rw [commaJoin_singleton])
    | cons u front =>
        refine .inr ⟨_, ?_, u :: front, back, rfl, List.cons_ne_nil _ _, hback, rfl⟩
        rw [commaJoin_cons_cons, List.length_append, List.length_cons]
        omega
  · rintro (rfl | ⟨j, rfl, front, back, rfl, hfront, hback, rfl⟩)
    · exact ⟨[t], parts, rfl, List.cons_ne_nil _ _, hne, by rw [commaJoin_singleton]⟩
    · obtain ⟨u, front, rfl⟩ := List.exists_cons_of_ne_nil hfront
      refine ⟨t :: u :: front, back, rfl, List.cons_ne_nil _ _, hback, ?_⟩
      rw [commaJoin_cons_cons, List.length_append, List.length_cons]
      omega

theorem not_isCut_singleton : ¬IsCut [t] i := by
  rintro ⟨front, back, heq, hfront, hback, -⟩
  obtain ⟨u, front, rfl⟩ := List.exists_cons_of_ne_nil hfront
  simp_all

structure IsSplit (s : List Char) (parts : List (List Char)) : Prop where
  ne_nil : parts ≠ []
  join : commaJoin parts = s
  cuts : ∀ i, IsCut parts i ↔ SeparatorAt s i
  whole : ∀ p ∈ parts, ∀ i, ¬SeparatorAt p i

theorem isSplit_cut (s : List Char) : IsSplit s (cut 0 (pieces s)) := by
  rcases cut_cases s with ⟨hnone, hcut⟩ | ⟨t, rest, ht, rfl, hcut⟩
  · rw [hcut]
    refine ⟨List.cons_ne_nil _ _, commaJoin_singleton s, fun i => ?_, ?_⟩
    · exact iff_of_false not_isCut_singleton (hnone i)
    · rintro p hp
      rwa [List.mem_singleton.1 hp]
  · obtain ⟨hne, hjoin, hcuts, hwhole⟩ := isSplit_cut rest
    obtain ⟨hsettled, hnone⟩ := isArgument_iff.1 ht
    rw [hcut]
    refine ⟨List.cons_ne_nil _ _, ?_, fun i => ?_, List.forall_mem_cons.2 ⟨hnone, hwhole⟩⟩
    · obtain ⟨p, parts, hparts⟩ := List.exists_cons_of_ne_nil hne
      rw [hparts] at hjoin ⊢
      rw [commaJoin_cons_cons, hjoin]
    · rw [isCut_cons hne, separatorAt_append_comma hsettled hnone]
      simp only [hcuts]
termination_by s.length
decreasing_by
  subst s
  simp only [List.length_append, List.length_cons]
  omega

theorem cut_of_not_separatorAt (h : ∀ i, ¬SeparatorAt s i) : cut 0 (pieces s) = [s] := by
  rcases cut_cases s with ⟨-, hcut⟩ | ⟨t, rest, ht, rfl, -⟩
  · exact hcut
  · obtain ⟨hsettled, hnone⟩ := isArgument_iff.1 ht
    exact absurd ((separatorAt_append_comma hsettled hnone).2 (.inl rfl)) (h t.length)

/-- Parts that nothing cuts are found again, if all but the last leave nothing
open. -/
theorem cut_commaJoin_of_settled {parts : List (List Char)} (hne : parts ≠ [])
    (hwhole : ∀ p ∈ parts, ∀ i, ¬SeparatorAt p i) (hsettled : ∀ p ∈ parts.dropLast, Settled p) :
    cut 0 (pieces (commaJoin parts)) = parts := by
  have hlast : ∀ i, ¬SeparatorAt (parts.getLast hne) i := hwhole _ (List.getLast_mem hne)
  have hfront : ∀ p ∈ parts.dropLast, IsArgument p := fun p hp =>
    isArgument_iff.2 ⟨hsettled p hp, hwhole p (List.dropLast_subset _ hp)⟩
  rw [← List.dropLast_append_getLast hne, cut_commaJoin_append hfront, cut_of_not_separatorAt hlast]

/-- The arguments of a text are its parts between the commas outside quoted
regions and brackets. None of them is cut again, and parts that are not cut and,
but for the last, leave nothing open are the arguments of the text that they make
up. -/
theorem arguments_separators :
    (∀ s, Text.isBlankText s = false →
      commaJoin (arguments s) = s ∧
      (∀ i, IsCut (arguments s) i ↔ SeparatorAt s i) ∧
      ∀ p ∈ arguments s, Text.isBlankText p = false → arguments p = [p]) ∧
    ∀ parts ≠ [], (∀ p ∈ parts, ∀ i, ¬SeparatorAt p i) → (∀ p ∈ parts.dropLast, Settled p) →
      Text.isBlankText (commaJoin parts) = false → arguments (commaJoin parts) = parts := by
  have harguments {s : List Char} (h : Text.isBlankText s = false) :
      arguments s = cut 0 (pieces s) := by rw [arguments, if_neg (by simp [h])]
  constructor
  · intro s hs
    obtain ⟨-, hjoin, hcuts, hwhole⟩ := isSplit_cut s
    rw [harguments hs]
    refine ⟨hjoin, hcuts, fun p hp hblank => ?_⟩
    rw [harguments hblank, cut_of_not_separatorAt (hwhole p hp)]
  · intro parts hne hwhole hsettled hblank
    rw [harguments hblank, cut_commaJoin_of_settled hne hwhole hsettled]

/-- A comma in brackets or in quotes cuts nothing, and the last argument may leave
a bracket open. -/
theorem arguments_separators_open_last :
    (∀ i, IsCut (arguments "f(a,b),'c,',[d,e".toList) i ↔
      SeparatorAt "f(a,b),'c,',[d,e".toList i) ∧
    arguments (commaJoin ["f(a,b)".toList, "'c,'".toList, "[d,e".toList]) =
      ["f(a,b)".toList, "'c,'".toList, "[d,e".toList] := by
  obtain ⟨hcut, hjoin⟩ := arguments_separators
  refine ⟨(hcut _ (by decide)).2.1, hjoin _ (List.cons_ne_nil _ _) ?_ (by decide +kernel)
    (by decide)⟩
  intro p hp i hi
  have hnone : ∀ p ∈ ["f(a,b)".toList, "'c,'".toList, "[d,e".toList],
      ∀ i < p.length, ¬SeparatorAt p i := by decide +kernel
  exact hnone p hp i (lt_length_of_sight hi.1) hi

end ObjectConsole.Line
