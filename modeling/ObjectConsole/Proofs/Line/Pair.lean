import ObjectConsole.Proofs.Line.Position
import ObjectConsole.Proofs.Line.Subtext

/-!
The first pair of brackets of a line, by positions. Up to where a search ends,
either no bracket of the kind has been live or more of them open than close. So
the search ends with a pair exactly where live openers and closers are equally
many for the first time, and what it reports instead is the leftmost thing that
stands in its way. Nothing behind the pair has a say.
-/

namespace ObjectConsole.Line

/-- How often a character is live from position `a` on and before position `b`. -/
def tally (s : List Char) (c : Char) (a b : Nat) : Nat :=
  (((sights s).take b).drop a).count (.live c)

/-- The first live opening bracket of a kind, with no live closing one in front of
it, and the first live position behind it up to which as many brackets close as
open. No quote is left open on the way. -/
structure IsPair (kind : Bracket) (s : List Char) (start stop : Nat) : Prop where
  opener : LiveAt s start kind.opener
  first : ∀ i < start, ¬LiveAt s i kind.opener
  noCloser : ∀ i < start, ¬LiveAt s i kind.closer
  closed : ∀ i < stop, ¬UnclosedAt s i
  behind : start < stop
  live : ∃ c, LiveAt s stop c
  even : tally s kind.opener start (stop + 1) = tally s kind.closer start (stop + 1)
  least : ∀ i, start < i → i < stop → (∃ c, LiveAt s i c) →
    tally s kind.opener start (i + 1) ≠ tally s kind.closer start (i + 1)

def StrayAt (kind : Bracket) (s : List Char) (i : Nat) : Prop :=
  LiveAt s i kind.closer ∧ tally s kind.opener 0 i ≤ tally s kind.closer 0 i

/-- What is to be reported of a line without a pair: whatever comes first of a
quote that nothing closes and a closing bracket with nothing open; if there is
neither, whether an opening bracket is there at all. -/
def Reports (kind : Bracket) (s : List Char) : BracketError → Prop
  | .unterminatedQuote =>
    (∀ start stop, ¬IsPair kind s start stop) ∧
      ∃ i, UnclosedAt s i ∧ ∀ j < i, ¬StrayAt kind s j
  | .unexpectedCloser k =>
    k = kind ∧ (∀ start stop, ¬IsPair kind s start stop) ∧
      ∃ i, StrayAt kind s i ∧ ∀ j < i, ¬UnclosedAt s j
  | .missingOpener k =>
    k = kind ∧ (∀ i, ¬StrayAt kind s i ∧ ¬UnclosedAt s i) ∧ ∀ i, ¬LiveAt s i kind.opener
  | .unbalanced k =>
    k = kind ∧ (∀ start stop, ¬IsPair kind s start stop) ∧
      (∀ i, ¬StrayAt kind s i ∧ ¬UnclosedAt s i) ∧ ∃ i, LiveAt s i kind.opener

variable {kind : Bracket} {s : List Char} {c : Char} {i n start stop : Nat}

/-! ### Counting live characters -/

theorem tally_zero (s : List Char) (c : Char) (n : Nat) :
    tally s c 0 n = ((sights s).take n).count (.live c) := by
  rw [tally, List.drop_zero]

theorem tally_zero_zero (s : List Char) (c : Char) : tally s c 0 0 = 0 := by
  rw [tally_zero, List.take_zero, List.count_nil]

theorem tally_succ_of_liveAt (h : LiveAt s i c) : tally s c 0 (i + 1) = tally s c 0 i + 1 := by
  rw [tally_zero, tally_zero, List.take_add_one, h]
  simp

theorem tally_succ_of_not (h : ¬LiveAt s i c) : tally s c 0 (i + 1) = tally s c 0 i := by
  rw [tally_zero, tally_zero, List.take_add_one, List.count_append]
  rw [LiveAt] at h
  cases hi : (sights s)[i]? with
  | none => simp
  | some x =>
      have hx : x ≠ .live c := by rintro rfl; exact h hi
      simp [hx]

theorem tally_add {a b : Nat} (h : a ≤ b) (s : List Char) (c : Char) :
    tally s c 0 a + tally s c a b = tally s c 0 b := by
  have htake : (sights s).take a = ((sights s).take b).take a := by
    rw [List.take_take, Nat.min_eq_left h]
  rw [tally_zero, tally_zero, tally, htake, ← List.count_append, List.take_append_drop]

theorem tally_eq_zero_iff : tally s c 0 n = 0 ↔ ∀ i < n, ¬LiveAt s i c := by
  induction n with
  | zero => simp [tally_zero_zero]
  | succ n ih =>
      rw [Nat.forall_lt_succ_right, ← ih]
      by_cases h : LiveAt s n c
      · simp [tally_succ_of_liveAt h, h]
      · simp [tally_succ_of_not h, h]

/-! ### As long as nothing is decided -/

/-- In front of position `n` nothing is decided about the first pair: no quote is
left open, and at each position either no bracket of the kind has been live or
more of them open than close. -/
structure PendingAt (kind : Bracket) (s : List Char) (n : Nat) : Prop where
  closed : ∀ i < n, ¬UnclosedAt s i
  ahead : ∀ m ≤ n, tally s kind.closer 0 m < tally s kind.opener 0 m ∨
    tally s kind.opener 0 m = 0 ∧ tally s kind.closer 0 m = 0

theorem not_opener_of_closer (h : LiveAt s i kind.closer) : ¬LiveAt s i kind.opener := by
  rw [LiveAt] at h ⊢
  rw [h, Option.some.injEq, Sight.live.injEq]
  cases kind <;> decide

theorem PendingAt.not_stray (h : PendingAt kind s n) (hi : i < n) : ¬StrayAt kind s i := by
  rintro ⟨hcloser, hle⟩
  have hnow := h.ahead i (Nat.le_of_lt hi)
  have hnext := h.ahead (i + 1) hi
  rw [tally_succ_of_liveAt hcloser, tally_succ_of_not (not_opener_of_closer hcloser)] at hnext
  omega

namespace IsPair

variable (h : IsPair kind s start stop)
include h

/-- No bracket of the kind is live in front of the pair, so it does not matter
where counting starts. -/
theorem tally_opener (hn : start ≤ n) : tally s kind.opener start n = tally s kind.opener 0 n := by
  rw [← tally_add hn, tally_eq_zero_iff.2 h.first, Nat.zero_add]

theorem tally_closer (hn : start ≤ n) : tally s kind.closer start n = tally s kind.closer 0 n := by
  rw [← tally_add hn, tally_eq_zero_iff.2 h.noCloser, Nat.zero_add]

/-- A pair does not end as long as nothing is decided. -/
theorem le_of_pendingAt (hpending : PendingAt kind s n) : n ≤ stop := by
  by_contra hlt
  have hstop : start ≤ stop + 1 := Nat.le_succ_of_le (Nat.le_of_lt h.behind)
  have heven := h.even
  rw [h.tally_opener hstop, h.tally_closer hstop] at heven
  have hopener : tally s kind.opener 0 (stop + 1) ≠ 0 := fun hzero =>
    tally_eq_zero_iff.1 hzero start (Nat.lt_succ_of_lt h.behind) h.opener
  have hahead := hpending.ahead (stop + 1) (by omega)
  omega

theorem unique {start' stop' : Nat} (h' : IsPair kind s start' stop') :
    start = start' ∧ stop = stop' := by
  have hstart : start = start' := by
    rcases Nat.lt_trichotomy start start' with hlt | heq | hlt
    · exact absurd h.opener (h'.first start hlt)
    · exact heq
    · exact absurd h'.opener (h.first start' hlt)
  subst hstart
  refine ⟨rfl, ?_⟩
  rcases Nat.lt_trichotomy stop stop' with hlt | heq | hlt
  · exact absurd h.even (h'.least stop h.behind hlt h.live)
  · exact heq
  · exact absurd h'.even (h.least stop' h'.behind hlt h'.live)

end IsPair

/-! ### Where the searches end -/

def Idle (kind : Bracket) (ps : List Piece) : Prop :=
  ∀ p ∈ ps, p ≠ .live kind.opener ∧ p ≠ .live kind.closer ∧ p.isClosed = true

theorem Idle.cons {p : Piece} {ps : List Piece} (hopener : p ≠ .live kind.opener)
    (hcloser : p ≠ .live kind.closer) (hclosed : p.isClosed = true) (h : Idle kind ps) :
    Idle kind (p :: ps) :=
  List.forall_mem_cons.2 ⟨⟨hopener, hcloser, hclosed⟩, h⟩

/-- The search for an opening bracket passes over idle pieces. -/
theorem toOpener_append {ps : List Piece} (h : Idle kind ps) (qs : List Piece) :
    toOpener kind (ps ++ qs) = (toOpener kind qs).map fun q => (ps ++ q.1, q.2) := by
  induction ps with
  | nil => cases hq : toOpener kind qs <;> simp [hq, Except.map]
  | cons p ps ih =>
      obtain ⟨⟨hopener, hcloser, hclosed⟩, hps⟩ := List.forall_mem_cons.1 h
      cases p with
      | unclosed r => exact absurd hclosed (by simp [Piece.isClosed])
      | quoted r => rw [List.cons_append, toOpener, ih hps, map_cons_map]; rfl
      | live c =>
          have hc : ¬(c == kind.opener) = true := by simpa using hopener
          have hc' : ¬(c == kind.closer) = true := by simpa using hcloser
          rw [List.cons_append, toOpener, if_neg hc, if_neg hc', ih hps, map_cons_map]; rfl

/-- The pieces in front of the first opening, closing or open one are idle. -/
theorem exists_idle (kind : Bracket) (ps : List Piece) :
    ∃ front, Idle kind front ∧ (ps = front ∨ ∃ p rest, ps = front ++ p :: rest ∧
      (p = .live kind.opener ∨ p = .live kind.closer ∨ ∃ r, p = .unclosed r)) := by
  induction ps with
  | nil => exact ⟨[], by simp [Idle], .inl rfl⟩
  | cons p ps ih =>
      by_cases hp : p = .live kind.opener ∨ p = .live kind.closer ∨ ∃ r, p = .unclosed r
      · exact ⟨[], by simp [Idle], .inr ⟨p, ps, rfl, hp⟩⟩
      · obtain ⟨front, hidle, hrest⟩ := ih
        simp only [not_or, not_exists] at hp
        have hclosed : p.isClosed = true := by
          cases p with
          | unclosed r => exact absurd rfl (hp.2.2 r)
          | _ => rfl
        refine ⟨p :: front, hidle.cons hp.1 hp.2.1 hclosed, ?_⟩
        exact hrest.imp (congrArg _) fun ⟨q, rest, hq, hcause⟩ => ⟨q, rest, by rw [hq]; rfl, hcause⟩

/-- The pieces in front of the first closing bracket that nothing opens, or the
first open quote, can be followed. -/
theorem exists_climb (kind : Bracket) (ps : List Piece) (d : Nat) :
    ∃ passed e, climb kind d passed = some e ∧ (ps = passed ∨
      (∃ r rest, ps = passed ++ .unclosed r :: rest) ∨
      e = 0 ∧ ∃ rest, ps = passed ++ .live kind.closer :: rest) := by
  induction ps generalizing d with
  | nil => exact ⟨[], d, rfl, .inl rfl⟩
  | cons p ps ih =>
      -- a piece that can be followed from depth `d` to `d'` is passed
      have pass (d' : Nat) (hp : ∀ qs, climb kind d (p :: qs) = climb kind d' qs) :
          ∃ passed e, climb kind d passed = some e ∧ (p :: ps = passed ∨
            (∃ r rest, p :: ps = passed ++ .unclosed r :: rest) ∨
            e = 0 ∧ ∃ rest, p :: ps = passed ++ .live kind.closer :: rest) := by
        obtain ⟨passed, e, hclimb, hrest⟩ := ih d'
        refine ⟨p :: passed, e, by rw [hp, hclimb], ?_⟩
        exact hrest.imp (congrArg _) (Or.imp
          (fun ⟨r, rest, h⟩ => ⟨r, rest, by rw [h]; rfl⟩)
          fun ⟨he, rest, h⟩ => ⟨he, rest, by rw [h]; rfl⟩)
      cases p with
      | unclosed r => exact ⟨[], d, rfl, .inr (.inl ⟨r, ps, rfl⟩)⟩
      | quoted r => exact pass d fun qs => rfl
      | live c =>
          by_cases hopener : (c == kind.opener) = true
          · exact pass (d + 1) fun qs => by simp only [climb, if_pos hopener]
          by_cases hcloser : (c == kind.closer) = true
          · cases d with
            | zero =>
                obtain rfl := eq_of_beq hcloser
                exact ⟨[], 0, rfl, .inr (.inr ⟨rfl, ps, rfl⟩)⟩
            | succ d => exact pass d fun qs => by rw [climb, if_neg hopener, if_pos hcloser]
          · exact pass d fun qs => by simp only [climb, if_neg hopener, if_neg hcloser]

/-! ### What the pieces that were passed say about positions -/

variable {ps qs : List Piece} {d e : Nat}

theorem not_mem_sights_of_idle (h : Idle kind ps) :
    .live kind.opener ∉ piecesSights ps ∧ .live kind.closer ∉ piecesSights ps ∧
      .unclosed ∉ piecesSights ps := by
  induction ps with
  | nil => simp
  | cons p ps ih =>
      obtain ⟨⟨hopener, hcloser, hclosed⟩, hps⟩ := List.forall_mem_cons.1 h
      obtain ⟨hopeners, hclosers, hunclosed⟩ := ih hps
      cases p with
      | unclosed r => exact absurd hclosed (by simp [Piece.isClosed])
      | quoted r => simp [Piece.sights, hopeners, hclosers, hunclosed]
      | live c =>
          have hc : kind.opener ≠ c := fun h => hopener (congrArg _ h.symm)
          have hc' : kind.closer ≠ c := fun h => hcloser (congrArg _ h.symm)
          simp [Piece.sights, hc, hc', hopeners, hclosers, hunclosed]

/-- Positions that lead from depth `d` to depth `e`: no quote is left open, no more
brackets close than are open, and the depth is what was opened and not closed. -/
structure Levels (kind : Bracket) (d e : Nat) (xs : List Sight) : Prop where
  closed : .unclosed ∉ xs
  depth : d + xs.count (.live kind.opener) = e + xs.count (.live kind.closer)
  climbs : ∀ n, (xs.take n).count (.live kind.closer) ≤ d + (xs.take n).count (.live kind.opener)

theorem Levels.quoted {xs : List Sight} (h : Levels kind d e xs) (k : Nat) :
    Levels kind d e (List.replicate k .quoted ++ xs) where
  closed := by simp [h.closed]
  depth := by simpa [List.count_replicate] using h.depth
  climbs n := by
    simpa [List.take_append, List.count_replicate] using h.climbs (n - k)

/-- The depth behind a character is counted on from. -/
theorem Levels.cons {d' : Nat} {xs : List Sight} (h : Levels kind d' e xs)
    (hc : d' + [Sight.live c].count (.live kind.closer) =
      d + [Sight.live c].count (.live kind.opener)) : Levels kind d e (.live c :: xs) := by
  have hdepth := h.depth
  rw [← List.singleton_append]
  refine ⟨by simp [h.closed], ?_, fun n => ?_⟩
  · rw [List.count_append, List.count_append]
    omega
  · cases n with
    | zero => simp
    | succ n =>
        have hn := h.climbs n
        rw [List.singleton_append, List.take_succ_cons, ← List.singleton_append,
          List.count_append, List.count_append]
        omega

/-- The positions of pieces that can be followed lead to the depth behind them. -/
theorem levels_of_climb (h : climb kind d ps = some e) : Levels kind d e (piecesSights ps) := by
  induction ps generalizing d with
  | nil =>
      obtain rfl : d = e := by simpa [climb] using h
      exact ⟨by simp, rfl, by simp⟩
  | cons p ps ih =>
      cases p with
      | unclosed r => simp [climb] at h
      | quoted r => exact (ih h).quoted r.length
      | live c =>
          have hne : kind.opener ≠ kind.closer := fun h => by
            have := opener_ne_closer kind
            simp [h] at this
          simp only [climb] at h
          split at h
          · next hc =>
              obtain rfl := eq_of_beq hc
              exact (ih h).cons (by simp [hne])
          · next hc =>
              split at h
              · next hc' =>
                  obtain rfl := eq_of_beq hc'
                  cases d with
                  | zero => simp at h
                  | succ d => exact (ih h).cons (by simp [hne.symm])
              · next hc' => exact (ih h).cons (by simp_all)

theorem sights_of_pieces (h : pieces s = ps ++ qs) :
    sights s = piecesSights ps ++ piecesSights qs := by
  rw [sights_eq, h, piecesSights_append]

theorem getElem?_sights_of_lt (h : pieces s = ps ++ qs) (hi : i < (piecesText ps).length) :
    (sights s)[i]? = (piecesSights ps)[i]? := by
  rw [sights_of_pieces h, List.getElem?_append_left (by simpa using hi)]

theorem getElem?_sights_length (h : pieces s = ps ++ qs) :
    (sights s)[(piecesText ps).length]? = (piecesSights qs)[0]? := by
  rw [sights_of_pieces h, List.getElem?_append_right (by simp)]
  simp

theorem tally_of_le (h : pieces s = ps ++ qs) (hn : n ≤ (piecesText ps).length) (c : Char) :
    tally s c 0 n = ((piecesSights ps).take n).count (.live c) := by
  rw [tally_zero, sights_of_pieces h, List.take_append_of_le_length (by simpa using hn)]

theorem take_length_piecesText (h : pieces s = ps ++ qs) :
    s.take (piecesText ps).length = piecesText ps := by
  have htext : piecesText ps ++ piecesText qs = s := by
    rw [← piecesText_append, ← h, piecesText_pieces]
  rw [← htext, List.take_left]

theorem unclosedAt_of_pieces {r : List Char} (h : pieces s = ps ++ .unclosed r :: qs) :
    UnclosedAt s (piecesText ps).length := by
  have hmem : .unclosed r ∈ pieces s := by simp [h]
  obtain ⟨c, r, rfl⟩ := List.exists_cons_of_ne_nil (ne_nil_of_mem_pieces hmem)
  rw [UnclosedAt, getElem?_sights_length h]
  rfl

theorem not_liveAt_of_idle (h : pieces s = ps ++ qs) (hidle : Idle kind ps) :
    (∀ i < (piecesText ps).length, ¬LiveAt s i kind.opener) ∧
      ∀ i < (piecesText ps).length, ¬LiveAt s i kind.closer := by
  obtain ⟨hopener, hcloser, -⟩ := not_mem_sights_of_idle hidle
  constructor
  · intro i hi hlive
    rw [LiveAt, getElem?_sights_of_lt h hi] at hlive
    exact hopener (List.mem_of_getElem? hlive)
  · intro i hi hlive
    rw [LiveAt, getElem?_sights_of_lt h hi] at hlive
    exact hcloser (List.mem_of_getElem? hlive)

theorem pendingAt_of_idle (h : pieces s = ps ++ qs) (hidle : Idle kind ps) :
    PendingAt kind s (piecesText ps).length := by
  obtain ⟨hopener, hcloser⟩ := not_liveAt_of_idle h hidle
  constructor
  · intro i hi hunclosed
    rw [UnclosedAt, getElem?_sights_of_lt h hi] at hunclosed
    exact (not_mem_sights_of_idle hidle).2.2 (List.mem_of_getElem? hunclosed)
  · intro m hm
    refine .inr ⟨tally_eq_zero_iff.2 fun i hi => ?_, tally_eq_zero_iff.2 fun i hi => ?_⟩
    · exact hopener i (Nat.lt_of_lt_of_le hi hm)
    · exact hcloser i (Nat.lt_of_lt_of_le hi hm)

/-- Behind the first opening bracket nothing is decided as long as pieces can be
followed, and the bracket itself is one more than what has been closed. -/
theorem pendingAt_of_climb {front passed : List Piece}
    (h : pieces s = front ++ .live kind.opener :: passed ++ qs) (hidle : Idle kind front)
    (hclimb : climb kind 0 passed = some e)
    (hn : (piecesText (front ++ .live kind.opener :: passed)).length = n) :
    PendingAt kind s n ∧ tally s kind.opener 0 n = tally s kind.closer 0 n + e + 1 := by
  subst hn
  obtain ⟨hopener, hcloser, hunclosed⟩ := not_mem_sights_of_idle hidle
  obtain ⟨hpassed, hcount, hprefix⟩ := levels_of_climb hclimb
  have hsights : piecesSights (front ++ .live kind.opener :: passed) =
      piecesSights front ++ .live kind.opener :: piecesSights passed := by
    rw [piecesSights_append, piecesSights_cons]
    rfl
  have hne : Sight.live kind.opener ≠ .live kind.closer := by cases kind <;> decide
  refine ⟨⟨fun i hi hi' => ?_, fun m hm => ?_⟩, ?_⟩
  · rw [UnclosedAt, getElem?_sights_of_lt h hi, hsights] at hi'
    have := List.mem_of_getElem? hi'
    simp_all
  · rw [tally_of_le h hm, tally_of_le h hm, hsights, List.take_append, List.count_append,
      List.count_append, List.count_eq_zero_of_not_mem (mt List.mem_of_mem_take hopener),
      List.count_eq_zero_of_not_mem (mt List.mem_of_mem_take hcloser)]
    cases m - (piecesSights front).length with
    | zero => simp
    | succ k =>
        have hk := hprefix k
        rw [List.take_succ_cons, List.count_cons_self, List.count_cons_of_ne hne]
        omega
  · rw [tally_of_le h le_rfl, tally_of_le h le_rfl, ← length_piecesSights, List.take_length,
      hsights, List.count_append, List.count_append, List.count_eq_zero_of_not_mem hopener,
      List.count_eq_zero_of_not_mem hcloser, List.count_cons_self, List.count_cons_of_ne hne]
    omega

/-! ### What ends a search -/

/-- Where a closing bracket comes before anything is open there is no pair. -/
theorem reports_of_stray (hpending : PendingAt kind s n) (hstray : StrayAt kind s n) :
    Reports kind s (.unexpectedCloser kind) := by
  refine ⟨rfl, fun start stop hpair => ?_, n, hstray, hpending.closed⟩
  obtain ⟨hcloser, hle⟩ := hstray
  have hzero : tally s kind.opener 0 n = 0 := by
    have := hpending.ahead n le_rfl
    omega
  have hstart : n ≤ start := by
    by_contra hlt
    exact tally_eq_zero_iff.1 hzero start (by omega) hpair.opener
  rcases hstart.eq_or_lt with rfl | hlt
  · exact not_opener_of_closer hcloser hpair.opener
  · exact hpair.noCloser n hlt hcloser

theorem reports_of_unclosed (hpending : PendingAt kind s n) (hunclosed : UnclosedAt s n) :
    Reports kind s .unterminatedQuote := by
  refine ⟨fun start stop hpair => ?_, n, hunclosed, fun j hj => hpending.not_stray hj⟩
  rcases (hpair.le_of_pendingAt hpending).eq_or_lt with rfl | hlt
  · obtain ⟨c, hc⟩ := hpair.live
    rw [UnclosedAt, hc] at hunclosed
    simp at hunclosed
  · exact hpair.closed n hlt hunclosed

theorem PendingAt.not_stray_not_unclosed (h : PendingAt kind s s.length) (i : Nat) :
    ¬StrayAt kind s i ∧ ¬UnclosedAt s i :=
  ⟨fun hi => h.not_stray (lt_length_of_sight hi.1) hi,
    fun hi => h.closed i (lt_length_of_sight hi) hi⟩

theorem reports_of_end (hpending : PendingAt kind s s.length) (hopener : LiveAt s i kind.opener) :
    Reports kind s (.unbalanced kind) := by
  refine ⟨rfl, fun start stop hpair => ?_, hpending.not_stray_not_unclosed, i, hopener⟩
  obtain ⟨c, hc⟩ := hpair.live
  have := hpair.le_of_pendingAt hpending
  have := lt_length_of_sight hc
  omega

def Settles (kind : Bracket) (s : List Char) : Except BracketError Enclosed → Prop
  | .ok e => IsPair kind s e.start e.stop ∧
      ∀ t, enclosed kind (s.take (e.stop + 1) ++ t) = .ok { e with after := t }
  | .error err => Reports kind s err

theorem enclosed_of_toOpener_error {err : BracketError}
    (h : toOpener kind (pieces s) = .error err) :
    enclosed kind s = .error err := by
  rw [enclosed, h]
  rfl

variable {front passed rest : List Piece}

theorem toOpener_opener (hidle : Idle kind front) (rest : List Piece) :
    toOpener kind (front ++ .live kind.opener :: rest) = .ok (front, rest) := by
  rw [toOpener_append hidle, toOpener, if_pos (beq_self_eq_true _)]
  simp [Except.map]

theorem enclosed_of_toCloser_error {err : BracketError} (hidle : Idle kind front)
    (h : pieces s = front ++ .live kind.opener :: rest)
    (hclose : toCloser kind 0 rest = .error err) :
    enclosed kind s = .error err := by
  rw [enclosed, h, toOpener_opener hidle]
  simp only [bind, Except.bind, hclose]

theorem enclosed_of_climb (hidle : Idle kind front) (hclimb : climb kind 0 passed = some 0)
    (h : pieces s = front ++ .live kind.opener :: passed ++ .live kind.closer :: rest) :
    enclosed kind s = .ok ⟨piecesText front, piecesText passed, piecesText rest⟩ := by
  rw [List.append_assoc, List.cons_append] at h
  rw [enclosed, h, toOpener_opener hidle]
  simp only [bind, Except.bind, toCloser_of_climb hclimb, pure, Except.pure]

theorem isPair_of_climb (hidle : Idle kind front) (hclimb : climb kind 0 passed = some 0)
    (h : pieces s = front ++ .live kind.opener :: passed ++ .live kind.closer :: rest) :
    IsPair kind s (piecesText front).length
      (piecesText (front ++ .live kind.opener :: passed)).length := by
  obtain ⟨hpending, hcount⟩ := pendingAt_of_climb h hidle hclimb rfl
  have hfront : pieces s = front ++ (.live kind.opener :: passed ++ .live kind.closer :: rest) := by
    rw [h, List.append_assoc]
  obtain ⟨hopener, hcloser⟩ := not_liveAt_of_idle hfront hidle
  have hstart : LiveAt s (piecesText front).length kind.opener := by
    rw [LiveAt, getElem?_sights_length hfront]
    rfl
  have hstop : LiveAt s (piecesText (front ++ .live kind.opener :: passed)).length kind.closer := by
    rw [LiveAt, getElem?_sights_length h]
    rfl
  have hbehind : (piecesText front).length <
      (piecesText (front ++ .live kind.opener :: passed)).length := by
    simp [piecesText, Piece.text]
  generalize (piecesText (front ++ .live kind.opener :: passed)).length = stop at *
  -- nothing is live in front of the opening bracket, so counting may start at the front
  have htally (n : Nat) (hn : (piecesText front).length ≤ n) :
      tally s kind.opener (piecesText front).length n = tally s kind.opener 0 n ∧
        tally s kind.closer (piecesText front).length n = tally s kind.closer 0 n := by
    rw [← tally_add hn s kind.opener, ← tally_add hn s kind.closer, tally_eq_zero_iff.2 hopener,
      tally_eq_zero_iff.2 hcloser]
    omega
  refine ⟨hstart, hopener, hcloser, hpending.closed, hbehind, ⟨_, hstop⟩, ?_, ?_⟩
  · rw [(htally _ (by omega)).1, (htally _ (by omega)).2, tally_succ_of_liveAt hstop,
      tally_succ_of_not (not_opener_of_closer hstop), hcount]
  · intro i hi hlt _
    rw [(htally _ (by omega)).1, (htally _ (by omega)).2]
    have hahead := hpending.ahead (i + 1) hlt
    have hopened : tally s kind.opener 0 (i + 1) ≠ 0 := fun hzero =>
      tally_eq_zero_iff.1 hzero _ (by omega) hstart
    omega

/-- Pieces up to the pair stay what they are, whatever follows them. -/
theorem enclosed_take_append (hidle : Idle kind front) (hclimb : climb kind 0 passed = some 0)
    (h : pieces s = front ++ .live kind.opener :: passed ++ .live kind.closer :: rest)
    (t : List Char) :
    enclosed kind
        (s.take ((piecesText (front ++ .live kind.opener :: passed)).length + 1) ++ t) =
      .ok ⟨piecesText front, piecesText passed, t⟩ := by
  have hpair : pieces s =
      (front ++ .live kind.opener :: passed ++ [.live kind.closer]) ++ rest := by
    rw [h, List.append_assoc _ [_], List.singleton_append]
  have hclosed : ∀ p ∈ front ++ .live kind.opener :: passed ++ [.live kind.closer],
      p.isClosed = true := by
    intro p hp
    simp only [List.mem_append, List.mem_cons, List.not_mem_nil] at hp
    rcases hp with (hp | rfl | hp) | rfl | hp
    · exact (hidle p hp).2.2
    · rfl
    · exact isClosed_of_climb hclimb p hp
    · rfl
    · exact absurd hp id
  have htake : s.take ((piecesText (front ++ .live kind.opener :: passed)).length + 1) =
      piecesText (front ++ .live kind.opener :: passed ++ [.live kind.closer]) := by
    rw [← take_length_piecesText hpair, piecesText_append _ [_], List.length_append]
    rfl
  rw [htake]
  have hpieces := pieces_replace hpair hclosed t
  rw [List.append_assoc _ [_], List.singleton_append] at hpieces
  rw [enclosed_of_climb hidle hclimb hpieces, piecesText_pieces]

theorem settles_of_climb (hidle : Idle kind front) (hclimb : climb kind 0 passed = some 0)
    (h : pieces s = front ++ .live kind.opener :: passed ++ .live kind.closer :: rest) :
    Settles kind s (enclosed kind s) := by
  have hstop : (piecesText (front ++ .live kind.opener :: passed)).length =
      (piecesText front).length + 1 + (piecesText passed).length := by
    simp [piecesText, Piece.text]
    omega
  have hpair := isPair_of_climb hidle hclimb h
  have htake := enclosed_take_append hidle hclimb h
  rw [hstop] at hpair htake
  rw [enclosed_of_climb hidle hclimb h]
  exact ⟨hpair, htake⟩

theorem settles_of_opener (hidle : Idle kind front)
    (h : pieces s = front ++ .live kind.opener :: rest) :
    Settles kind s (enclosed kind s) := by
  have hopener : LiveAt s (piecesText front).length kind.opener := by
    rw [LiveAt, getElem?_sights_length h]
    rfl
  obtain ⟨passed, e, hclimb, rfl | ⟨r, after, rfl⟩ | ⟨rfl, after, rfl⟩⟩ := exists_climb kind rest 0
  · have hpieces : pieces s = front ++ .live kind.opener :: rest ++ [] := by rw [h, List.append_nil]
    have hend : piecesText (front ++ .live kind.opener :: rest) = s := by
      rw [← h, piecesText_pieces]
    have hpending := (pendingAt_of_climb hpieces hidle hclimb rfl).1
    have hclose := toCloser_append hclimb []
    rw [hend] at hpending
    rw [List.append_nil] at hclose
    rw [enclosed_of_toCloser_error hidle h hclose]
    exact reports_of_end hpending hopener
  · have hpieces : pieces s = front ++ .live kind.opener :: passed ++ .unclosed r :: after := by
      rw [h, List.append_assoc, List.cons_append]
    have hpending := (pendingAt_of_climb hpieces hidle hclimb rfl).1
    rw [enclosed_of_toCloser_error hidle h (toCloser_append hclimb _)]
    exact reports_of_unclosed hpending (unclosedAt_of_pieces hpieces)
  · exact settles_of_climb hidle hclimb (by rw [h, List.append_assoc, List.cons_append])

theorem settles_enclosed (kind : Bracket) (s : List Char) : Settles kind s (enclosed kind s) := by
  obtain ⟨front, hidle, hfront | ⟨p, rest, hrest, hp⟩⟩ := exists_idle kind (pieces s)
  · have htext : piecesText front = s := by rw [← hfront, piecesText_pieces]
    have hpieces : pieces s = front ++ [] := by rw [hfront, List.append_nil]
    have henclosed : enclosed kind s = .error (.missingOpener kind) :=
      enclosed_of_toOpener_error (by rw [hpieces, toOpener_append hidle]; rfl)
    have hpending := pendingAt_of_idle hpieces hidle
    have hopener := (not_liveAt_of_idle hpieces hidle).1
    rw [htext] at hpending hopener
    rw [henclosed]
    exact ⟨rfl, hpending.not_stray_not_unclosed, fun i hi => hopener i (lt_length_of_sight hi) hi⟩
  · have hpending := pendingAt_of_idle hrest hidle
    rcases hp with rfl | rfl | ⟨r, rfl⟩
    · exact settles_of_opener hidle hrest
    · have henclosed : enclosed kind s = .error (.unexpectedCloser kind) := by
        refine enclosed_of_toOpener_error ?_
        rw [hrest, toOpener_append hidle, toOpener]
        simp [opener_ne_closer, Except.map]
      rw [henclosed]
      refine reports_of_stray hpending ⟨getElem?_sights_length hrest, ?_⟩
      rw [tally_eq_zero_iff.2 (not_liveAt_of_idle hrest hidle).1]
      exact Nat.zero_le _
    · have henclosed : enclosed kind s = .error .unterminatedQuote := by
        refine enclosed_of_toOpener_error ?_
        rw [hrest, toOpener_append hidle, toOpener]
        rfl
      rw [henclosed]
      exact reports_of_unclosed hpending (unclosedAt_of_pieces hrest)

/-! ### The pair that is found -/

theorem Reports.not_isPair {err : BracketError} (h : Reports kind s err) (start stop : Nat) :
    ¬IsPair kind s start stop := by
  cases err with
  | unterminatedQuote => exact h.1 start stop
  | unexpectedCloser k => exact h.2.1 start stop
  | missingOpener k => exact fun hpair => h.2.2 start hpair.opener
  | unbalanced k => exact h.2.1 start stop

/-- One position is leftmost. -/
theorem not_unclosed_and_stray {a b : Nat} (hunclosed : UnclosedAt s a)
    (hbefore : ∀ j < a, ¬StrayAt kind s j) (hstray : StrayAt kind s b)
    (hbefore' : ∀ j < b, ¬UnclosedAt s j) : False := by
  rcases Nat.lt_trichotomy a b with hlt | rfl | hlt
  · exact hbefore' a hlt hunclosed
  · have := hstray.1
    rw [LiveAt, hunclosed] at this
    simp at this
  · exact hbefore b hlt hstray

theorem Reports.unique {err err' : BracketError} (h : Reports kind s err)
    (h' : Reports kind s err') : err = err' := by
  cases err <;> cases err' <;> simp only [Reports] at h h' <;>
    grind [not_unclosed_and_stray]

/-- The search returns the first pair of brackets if there is one, and otherwise
reports what stands in its way. What it returns is the line around the pair, and
whatever follows the pair may be replaced. -/
theorem enclosed_iff (kind : Bracket) (s : List Char) :
    (∀ start stop, (∃ e, enclosed kind s = .ok e ∧ e.start = start ∧ e.stop = stop) ↔
      IsPair kind s start stop) ∧
    (∀ err, enclosed kind s = .error err ↔ Reports kind s err) ∧
    ∀ e, enclosed kind s = .ok e →
      e.before ++ kind.opener :: (e.inside ++ kind.closer :: e.after) = s ∧
        ∀ t, enclosed kind (s.take (e.stop + 1) ++ t) = .ok { e with after := t } := by
  have hsettles := settles_enclosed kind s
  refine ⟨fun start stop => ⟨?_, fun hpair => ?_⟩, fun err => ⟨fun herr => ?_, fun hreports => ?_⟩,
    fun e he => ⟨enclosed_text he, ?_⟩⟩
  · rintro ⟨e, he, rfl, rfl⟩
    rw [he] at hsettles
    exact hsettles.1
  · cases henclosed : enclosed kind s with
    | error err =>
        rw [henclosed] at hsettles
        exact absurd hpair (Reports.not_isPair hsettles start stop)
    | ok e =>
        rw [henclosed] at hsettles
        obtain ⟨hstart, hstop⟩ := hsettles.1.unique hpair
        exact ⟨e, rfl, hstart, hstop⟩
  · rwa [herr] at hsettles
  · cases henclosed : enclosed kind s with
    | error err' =>
        rw [henclosed] at hsettles
        rw [Reports.unique hsettles hreports]
    | ok e =>
        rw [henclosed] at hsettles
        exact absurd hsettles.1 (hreports.not_isPair e.start e.stop)
  · rw [he] at hsettles
    exact hsettles.2

/-- A closing bracket in quotes does not end a pair, and a quote behind the pair
may stay open. -/
theorem enclosed_iff_quoted_closer :
    IsPair .round "f(')')'".toList 1 5 ∧
      enclosed .round "f(')')]".toList = .ok ⟨['f'], "')'".toList, [']']⟩ ∧
      Reports .square "f(')')'".toList .unterminatedQuote := by
  have hround : enclosed .round "f(')')'".toList = .ok ⟨['f'], "')'".toList, ['\'']⟩ := by
    decide +kernel
  have hsquare : enclosed .square "f(')')'".toList = .error .unterminatedQuote := by
    decide +kernel
  obtain ⟨hpair, -, hafter⟩ := enclosed_iff .round "f(')')'".toList
  exact ⟨(hpair 1 5).1 ⟨_, hround, rfl, rfl⟩, (hafter _ hround).2 [']'],
    ((enclosed_iff .square _).2.1 _).1 hsquare⟩

end ObjectConsole.Line
