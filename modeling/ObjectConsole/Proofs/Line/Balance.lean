import ObjectConsole.Line.Arguments
import ObjectConsole.Line.Bracket
import ObjectConsole.Line.Scan
import ObjectConsole.Proofs.Text.Trim

/-!
Balanced text. The pieces of a text that leaves no quote open are not
affected by what follows it, so depths of brackets can be followed through
the parts of a line one after the other. From this it follows where the
first pair of brackets of a line ends, and how the text of several arguments
is cut.
-/

namespace ObjectConsole.Line

/-! ### Pieces of a text in front of another -/

theorem ne_backslash_of_isQuote {c : Char} (h : isQuote c = true) : c ≠ '\\' := by
  rintro rfl
  exact absurd h (by decide)

/-- Where a region ends is settled by the region, whatever follows it. -/
theorem closeQuote_replace {quote : Char} (hq : quote ≠ '\\') {s region after : List Char}
    (h : closeQuote quote s = some (region, after)) (t : List Char) :
    closeQuote quote (region ++ t) = some (region, t) := by
  fun_induction closeQuote quote s generalizing region with
  | case1 => simp at h
  | case2 c rest ih =>
      obtain ⟨⟨r, a⟩, hr, he⟩ := Option.map_eq_some_iff.1 h
      simp only [Prod.mk.injEq] at he
      obtain ⟨rfl, rfl⟩ := he
      simp [closeQuote, ih hr]
  | case3 c rest _ hc =>
      simp only [Option.some.injEq, Prod.mk.injEq] at h
      obtain ⟨rfl, rfl⟩ := h
      have hne : c ≠ '\\' := by rwa [eq_of_beq hc]
      rw [List.cons_append, closeQuote, if_pos hc, List.nil_append]
      intro d r hd
      exact absurd hd hne
  | case4 c rest hpair hc ih =>
      obtain ⟨⟨r, a⟩, hr, he⟩ := Option.map_eq_some_iff.1 h
      simp only [Prod.mk.injEq] at he
      obtain ⟨rfl, rfl⟩ := he
      -- a backslash at the end would pair with the first character of `t`, but
      -- something has to follow `c` to close the region
      have hne : c ≠ '\\' := by
        rintro rfl
        obtain ⟨e, rest', rfl⟩ : ∃ e rest', rest = e :: rest' := by
          refine List.exists_cons_of_ne_nil ?_
          rintro rfl
          simp [closeQuote] at hr
        exact hpair e rest' rfl rfl
      rw [List.cons_append, closeQuote, if_neg hc, ih hr]
      · rfl
      · intro d r' hd
        exact absurd hd hne

theorem closeQuote_append_right {quote : Char} (hq : quote ≠ '\\') {s region after : List Char}
    (h : closeQuote quote s = some (region, after)) (t : List Char) :
    closeQuote quote (s ++ t) = some (region, after ++ t) := by
  rw [← closeQuote_append h, List.append_assoc]
  exact closeQuote_replace hq h (after ++ t)

theorem pieces_live {c : Char} (h : isQuote c = false) (s : List Char) :
    pieces (c :: s) = .live c :: pieces s := by
  rw [pieces, if_neg (by simp [h])]

theorem pieces_quoted {c : Char} (hc : isQuote c = true) {s region after : List Char}
    (h : closeQuote c s = some (region, after)) :
    pieces (c :: s) = .quoted (c :: region) :: pieces after := by
  rw [pieces, if_pos hc]
  split
  · next h' =>
      rw [h, Option.some.injEq, Prod.mk.injEq] at h'
      rw [h'.1, h'.2]
  · next h' => simp [h] at h'

theorem pieces_unclosed {c : Char} (hc : isQuote c = true) {s : List Char}
    (h : closeQuote c s = none) : pieces (c :: s) = [.unclosed (c :: s)] := by
  rw [pieces, if_pos hc]
  split
  · next h' => simp [h] at h'
  · rfl

def Piece.isClosed : Piece → Bool
  | .unclosed _ => false
  | _ => true

def Closed (s : List Char) : Prop := ∀ p ∈ pieces s, p.isClosed = true

instance (s : List Char) : Decidable (Closed s) :=
  inferInstanceAs (Decidable (∀ p ∈ pieces s, p.isClosed = true))

theorem pieces_append {s : List Char} (h : Closed s) (t : List Char) :
    pieces (s ++ t) = pieces s ++ pieces t := by
  rw [Closed] at h
  fun_induction pieces s with
  | case1 => simp
  | case2 c rest hc region after hclose ih =>
      rw [List.cons_append, pieces_quoted hc
        (closeQuote_append_right (ne_backslash_of_isQuote hc) hclose t),
        ih fun p hp => h p (List.mem_cons_of_mem _ hp), List.cons_append]
  | case3 c rest hc hclose =>
      exact absurd (h _ (List.mem_singleton_self _)) (by simp [Piece.isClosed])
  | case4 c rest hc ih =>
      rw [List.cons_append, pieces_live (by simpa using hc),
        ih fun p hp => h p (List.mem_cons_of_mem _ hp), List.cons_append]

/-! ### The depth of one kind of bracket -/

/-- The depth of brackets of a kind behind some pieces, if no bracket closes
with nothing open and no quote is left open. -/
def climb (kind : Bracket) : Nat → List Piece → Option Nat
  | d, [] => some d
  | _, .unclosed _ :: _ => none
  | d, .quoted _ :: ps => climb kind d ps
  | d, .live c :: ps =>
      if c == kind.opener then climb kind (d + 1) ps
      else if c == kind.closer then
        match d with
        | 0 => none
        | d + 1 => climb kind d ps
      else climb kind d ps

def Balanced (kind : Bracket) (s : List Char) : Prop := climb kind 0 (pieces s) = some 0

instance (kind : Bracket) (s : List Char) : Decidable (Balanced kind s) :=
  inferInstanceAs (Decidable (climb kind 0 (pieces s) = some 0))

variable {kind : Bracket}

theorem opener_ne_closer (kind : Bracket) : (kind.closer == kind.opener) = false := by
  cases kind <;> decide

theorem climb_append (ps qs : List Piece) (d : Nat) :
    climb kind d (ps ++ qs) = (climb kind d ps).bind fun e => climb kind e qs := by
  induction ps generalizing d with
  | nil => rfl
  | cons p ps ih =>
      cases p with
      | unclosed r => rfl
      | quoted r => exact ih d
      | live c =>
          simp only [List.cons_append, climb]
          split
          · exact ih (d + 1)
          · split
            · cases d with
              | zero => rfl
              | succ d => exact ih d
            · exact ih d

/-- Brackets that are open around a text stay open. -/
theorem climb_add {ps : List Piece} {d e : Nat} (h : climb kind d ps = some e) (k : Nat) :
    climb kind (d + k) ps = some (e + k) := by
  induction ps generalizing d with
  | nil =>
      simp only [climb, Option.some.injEq] at h
      rw [climb, h]
  | cons p ps ih =>
      cases p with
      | unclosed r => simp [climb] at h
      | quoted r => exact ih h
      | live c =>
          simp only [climb] at h ⊢
          split at h
          · next hc =>
              rw [if_pos hc, show d + k + 1 = d + 1 + k by omega]
              exact ih h
          · next hc =>
              rw [if_neg hc]
              split at h
              · next hc' =>
                  rw [if_pos hc']
                  cases d with
                  | zero => simp at h
                  | succ d =>
                      rw [show d + 1 + k = d + k + 1 by omega]
                      exact ih h
              · next hc' =>
                  rw [if_neg hc']
                  exact ih h

theorem isClosed_of_climb {ps : List Piece} {d e : Nat} (h : climb kind d ps = some e) :
    ∀ p ∈ ps, p.isClosed = true := by
  induction ps generalizing d with
  | nil => simp
  | cons p ps ih =>
      cases p with
      | unclosed r => simp [climb] at h
      | quoted r => exact List.forall_mem_cons.2 ⟨rfl, ih h⟩
      | live c =>
          refine List.forall_mem_cons.2 ⟨rfl, ?_⟩
          simp only [climb] at h
          split at h
          · exact ih h
          · split at h
            · cases d with
              | zero => simp at h
              | succ d => exact ih h
            · exact ih h

theorem Balanced.closed {s : List Char} (h : Balanced kind s) : Closed s :=
  isClosed_of_climb h

theorem Balanced.append {s t : List Char} (hs : Balanced kind s) (ht : Balanced kind t) :
    Balanced kind (s ++ t) := by
  rw [Balanced, pieces_append hs.closed, climb_append, hs]
  exact ht

/-! ### The first pair of brackets -/

theorem map_cons_map (p : Piece) (ps : List Piece)
    (r : Except BracketError (List Piece × List Piece)) :
    (r.map fun q => (ps ++ q.1, q.2)).map (fun q => (p :: q.1, q.2)) =
      r.map fun q => (p :: (ps ++ q.1), q.2) := by
  cases r <;> rfl

/-- The search for a closing bracket passes over pieces at their depth. -/
theorem toCloser_append {ps : List Piece} {d e : Nat} (h : climb kind d ps = some e)
    (qs : List Piece) :
    toCloser kind d (ps ++ qs) = (toCloser kind e qs).map fun q => (ps ++ q.1, q.2) := by
  induction ps generalizing d with
  | nil =>
      simp only [climb, Option.some.injEq] at h
      subst h
      cases hq : toCloser kind d qs <;> simp [hq, Except.map]
  | cons p ps ih =>
      cases p with
      | unclosed r => simp [climb] at h
      | quoted r => simp only [List.cons_append, toCloser, ih h, map_cons_map]
      | live c =>
          simp only [climb] at h
          simp only [List.cons_append, toCloser]
          split at h
          · next hc => rw [if_pos hc, ih h, map_cons_map]
          · next hc =>
              rw [if_neg hc]
              split at h
              · next hc' =>
                  rw [if_pos hc']
                  cases d with
                  | zero => simp at h
                  | succ d => simp only [ih h, map_cons_map]
              · next hc' => rw [if_neg hc', ih h, map_cons_map]

theorem toCloser_of_climb {ps : List Piece} {d : Nat} (h : climb kind d ps = some 0)
    (rest : List Piece) :
    toCloser kind d (ps ++ .live kind.closer :: rest) = .ok (ps, rest) := by
  rw [toCloser_append h, toCloser]
  simp [opener_ne_closer, Except.map]

theorem isQuote_opener (kind : Bracket) : isQuote kind.opener = false := by
  cases kind <;> decide

theorem isQuote_closer (kind : Bracket) : isQuote kind.closer = false := by
  cases kind <;> decide

/-- A balanced text between two brackets is what they enclose, whatever
follows. -/
theorem enclosed_of_balanced {inside : List Char} (h : Balanced kind inside)
    (after : List Char) :
    enclosed kind (kind.opener :: (inside ++ kind.closer :: after)) =
      .ok ⟨[], inside, after⟩ := by
  have hpieces : pieces (kind.opener :: (inside ++ kind.closer :: after)) =
      .live kind.opener :: (pieces inside ++ .live kind.closer :: pieces after) := by
    rw [pieces_live (isQuote_opener kind), pieces_append h.closed,
      pieces_live (isQuote_closer kind)]
  have hopen : toOpener kind (pieces (kind.opener :: (inside ++ kind.closer :: after))) =
      .ok ([], pieces inside ++ .live kind.closer :: pieces after) := by
    rw [hpieces, toOpener, if_pos (beq_self_eq_true _)]
  simp only [enclosed, hopen, bind, Except.bind, toCloser_of_climb h, pure, Except.pure,
    piecesText_pieces, piecesText_nil]

/-- Nothing closes a bracket behind which a quote is left open. -/
theorem enclosed_of_unclosed {rest : List Char} {ps : List Piece} {u : List Char}
    (hrest : pieces rest = ps ++ [.unclosed u]) {e : Nat} (h : climb kind 0 ps = some e) :
    enclosed kind (kind.opener :: rest) = .error .unterminatedQuote := by
  have hopen : toOpener kind (pieces (kind.opener :: rest)) = .ok ([], ps ++ [.unclosed u]) := by
    rw [pieces_live (isQuote_opener kind), hrest, toOpener, if_pos (beq_self_eq_true _)]
  simp only [enclosed, hopen, bind, Except.bind, toCloser_append h, toCloser, Except.map]

/-! ### Arguments -/

/-- The depth of brackets of both kinds behind some pieces, if there is no
comma at depth zero and no quote is left open. -/
def span : Nat → List Piece → Option Nat
  | d, [] => some d
  | _, .unclosed _ :: _ => none
  | d, .quoted _ :: ps => span d ps
  | d, .live c :: ps => if c == ',' && d == 0 then none else span (depthAfter d c) ps

/-- A text that is cut at no comma and leaves nothing open. -/
def IsArgument (s : List Char) : Prop := span 0 (pieces s) = some 0

instance (s : List Char) : Decidable (IsArgument s) :=
  inferInstanceAs (Decidable (span 0 (pieces s) = some 0))

theorem span_append (ps qs : List Piece) (d : Nat) :
    span d (ps ++ qs) = (span d ps).bind fun e => span e qs := by
  induction ps generalizing d with
  | nil => rfl
  | cons p ps ih =>
      cases p with
      | unclosed r => rfl
      | quoted r => exact ih d
      | live c =>
          simp only [List.cons_append, span]
          split
          · rfl
          · exact ih (depthAfter d c)

theorem isClosed_of_span {ps : List Piece} {d e : Nat} (h : span d ps = some e) :
    ∀ p ∈ ps, p.isClosed = true := by
  induction ps generalizing d with
  | nil => simp
  | cons p ps ih =>
      cases p with
      | unclosed r => simp [span] at h
      | quoted r => exact List.forall_mem_cons.2 ⟨rfl, ih h⟩
      | live c =>
          simp only [span] at h
          split at h
          · simp at h
          · exact List.forall_mem_cons.2 ⟨rfl, ih h⟩

theorem IsArgument.closed {s : List Char} (h : IsArgument s) : Closed s := isClosed_of_span h

theorem prependPart_append (s t : List Char) (parts : List (List Char)) :
    prependPart (s ++ t) parts = prependPart s (prependPart t parts) := by
  cases parts <;> simp [prependPart]

theorem prependPart_cut_nil (d : Nat) (ps : List Piece) : prependPart [] (cut d ps) = cut d ps := by
  have hprepend (s : List Char) (parts : List (List Char)) :
      prependPart [] (prependPart s parts) = prependPart s parts := by
    rw [← prependPart_append, List.nil_append]
  cases ps with
  | nil => rfl
  | cons p ps =>
      cases p with
      | unclosed r => rfl
      | quoted r => exact hprepend r _
      | live c =>
          rw [cut]
          split
          · rfl
          · exact hprepend [c] _

/-- Pieces that are cut at no comma belong to the first part of what follows. -/
theorem cut_append {ps : List Piece} {d e : Nat} (h : span d ps = some e) (qs : List Piece) :
    cut d (ps ++ qs) = prependPart (piecesText ps) (cut e qs) := by
  induction ps generalizing d with
  | nil =>
      simp only [span, Option.some.injEq] at h
      subst h
      exact (prependPart_cut_nil d qs).symm
  | cons p ps ih =>
      rw [List.cons_append, piecesText_cons, prependPart_append]
      cases p with
      | unclosed r => simp [span] at h
      | quoted r =>
          rw [cut, ih h]
          rfl
      | live c =>
          simp only [span] at h
          split at h
          · simp at h
          · next hc =>
              rw [cut, if_neg hc, ih h]
              rfl

theorem cut_of_span {ps : List Piece} {d e : Nat} (h : span d ps = some e) :
    cut d ps = [piecesText ps] := by
  have hcut := cut_append h []
  rwa [List.append_nil, cut, prependPart, List.append_nil] at hcut

theorem cut_append_comma {ps : List Piece} {d : Nat} (h : span d ps = some 0)
    (qs : List Piece) :
    cut d (ps ++ .live ',' :: qs) = piecesText ps :: cut 0 qs := by
  rw [cut_append h, cut, if_pos (by decide), prependPart, List.append_nil]

def commaJoin (texts : List (List Char)) : List Char := [','].intercalate texts

theorem commaJoin_cons_cons (s t : List Char) (texts : List (List Char)) :
    commaJoin (s :: t :: texts) = s ++ ',' :: commaJoin (t :: texts) := by
  simp [commaJoin, List.intercalate, List.intersperse]

@[simp] theorem commaJoin_singleton (s : List Char) : commaJoin [s] = s := by
  simp [commaJoin, List.intercalate]

theorem mem_commaJoin {texts : List (List Char)} {s : List Char} (hs : s ∈ texts) {c : Char}
    (hc : c ∈ s) : c ∈ commaJoin texts := by
  induction texts with
  | nil => exact absurd hs (by simp)
  | cons t texts ih =>
      cases texts with
      | nil =>
          rw [List.mem_singleton] at hs
          rwa [commaJoin_singleton, ← hs]
      | cons u texts =>
          rw [commaJoin_cons_cons, List.mem_append, List.mem_cons]
          rcases List.mem_cons.1 hs with rfl | hs
          · exact .inl hc
          · exact .inr (.inr (ih hs))

theorem isBlankText_commaJoin {texts : List (List Char)} {s : List Char} (hs : s ∈ texts)
    (h : ¬Text.Blanks s) : Text.isBlankText (commaJoin texts) = false := by
  rw [Text.isBlankText_eq_false_iff]
  intro hblank
  exact h fun c hc => hblank c (mem_commaJoin hs hc)

/-- In front of the last text a comma cuts each time. -/
theorem cut_commaJoin_append {texts : List (List Char)} (h : ∀ s ∈ texts, IsArgument s)
    (last : List Char) :
    cut 0 (pieces (commaJoin (texts ++ [last]))) = texts ++ cut 0 (pieces last) := by
  induction texts with
  | nil => rw [List.nil_append, commaJoin_singleton, List.nil_append]
  | cons s texts ih =>
      obtain ⟨hs, htexts⟩ := List.forall_mem_cons.1 h
      obtain ⟨t, rest, hrest⟩ := List.exists_cons_of_ne_nil
        (List.append_ne_nil_of_right_ne_nil texts (List.cons_ne_nil last []))
      rw [List.cons_append, hrest, commaJoin_cons_cons, pieces_append hs.closed,
        pieces_live (by decide), cut_append_comma hs, piecesText_pieces, ← hrest, ih htexts,
        List.cons_append]

theorem cut_commaJoin {texts : List (List Char)} (hne : texts ≠ [])
    (h : ∀ s ∈ texts, IsArgument s) : cut 0 (pieces (commaJoin texts)) = texts := by
  have hlast : IsArgument (texts.getLast hne) := h _ (List.getLast_mem hne)
  have hcut := cut_commaJoin_append (fun s hs => h s (List.dropLast_subset _ hs))
    (texts.getLast hne)
  rwa [cut_of_span hlast, piecesText_pieces, List.dropLast_append_getLast hne] at hcut

/-- Arguments written with commas between them are found again. -/
theorem arguments_commaJoin {texts : List (List Char)} (hne : texts ≠ [])
    (h : ∀ s ∈ texts, IsArgument s) (hblank : Text.isBlankText (commaJoin texts) = false) :
    arguments (commaJoin texts) = texts := by
  rw [arguments, if_neg (by simp [hblank]), cut_commaJoin hne h]

/-! ### Texts that may stand anywhere -/

def isInert (c : Char) : Bool :=
  !(isQuote c || c == '(' || c == ')' || c == '[' || c == ']' || c == ',')

def specials : List Char := ['"', '\'', '(', ')', '[', ']', ',', '.', '=']

/-- Characters that no scanner of lines looks for. -/
def isPlain (c : Char) : Bool := !specials.contains c

theorem isPlain_iff {c : Char} : isPlain c = true ↔ c ∉ specials := by
  rw [isPlain, Bool.not_eq_true', List.contains_eq_mem, decide_eq_false_iff_not]

theorem isInert_of_isPlain {c : Char} (h : isPlain c = true) : isInert c = true := by
  rw [isPlain_iff] at h
  simp only [specials, List.mem_cons, List.not_mem_nil, or_false, not_or] at h
  obtain ⟨h1, h2, h3, h4, h5, h6, h7, -, -⟩ := h
  simp [isInert, isQuote, h1, h2, h3, h4, h5, h6, h7]

theorem isQuote_of_isPlain {c : Char} (h : isPlain c = true) : isQuote c = false := by
  have hinert := isInert_of_isPlain h
  simp only [isInert, Bool.not_eq_true', Bool.or_eq_false_iff] at hinert
  exact hinert.1.1.1.1.1

theorem isTrigger_of_isPlain {c : Char} (h : isPlain c = true) : isTrigger c = false := by
  rw [isPlain_iff] at h
  simp only [specials, List.mem_cons, List.not_mem_nil, or_false, not_or] at h
  obtain ⟨-, -, h1, -, h2, -, -, h3, h4⟩ := h
  simp [isTrigger, Trigger.ofChar?, h1, h2, h3, h4]

/-- A character is plain if it passes a test that no special character
passes. -/
theorem isPlain_of_test (test : Char → Bool) (hspecials : specials.all (!test ·) = true)
    {c : Char} (h : test c = true) : isPlain c = true := by
  rw [isPlain_iff]
  intro hc
  have hnot := List.all_eq_true.1 hspecials c hc
  rw [h] at hnot
  exact absurd hnot (by decide)

theorem isPlain_of_isBlank {c : Char} (h : Text.isBlank c = true) : isPlain c = true :=
  isPlain_of_test Text.isBlank (by decide) h

structure WellNested (s : List Char) : Prop where
  round : Balanced .round s
  square : Balanced .square s

structure Whole (s : List Char) : Prop extends WellNested s where
  argument : IsArgument s

theorem WellNested.balanced {s : List Char} (h : WellNested s) : Balanced kind s := by
  cases kind with
  | round => exact h.round
  | square => exact h.square

theorem WellNested.append {s t : List Char} (hs : WellNested s) (ht : WellNested t) :
    WellNested (s ++ t) :=
  ⟨hs.round.append ht.round, hs.square.append ht.square⟩

theorem Whole.append {s t : List Char} (hs : Whole s) (ht : Whole t) : Whole (s ++ t) := by
  refine ⟨hs.toWellNested.append ht.toWellNested, ?_⟩
  rw [IsArgument, pieces_append hs.argument.closed, span_append, hs.argument]
  exact ht.argument

@[simp] theorem pieces_nil : pieces [] = [] := by rw [pieces]

theorem Whole.nil : Whole [] := by
  refine ⟨⟨?_, ?_⟩, ?_⟩
  · rw [Balanced, pieces_nil, climb]
  · rw [Balanced, pieces_nil, climb]
  · rw [IsArgument, pieces_nil, span]

theorem WellNested.comma : WellNested [','] := by
  have hpieces : pieces [','] = [.live ','] := by
    rw [pieces_live (by decide), pieces_nil]
  constructor <;> rw [Balanced, hpieces] <;> decide

theorem Whole.inert {c : Char} (h : isInert c = true) : Whole [c] := by
  simp only [isInert, Bool.not_eq_true', Bool.or_eq_false_iff] at h
  obtain ⟨⟨⟨⟨⟨hq, h1⟩, h2⟩, h3⟩, h4⟩, h5⟩ := h
  have hpieces : pieces [c] = [.live c] := by rw [pieces_live hq, pieces]
  refine ⟨⟨?_, ?_⟩, ?_⟩
  · simp [Balanced, hpieces, climb, Bracket.opener, Bracket.closer, h1, h2]
  · simp [Balanced, hpieces, climb, Bracket.opener, Bracket.closer, h3, h4]
  · simp [IsArgument, hpieces, span, depthAfter, h1, h2, h3, h4, h5]

theorem Whole.of_inert {s : List Char} (h : ∀ c ∈ s, isInert c = true) : Whole s := by
  induction s with
  | nil => exact .nil
  | cons c s ih =>
      have hs := List.forall_mem_cons.1 h
      exact (Whole.inert hs.1).append (ih hs.2)

theorem Whole.of_blanks {s : List Char} (h : Text.Blanks s) : Whole s :=
  .of_inert fun c hc => isInert_of_isPlain (isPlain_of_isBlank (h c hc))

/-- Outer blanks do not count. -/
theorem Whole.of_trim {s : List Char} (h : Whole (Text.trim s)) : Whole s := by
  obtain ⟨b, b', hb, hb', hs⟩ := Text.eq_blanks_append_trim s
  rw [hs]
  exact ((Whole.of_blanks hb).append h).append (.of_blanks hb')

/-- A quoted region may hold anything. -/
theorem Whole.quoted {c : Char} (hc : isQuote c = true) {s region : List Char}
    (h : closeQuote c s = some (region, [])) : Whole (c :: s) := by
  have hpieces : pieces (c :: s) = [.quoted (c :: region)] := by
    rw [pieces_quoted hc h, pieces]
  refine ⟨⟨?_, ?_⟩, ?_⟩ <;> simp [Balanced, IsArgument, hpieces, climb, span]

/-- Inside brackets, depths of the two kinds add up and no comma counts. -/
theorem span_of_climb {ps : List Piece} {a a' b b' : Nat}
    (hround : climb .round a ps = some a') (hsquare : climb .square b ps = some b') :
    span (a + b + 1) ps = some (a' + b' + 1) := by
  induction ps generalizing a b with
  | nil =>
      simp only [climb, Option.some.injEq] at hround hsquare
      rw [span, hround, hsquare]
  | cons p ps ih =>
      cases p with
      | unclosed r => simp [climb] at hround
      | quoted r => exact ih hround hsquare
      | live c =>
          -- a bracket moves the depth of its kind and the common one, and a comma
          -- is never at depth zero
          rw [span, if_neg (by simp)]
          simp only [climb, Bracket.opener, Bracket.closer] at hround hsquare
          by_cases h1 : c = '('
          · subst h1
            simp only [beq_self_eq_true, if_true] at hround
            have := ih hround (by simpa using hsquare)
            simpa [depthAfter, show a + b + 1 + 1 = a + 1 + b + 1 by omega] using this
          by_cases h2 : c = ')'
          · subst h2
            cases a with
            | zero => simp at hround
            | succ a =>
                have := ih (by simpa using hround) (by simpa using hsquare)
                simpa [depthAfter, show a + 1 + b = a + b + 1 by omega] using this
          by_cases h3 : c = '['
          · subst h3
            have := ih (by simpa using hround) (by simpa using hsquare)
            simpa [depthAfter, show a + b + 1 + 1 = a + (b + 1) + 1 by omega] using this
          by_cases h4 : c = ']'
          · subst h4
            cases b with
            | zero => simp at hsquare
            | succ b =>
                have := ih (by simpa using hround) (by simpa using hsquare)
                simpa [depthAfter, show a + (b + 1) = a + b + 1 by omega] using this
          have := ih (by simpa [h1, h2] using hround) (by simpa [h3, h4] using hsquare)
          simpa [depthAfter, h1, h2, h3, h4] using this

/-- A pair of brackets of either kind around a well nested text. -/
theorem Whole.bracketed {inside : List Char} (h : WellNested inside) (kind : Bracket) :
    Whole (kind.opener :: (inside ++ [kind.closer])) := by
  have hpieces : pieces (kind.opener :: (inside ++ [kind.closer])) =
      .live kind.opener :: (pieces inside ++ [.live kind.closer]) := by
    rw [pieces_live (isQuote_opener kind), pieces_append h.round.closed,
      pieces_live (isQuote_closer kind), pieces]
  have hround : climb .round (0 + 1) (pieces inside) = some (0 + 1) := climb_add h.round 1
  have hsquare : climb .square (0 + 1) (pieces inside) = some (0 + 1) := climb_add h.square 1
  have hspan : span (0 + 0 + 1) (pieces inside) = some (0 + 0 + 1) :=
    span_of_climb h.round h.square
  have hround0 : climb .round 0 (pieces inside) = some 0 := h.round
  have hsquare0 : climb .square 0 (pieces inside) = some 0 := h.square
  simp only [Nat.zero_add] at hround hsquare hspan
  refine ⟨⟨?_, ?_⟩, ?_⟩
  · rw [Balanced, hpieces]
    cases kind <;>
      simp [climb, climb_append, Bracket.opener, Bracket.closer, hround, hround0]
  · rw [Balanced, hpieces]
    cases kind <;>
      simp [climb, climb_append, Bracket.opener, Bracket.closer, hsquare, hsquare0]
  · rw [IsArgument, hpieces]
    cases kind <;>
      simp [span, span_append, Bracket.opener, Bracket.closer, depthAfter, hspan]

theorem WellNested.commaJoin {texts : List (List Char)} (h : ∀ s ∈ texts, WellNested s) :
    WellNested (commaJoin texts) := by
  induction texts with
  | nil => exact Whole.nil.toWellNested
  | cons s texts ih =>
      have hs := h s (List.mem_cons_self ..)
      cases texts with
      | nil => rwa [commaJoin_singleton]
      | cons t texts =>
          rw [commaJoin_cons_cons]
          exact hs.append (WellNested.comma.append (ih fun u hu => h u (List.mem_cons_of_mem _ hu)))

end ObjectConsole.Line
