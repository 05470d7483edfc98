import ObjectConsole.Proofs.Line.Balance

/-!
Positions of a line. A position is live if it lies outside the quoted regions,
which are found from left to right, and behind a quote that nothing closes no
position is live. So it can be said where brackets and commas stand without
saying how a scanner gets there.
-/

namespace ObjectConsole.Line

/-- What is seen of a position: its character if it is live, a place in a quoted
region, or a place behind a quote that nothing closes. -/
inductive Sight where
  | live (c : Char)
  | quoted
  | unclosed
  deriving DecidableEq, Repr

def sights (s : List Char) : List Sight :=
  match s with
  | [] => []
  | c :: rest =>
    if isQuote c then
      match _h : closeQuote c rest with
      | some (region, after) => List.replicate (region.length + 1) .quoted ++ sights after
      | none => List.replicate (rest.length + 1) .unclosed
    else .live c :: sights rest
termination_by s.length
decreasing_by
  · have := closeQuote_length _h
    simp only [List.length_cons]
    omega
  · simp

/-- The character is live at the position. -/
def LiveAt (s : List Char) (i : Nat) (c : Char) : Prop := (sights s)[i]? = some (.live c)

def UnclosedAt (s : List Char) (i : Nat) : Prop := (sights s)[i]? = some .unclosed

instance (s : List Char) (i : Nat) (c : Char) : Decidable (LiveAt s i c) :=
  inferInstanceAs (Decidable ((sights s)[i]? = some (.live c)))

instance (s : List Char) (i : Nat) : Decidable (UnclosedAt s i) :=
  inferInstanceAs (Decidable ((sights s)[i]? = some .unclosed))

/-! ### Pieces and positions -/

def Piece.sights : Piece → List Sight
  | .live c => [.live c]
  | .quoted region => List.replicate region.length .quoted
  | .unclosed rest => List.replicate rest.length .unclosed

def piecesSights (ps : List Piece) : List Sight := ps.flatMap Piece.sights

@[simp] theorem piecesSights_nil : piecesSights [] = [] := rfl

@[simp] theorem piecesSights_cons (p : Piece) (ps : List Piece) :
    piecesSights (p :: ps) = p.sights ++ piecesSights ps := rfl

@[simp] theorem piecesSights_append (ps qs : List Piece) :
    piecesSights (ps ++ qs) = piecesSights ps ++ piecesSights qs := List.flatMap_append

@[simp] theorem piecesText_append (ps qs : List Piece) :
    piecesText (ps ++ qs) = piecesText ps ++ piecesText qs := List.flatMap_append

theorem sights_eq (s : List Char) : sights s = piecesSights (pieces s) := by
  fun_induction sights s with
  | case1 => simp
  | case2 c rest hc region after hclose ih => rw [pieces_quoted hc hclose, ih]; rfl
  | case3 c rest hc hclose => rw [pieces_unclosed hc hclose]; simp [Piece.sights]
  | case4 c rest hc ih => rw [pieces_live (by simpa using hc), ih]; rfl

@[simp] theorem length_sights_piece (p : Piece) : p.sights.length = p.text.length := by
  cases p <;> simp [Piece.sights, Piece.text]

@[simp] theorem length_piecesSights (ps : List Piece) :
    (piecesSights ps).length = (piecesText ps).length := by
  induction ps with
  | nil => rfl
  | cons p ps ih => simp [ih]

theorem length_sights (s : List Char) : (sights s).length = s.length := by
  rw [sights_eq, length_piecesSights, piecesText_pieces]

theorem lt_length_of_sight {s : List Char} {i : Nat} {x : Sight} (h : (sights s)[i]? = some x) :
    i < s.length := by
  rw [← length_sights s]
  exact (List.getElem?_eq_some_iff.1 h).1

theorem sights_append {s : List Char} (h : Closed s) (t : List Char) :
    sights (s ++ t) = sights s ++ sights t := by
  rw [sights_eq, sights_eq, sights_eq, pieces_append h, piecesSights_append]

theorem ne_nil_of_mem_pieces {s r : List Char} (h : .unclosed r ∈ pieces s) : r ≠ [] := by
  fun_induction pieces s with
  | case1 => exact absurd h (List.not_mem_nil)
  | case2 c rest _ region after _ ih => exact ih (by simpa using h)
  | case3 c rest => simp_all
  | case4 c rest _ ih => exact ih (by simpa using h)

/-! ### The text in front of a position -/

/-- Pieces that leave no quote open stay what they are, whatever follows them. -/
theorem pieces_replace {s : List Char} {ps qs : List Piece} (h : pieces s = ps ++ qs)
    (hclosed : ∀ p ∈ ps, p.isClosed = true) (t : List Char) :
    pieces (piecesText ps ++ t) = ps ++ pieces t := by
  induction ps generalizing s with
  | nil => rfl
  | cons p ps ih =>
      obtain ⟨hp, hps⟩ := List.forall_mem_cons.1 hclosed
      cases s with
      | nil => simp at h
      | cons c rest =>
          by_cases hc : isQuote c = true
          · cases hclose : closeQuote c rest with
            | none =>
                rw [pieces_unclosed hc hclose, List.cons_append, List.cons.injEq] at h
                rw [← h.1] at hp
                exact absurd hp (by simp [Piece.isClosed])
            | some found =>
                obtain ⟨region, after⟩ := found
                rw [pieces_quoted hc hclose, List.cons_append, List.cons.injEq] at h
                obtain ⟨rfl, hrest⟩ := h
                have hreplace :=
                  closeQuote_replace (ne_backslash_of_isQuote hc) hclose (piecesText ps ++ t)
                rw [piecesText_cons, Piece.text, List.append_assoc, List.cons_append,
                  pieces_quoted hc hreplace, ih hrest hps, List.cons_append]
          · rw [pieces_live (by simpa using hc), List.cons_append, List.cons.injEq] at h
            obtain ⟨rfl, hrest⟩ := h
            rw [piecesText_cons, Piece.text, List.append_assoc, List.singleton_append,
              pieces_live (by simpa using hc), ih hrest hps, List.cons_append]

theorem pieces_prefix {s : List Char} {ps qs : List Piece} (h : pieces s = ps ++ qs)
    (hclosed : ∀ p ∈ ps, p.isClosed = true) : pieces (piecesText ps) = ps := by
  have hreplace := pieces_replace h hclosed []
  rwa [pieces_nil, List.append_nil, List.append_nil] at hreplace

theorem pieces_suffix {s : List Char} {ps qs : List Piece} (h : pieces s = ps ++ qs)
    (hclosed : ∀ p ∈ ps, p.isClosed = true) : pieces (piecesText qs) = qs := by
  have htext : piecesText ps ++ piecesText qs = s := by
    rw [← piecesText_append, ← h, piecesText_pieces]
  have hreplace := pieces_replace h hclosed (piecesText qs)
  rw [htext, h] at hreplace
  exact (List.append_cancel_left hreplace).symm

/-- Nothing comes behind a quote that nothing closes. -/
theorem eq_nil_of_pieces_unclosed {s r : List Char} {ps qs : List Piece}
    (h : pieces s = ps ++ .unclosed r :: qs) (hclosed : ∀ p ∈ ps, p.isClosed = true) :
    qs = [] := by
  have hsuffix := pieces_suffix h hclosed
  cases htext : piecesText (.unclosed r :: qs) with
  | nil => simp [htext] at hsuffix
  | cons c rest =>
      rw [htext] at hsuffix
      by_cases hc : isQuote c = true
      · cases hclose : closeQuote c rest with
        | none =>
            rw [pieces_unclosed hc hclose, List.cons.injEq] at hsuffix
            exact hsuffix.2.symm
        | some found =>
            rw [pieces_quoted hc hclose] at hsuffix
            simp at hsuffix
      · rw [pieces_live (by simpa using hc)] at hsuffix
        simp at hsuffix

end ObjectConsole.Line
