/-!
Quoted regions of a line. A region opens with either quote character and runs to the next
same character that no backslash escapes; a backslash escapes the one character after it. What
lies outside all regions is live.
-/

namespace ObjectConsole.Line

def isQuote (c : Char) : Bool := c == '"' || c == '\''

/-- Splits the text after an opening quote behind the quote that closes it: the rest of the
region, closing quote included, and what follows. -/
def closeQuote (quote : Char) : List Char → Option (List Char × List Char)
  | [] => none
  -- the pair is passed over even if the second character is the quote
  | '\\' :: c :: rest => (closeQuote quote rest).map fun (region, after) =>
      ('\\' :: c :: region, after)
  | c :: rest =>
    if c == quote then some ([c], rest)
    else (closeQuote quote rest).map fun (region, after) => (c :: region, after)

theorem closeQuote_append {quote : Char} {s region after : List Char}
    (h : closeQuote quote s = some (region, after)) : region ++ after = s := by
  fun_induction closeQuote quote s generalizing region with
  | case1 => simp at h
  | case2 c rest ih =>
    obtain ⟨⟨r, a⟩, hr, he⟩ := Option.map_eq_some_iff.1 h
    simp only [Prod.mk.injEq] at he
    obtain ⟨rfl, rfl⟩ := he
    simp [ih hr]
  | case3 c rest _ hc =>
    simp only [Option.some.injEq, Prod.mk.injEq] at h
    obtain ⟨rfl, rfl⟩ := h
    rfl
  | case4 c rest _ hc ih =>
    obtain ⟨⟨r, a⟩, hr, he⟩ := Option.map_eq_some_iff.1 h
    simp only [Prod.mk.injEq] at he
    obtain ⟨rfl, rfl⟩ := he
    simp [ih hr]

theorem closeQuote_length {quote : Char} {s region after : List Char}
    (h : closeQuote quote s = some (region, after)) : after.length ≤ s.length := by
  have := congrArg List.length (closeQuote_append h)
  simp only [List.length_append] at this
  omega

/-- A piece of a line: a live character, a quoted region with both its quotes, or the rest of
the line from a quote that nothing closes. -/
inductive Piece where
  | live (c : Char)
  | quoted (region : List Char)
  | unclosed (rest : List Char)
  deriving DecidableEq, Repr

def Piece.text : Piece → List Char
  | .live c => [c]
  | .quoted region => region
  | .unclosed rest => rest

def pieces (s : List Char) : List Piece :=
  match s with
  | [] => []
  | c :: rest =>
    if isQuote c then
      match _h : closeQuote c rest with
      | some (region, after) => .quoted (c :: region) :: pieces after
      | none => [.unclosed (c :: rest)]
    else .live c :: pieces rest
termination_by s.length
decreasing_by
  · have := closeQuote_length _h
    simp only [List.length_cons]
    omega
  · simp

def piecesText (ps : List Piece) : List Char := ps.flatMap Piece.text

@[simp] theorem piecesText_nil : piecesText [] = [] := rfl

@[simp] theorem piecesText_cons (p : Piece) (ps : List Piece) :
    piecesText (p :: ps) = p.text ++ piecesText ps := rfl

/-- The pieces of a line are the line. -/
theorem piecesText_pieces (s : List Char) : piecesText (pieces s) = s := by
  fun_induction pieces s with
  | case1 => rfl
  | case2 c rest _ region after h ih => simp [Piece.text, ih, closeQuote_append h]
  | case3 => simp [Piece.text]
  | case4 c rest _ ih => simp [Piece.text, ih]

end ObjectConsole.Line
