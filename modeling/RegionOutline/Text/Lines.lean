/-! # Lines

Two ways to cut a text into lines. Source lines end at LF, CR or CRLF and drop
their terminator. Document lines keep theirs and end also at VT, FF, NEL and the
two Unicode separators. -/

namespace RegionOutline.Text

/-- Source lines after an already read part of the first one, in reverse. -/
def sourceLinesFrom : List Char → List Char → List (List Char)
  | [], [] => []
  | current, [] => [current.reverse]
  | current, '\r' :: '\n' :: rest => current.reverse :: sourceLinesFrom [] rest
  | current, c :: rest =>
      if c = '\n' ∨ c = '\r' then current.reverse :: sourceLinesFrom [] rest
      else sourceLinesFrom (c :: current) rest

/-- The lines of a source text. A terminator at the end opens no further line. -/
def sourceLines (text : List Char) : List (List Char) :=
  sourceLinesFrom [] text

/-- A character after which a document line ends. -/
def endsDocumentLine (c : Char) : Bool :=
  let n := c.toNat
  (0x0A ≤ n && n ≤ 0x0D) || n == 0x85 || n == 0x2028 || n == 0x2029

/-- Document lines after an already read part of the first one, in reverse. -/
def documentLinesFrom : List Char → List Char → List (List Char)
  | current, [] => [current.reverse]
  | current, '\r' :: '\n' :: rest =>
      ('\n' :: '\r' :: current).reverse :: documentLinesFrom [] rest
  | current, c :: rest =>
      if endsDocumentLine c then (c :: current).reverse :: documentLinesFrom [] rest
      else documentLinesFrom (c :: current) rest

/-- The lines of a document, terminators included. There is one more line than
there are terminators, so the last line may be empty. -/
def documentLines (text : List Char) : List (List Char) :=
  documentLinesFrom [] text

/-- Cutting into document lines loses nothing. -/
theorem flatten_documentLinesFrom (current text : List Char) :
    (documentLinesFrom current text).flatten = current.reverse ++ text := by
  fun_induction documentLinesFrom current text with
  | case1 => simp
  | case2 current rest ih => simp [ih]
  | case3 current c rest _ _ ih => simp [ih]
  | case4 current c rest _ _ ih => simp [ih]

theorem flatten_documentLines (text : List Char) : (documentLines text).flatten = text := by
  simp [documentLines, flatten_documentLinesFrom]

end RegionOutline.Text
