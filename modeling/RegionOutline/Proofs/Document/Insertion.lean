import RegionOutline.Document
import RegionOutline.Proofs.Scan.Terminators

/-!
# Inserted lines

A document finds the place of a line by its own line breaks, and the scanner counts the lines
by its own. Without the separators that break document lines only, the two cut a text at the
same places. So a block that is put in front of a line stands between the lines before it and
the others. No line is joined with another at either end of the block: a CR before it would
need an LF to go on, and the block ends with one of its own.
-/

namespace RegionOutline

namespace Text

/-- What ends a document line but no source line: VT, FF, NEL and the two Unicode
separators. -/
def separators : List Char := ['\x0b', '\x0c', '\x85', '\u2028', '\u2029']

/-- No document line ends within a source line. -/
def Unseparated (text : List Char) : Prop := ∀ c ∈ text, c ∉ separators

instance decidableUnseparated (text : List Char) : Decidable (Unseparated text) :=
  List.decidableBAll _ text

/-- A text is a last line, or a line and a whole terminator in front of another text. -/
theorem line_induction {motive : List Char → Prop}
    (last : ∀ line, Unbroken line → motive line)
    (more : ∀ line terminator rest, Unbroken line → Terminator.Whole terminator rest →
      motive rest → motive (line ++ (terminator.chars ++ rest)))
    (text : List Char) : motive text := by
  suffices reading : ∀ current text : List Char, Unbroken current.reverse →
      motive (current.reverse ++ text) from reading [] text (by decide)
  intro current text
  induction current, text using reading_induction with
  | done current =>
      intro unbroken
      rw [List.append_nil]
      exact last _ unbroken
  | ends current terminator rest whole ih =>
      intro unbroken
      exact more _ terminator rest unbroken whole (ih (by decide))
  | reads current c rest hreturn hnewline ih =>
      intro unbroken
      have single : Unbroken [c] := by simp [Unbroken, hreturn.symm, hnewline.symm]
      have longer := ih (by simpa using unbroken.append single)
      simpa using longer

section DocumentLines

variable {current line rest text : List Char} {terminator : Terminator} {c : Char}

theorem endsDocumentLine_iff :
    endsDocumentLine c = true ↔ c = '\n' ∨ c = '\r' ∨ c ∈ separators := by
  have code (d : Char) : c = d ↔ c.toNat = d.toNat := Char.toNat_inj.symm
  simp only [endsDocumentLine, separators, List.mem_cons, List.not_mem_nil, or_false, code]
  simp
  omega

theorem Unseparated.of_append (unseparated : Unseparated (line ++ rest)) :
    Unseparated line ∧ Unseparated rest :=
  List.forall_mem_append.1 unseparated

theorem documentLinesFrom_ends (whole : terminator.Whole rest) :
    documentLinesFrom current (terminator.chars ++ rest) =
      (current.reverse ++ terminator.chars) :: documentLines rest := by
  cases terminator with
  | lf =>
      change documentLinesFrom current ('\n' :: rest) = _
      rw [documentLinesFrom, if_pos (by rfl), documentLines]
      · simp [Terminator.chars]
      · simp
  | cr =>
      change documentLinesFrom current ('\r' :: rest) = _
      rw [documentLinesFrom, if_pos (by rfl), documentLines]
      · simp [Terminator.chars]
      · exact fun more _ => whole.not_newline more
  | crlf =>
      change documentLinesFrom current ('\r' :: '\n' :: rest) = _
      rw [documentLinesFrom, documentLines]
      simp [Terminator.chars]

theorem documentLinesFrom_unbroken (unbroken : Unbroken line) (unseparated : Unseparated line) :
    documentLinesFrom current (line ++ rest) = documentLinesFrom (line.reverse ++ current) rest := by
  induction line generalizing current with
  | nil => rfl
  | cons c line ih =>
      obtain ⟨hreturn, hnewline, unbroken⟩ := unbroken.of_cons
      obtain ⟨first, others⟩ := List.forall_mem_cons.1 unseparated
      have inside : ¬ endsDocumentLine c = true := by
        rw [endsDocumentLine_iff]
        exact not_or.2 ⟨hnewline, not_or.2 ⟨hreturn, first⟩⟩
      rw [List.cons_append, documentLinesFrom, if_neg inside, ih unbroken others]
      · simp
      · exact fun _ heq => absurd heq hreturn

theorem documentLines_line (unbroken : Unbroken line) (unseparated : Unseparated line)
    (whole : terminator.Whole rest) :
    documentLines (line ++ (terminator.chars ++ rest)) =
      (line ++ terminator.chars) :: documentLines rest := by
  rw [documentLines, documentLinesFrom_unbroken unbroken unseparated, documentLinesFrom_ends whole]
  simp

end DocumentLines

section Seams

variable {line front block back : List Char} {terminator : Terminator}

theorem Terminator.Whole.of_append (whole : terminator.Whole (front ++ back)) :
    terminator.Whole front := by
  intro hreturn
  cases front with
  | nil => nofun
  | cons c more => exact whole hreturn

/-- A line in front of a text leaves the ends within the text as they are. -/
theorem Separate.line_append (separate : Separate front back)
    (whole : terminator.Whole (front ++ back)) :
    Separate (line ++ terminator.chars ++ front) back := by
  by_cases hfront : front = []
  · subst hfront
    rw [List.append_nil]
    have chars_ne : terminator.chars ≠ [] := by cases terminator <;> decide
    constructor
    · exact Or.inr ((endsLine_append chars_ne line).2 (endsLine_chars terminator))
    · rintro ⟨hlast, hhead⟩
      rw [List.getLast?_append_of_ne_nil line chars_ne] at hlast
      have hreturn : terminator = .cr := by
        cases terminator with
        | lf => cases hlast
        | cr => rfl
        | crlf => cases hlast
      exact whole hreturn hhead
  · constructor
    · exact Or.inr ((endsLine_append hfront _).2 (separate.closed.resolve_left hfront))
    · rw [List.getLast?_append_of_ne_nil _ hfront]
      exact separate.whole

/-- A block that begins with no LF and ends with one stands for itself between two texts. -/
theorem sourceLines_insert (separate : Separate front back) (closed : block.getLast? = some '\n')
    (apart : block.head? ≠ some '\n') :
    sourceLines (front ++ block ++ back) =
      sourceLines front ++ sourceLines block ++ sourceLines back := by
  have block_ne : block ≠ [] := by
    rintro rfl
    cases closed
  have before : Separate front (block ++ back) := by
    refine ⟨separate.closed, fun h => apart ?_⟩
    rw [← List.head?_append_of_ne_nil block block_ne]
    exact h.2
  have behind : Separate block back := by
    refine ⟨Or.inr (Or.inr closed), fun h => ?_⟩
    rw [closed] at h
    exact absurd h.1 (by decide)
  calc sourceLines (front ++ block ++ back)
      = sourceLines (front ++ (block ++ back)) := by rw [List.append_assoc]
    _ = sourceLines front ++ sourceLines (block ++ back) := sourceLines_append before
    _ = sourceLines front ++ (sourceLines block ++ sourceLines back) := by
        rw [sourceLines_append behind]
    _ = sourceLines front ++ sourceLines block ++ sourceLines back :=
        (List.append_assoc _ _ _).symm

end Seams

theorem documentLines_parts (text : List Char) (count : Nat) :
    ((documentLines text).take count).flatten ++ ((documentLines text).drop count).flatten =
      text := by
  rw [← List.flatten_append, List.take_append_drop, flatten_documentLines]

theorem length_sourceLines_unbroken {line : List Char} (unbroken : Unbroken line) :
    (sourceLines line).length ≤ 1 := by
  have hline : sourceLinesFrom [] (line ++ []) = sourceLinesFrom (line.reverse ++ []) [] :=
    sourceLinesFrom_unbroken unbroken
  rw [List.append_nil, List.append_nil] at hline
  rw [sourceLines, hline]
  cases line.reverse with
  | nil => exact Nat.zero_le 1
  | cons c more => exact Nat.le_refl 1

/-- In front of a source line the document lines come apart where the source lines do. -/
theorem separate_documentLines {text : List Char} {count : Nat} (unseparated : Unseparated text)
    (h : count < (sourceLines text).length) :
    Separate ((documentLines text).take count).flatten ((documentLines text).drop count).flatten ∧
      (sourceLines ((documentLines text).take count).flatten).length = count := by
  have first (text : List Char) : Separate [] text := ⟨Or.inl rfl, nofun⟩
  induction text using line_induction generalizing count with
  | last line unbroken =>
      obtain rfl : count = 0 := Nat.lt_one_iff.1 (h.trans_le (length_sourceLines_unbroken unbroken))
      exact ⟨first _, rfl⟩
  | more line terminator rest unbroken whole ih =>
      cases count with
      | zero => exact ⟨first _, rfl⟩
      | succ count =>
          rw [sourceLines_line unbroken whole, List.length_cons] at h
          obtain ⟨line_unseparated, others⟩ := unseparated.of_append
          obtain ⟨separate, length_eq⟩ := ih others.of_append.2 (Nat.lt_of_succ_lt_succ h)
          rw [documentLines_line unbroken line_unseparated whole, List.take_succ_cons,
            List.drop_succ_cons, List.flatten_cons]
          rw [← documentLines_parts rest count] at whole
          refine ⟨separate.line_append whole, ?_⟩
          rw [List.append_assoc, sourceLines_line unbroken whole.of_append, List.length_cons,
            length_eq]

end Text

open Text

theorem Document.toList_insertAtLine (document : Document) {line : Nat} (block : String)
    (h : line - 1 < (documentLines document.content.toList).length) :
    (document.insertAtLine line block).content.toList =
      ((documentLines document.content.toList).take (line - 1)).flatten ++ block.toList ++
        ((documentLines document.content.toList).drop (line - 1)).flatten := by
  simp [Document.insertAtLine, Document.insertLines, h]

/-- A block of lines that is put in front of a line of the document stands between the lines
before it and the others, as the scanner counts them. -/
theorem inserted_block_between_lines (document : Document) (line : Nat) (block : String)
    (unseparated : Unseparated document.content.toList)
    (inside : 1 ≤ line ∧ line ≤ sourceLineCount document.content)
    (closed : block.toList.getLast? = some '\n') (apart : block.toList.head? ≠ some '\n') :
    sourceLines (document.insertAtLine line block).content.toList =
      (sourceLines document.content.toList).take (line - 1) ++ sourceLines block.toList ++
        (sourceLines document.content.toList).drop (line - 1) := by
  have hcount : line - 1 < (sourceLines document.content.toList).length := by
    have hle : line ≤ (sourceLines document.content.toList).length := inside.2
    omega
  obtain ⟨separate, length_eq⟩ := separate_documentLines unseparated hcount
  have lines_eq := sourceLines_append separate
  rw [documentLines_parts] at lines_eq
  rw [document.toList_insertAtLine block (hcount.trans_le (length_sourceLines_le _)),
    sourceLines_insert separate closed apart, lines_eq, List.take_left' length_eq,
    List.drop_left' length_eq]

/-- Between a CR alone and a CRLF, with an empty line further on. -/
theorem block_between_mixed_lines :
    sourceLines (Document.insertAtLine { content := "one\rtwo\r\n\nthree" } 2
        "new\r\nlines\n").content.toList =
      ["one", "new", "lines", "two", "", "three"].map String.toList :=
  inserted_block_between_lines { content := "one\rtwo\r\n\nthree" } 2 "new\r\nlines\n"
    (by decide) (by decide) (by decide) (by decide)

end RegionOutline
