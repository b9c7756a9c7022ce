import RegionOutline.Proofs.Scan.Entries

/-!
# Lines of an outline

The scanner counts source lines, and a document breaks its text wherever a source line
ends and at some more characters. So an outline names only lines that the document has,
whatever terminators are mixed in the text.
-/

namespace RegionOutline

namespace Text

/-- A text has as many document lines as source lines, or more. The parts that are
already read may differ, since a document line can begin within a source line. -/
theorem length_sourceLinesFrom_le (current opened text : List Char) :
    (sourceLinesFrom current text).length ≤ (documentLinesFrom opened text).length := by
  fun_induction sourceLinesFrom current text generalizing opened with
  | case1 => exact Nat.zero_le _
  | case2 current _ => exact Nat.le_refl 1
  | case3 current rest ih => exact Nat.succ_le_succ (ih [])
  | case4 current c rest single hends ih =>
      have hdocument : endsDocumentLine c = true := by
        cases hends with
        | inl hnewline => rw [hnewline]; rfl
        | inr hreturn => rw [hreturn]; rfl
      rw [documentLinesFrom, if_pos hdocument]
      · exact Nat.succ_le_succ (ih [])
      · exact single
  | case5 current c rest single _ ih =>
      rw [documentLinesFrom]
      · split
        · exact Nat.le_succ_of_le (ih [])
        · exact ih (c :: opened)
      · exact single

theorem length_sourceLines_le (text : List Char) :
    (sourceLines text).length ≤ (documentLines text).length :=
  length_sourceLinesFrom_le [] [] text

end Text

/-- The number of lines that a scan of the text reads. -/
def sourceLineCount (text : String) : Nat :=
  (Text.sourceLines text.toList).length

/-- No entry lies beyond the lines that are read. -/
theorem Scanner.line_le_of_mem_entries {scanner : Scanner} {lines : List (List Char)}
    {entry : Entry} (h : entry ∈ scanner.entries lines) :
    entry.line ≤ scanner.line + lines.length := by
  induction lines generalizing scanner with
  | nil => simp at h
  | cons line rest ih =>
      rw [entries_cons] at h
      rw [List.length_cons]
      cases List.mem_append.1 h with
      | inl hmade =>
          have hline := ScanState.line_of_emit? (Option.mem_toList.1 hmade)
          omega
      | inr hlater =>
          have hle : entry.line ≤ scanner.line + 1 + rest.length := ih hlater
          omega

theorem line_le_sourceLineCount {text : String} {entry : Entry} (h : entry ∈ scan text) :
    entry.line ≤ sourceLineCount text := by
  calc entry.line ≤ 0 + (Text.sourceLines text.toList).length := Scanner.line_le_of_mem_entries h
    _ = sourceLineCount text := Nat.zero_add _

/-- Every entry of an outline is on a line of the document. -/
theorem line_of_mem_scan {text : String} {entry : Entry} (h : entry ∈ scan text) :
    1 ≤ entry.line ∧ entry.line ≤ (Text.documentLines text.toList).length := by
  constructor
  · exact Scanner.line_lt_of_mem_entries h
  · exact Nat.le_trans (line_le_sourceLineCount h) (Text.length_sourceLines_le _)

end RegionOutline
