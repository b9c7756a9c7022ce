import RegionOutline.Proofs.Marker.Partition
import RegionOutline.Proofs.Scan.Lines

/-!
# Well-formed outlines

Each entry of an outline was made of one line of the text, so what a single line can
give holds of all entries. A line holds no terminator, hence no text of a row does. The
label of a row is looked up once more when it is shown, and this agrees with what the
entry stores.
-/

namespace RegionOutline

namespace Text

theorem unbroken_of_mem_sourceLinesFrom {current text line : List Char}
    (hcurrent : Unbroken current) (h : line ∈ sourceLinesFrom current text) : Unbroken line := by
  have hreverse : ∀ {run : List Char}, Unbroken run → Unbroken run.reverse := fun unbroken =>
    unbroken.of_subset (List.reverse_subset.2 (List.Subset.refl _))
  fun_induction sourceLinesFrom current text with
  | case1 => simp at h
  | case2 current _ =>
      obtain rfl : line = current.reverse := List.mem_singleton.1 h
      exact hreverse hcurrent
  | case3 current rest ih =>
      rcases List.mem_cons.1 h with rfl | hlater
      · exact hreverse hcurrent
      · exact ih (by decide) hlater
  | case4 current c rest _ _ ih =>
      rcases List.mem_cons.1 h with rfl | hlater
      · exact hreverse hcurrent
      · exact ih (by decide) hlater
  | case5 current c rest _ hinside ih =>
      obtain ⟨hnewline, hreturn⟩ := not_or.1 hinside
      apply ih _ h
      constructor
      · exact List.not_mem_cons_of_ne_of_not_mem (Ne.symm hreturn) hcurrent.1
      · exact List.not_mem_cons_of_ne_of_not_mem (Ne.symm hnewline) hcurrent.2

/-- No source line holds a terminator. -/
theorem unbroken_of_mem_sourceLines {text line : List Char} (h : line ∈ sourceLines text) :
    Unbroken line :=
  unbroken_of_mem_sourceLinesFrom (by decide) h

end Text

open Text

/-- Tag and description are parts of the line. -/
theorem Grammar.ReadsRegion.subset {line tag description : List Char}
    (reads : ReadsRegion line tag description) : tag ⊆ line ∧ description ⊆ line := by
  obtain ⟨front, between, rest, parts, first⟩ := reads
  have hrest : description ⊆ rest := by
    rcases first.text_eq with rfl | ⟨more, rfl⟩
    · exact List.Subset.refl rest
    · exact List.subset_append_left description _
  rw [parts.line_eq]
  constructor
  · exact fun c hc => List.mem_append_right _ (List.mem_append_left _ hc)
  · exact fun c hc => List.mem_append_right _ (List.mem_append_right _
      (List.mem_append_right _ (hrest hc)))

theorem Kind.exists_access {kind : Kind} (h : kind.isAccess = true) :
    ∃ level, kind = .access level := by
  cases kind with
  | access level => exact ⟨level, rfl⟩
  | unrecognised => cases h
  | container group => cases h
  | item named => cases h

namespace Entry

/-- What holds of each row by itself. -/
structure WellFormed (entry : Entry) : Prop where
  indent_le : entry.indent ≤ 4
  unbroken : Unbroken entry.text.toList
  access_row : ∀ level, entry.kind = .access level → entry.text = "" ∧ entry.access = some level
  container_row : ∀ label, entry.kind.containerLabel? = some label → entry.text = label
  /-- The label shown is the stored text, except in an access row. -/
  label_eq : entry.label = if entry.kind.isAccess then entry.kind.name else entry.text

theorem label_of_isAccess {entry : Entry} (hkind : entry.kind.isAccess = true) :
    entry.label = entry.kind.name := by
  rw [label, entry.kind.label_appearance, if_pos hkind]

/-- The label of the style table and the stored text agree where a group stores its label. -/
theorem label_of_not_isAccess {entry : Entry} (hkind : entry.kind.isAccess = false)
    (hrow : ∀ label, entry.kind.containerLabel? = some label → entry.text = label) :
    entry.label = entry.text := by
  rw [label, entry.kind.label_appearance, if_neg (by simp [hkind])]
  cases hlabel : entry.kind.containerLabel? with
  | some text => exact (hrow text hlabel).symm
  | none => rfl

end Entry

theorem ScanState.indent_of_emit? {state : ScanState} {number : Nat} {marker : Option Marker}
    {entry : Entry} (made : state.emit? number marker = some entry) : entry.indent ≤ 4 := by
  match marker with
  | none => cases made
  | some (.specifier level) => cases made; exact Entry.clampIndent_le _
  | some (.openAccess level) => cases made; exact Entry.clampIndent_le _
  | some (.openRegion tag description) => cases made; exact Entry.clampIndent_le _
  | some .close => cases made

namespace Scanner

variable {scanner : Scanner} {line : List Char} {entry : Entry}

theorem text_of_feed_container (made : (scanner.feed line).2 = some entry) {label : String}
    (hlabel : entry.kind.containerLabel? = some label) : entry.text = label := by
  have hkind : entry.kind.isAccess = false := by
    apply Bool.eq_false_iff.2
    intro haccess
    obtain ⟨level, hlevel⟩ := Kind.exists_access haccess
    rw [hlevel] at hlabel
    cases hlabel
  obtain ⟨tag, description, _, rfl⟩ := ScanState.classified_emit?_iff.1 ⟨made, hkind⟩
  exact (Classification.made_classify tag description).text_eq hlabel

theorem unbroken_of_feed (unbroken : Unbroken line) (made : (scanner.feed line).2 = some entry) :
    Unbroken entry.text.toList := by
  cases hkind : entry.kind.isAccess with
  | true =>
      obtain ⟨level, hlevel⟩ := Kind.exists_access hkind
      rw [(ScanState.access_row_of_emit? made hlevel).1]
      decide
  | false =>
      obtain ⟨tag, description, hmarker, rfl⟩ := ScanState.classified_emit?_iff.1 ⟨made, hkind⟩
      obtain ⟨reads, _⟩ := Marker.ofLine?_eq_some_iff.1 hmarker
      obtain ⟨htag, hdescription⟩ := reads.subset
      exact Classification.unbroken_classify (unbroken.of_subset htag)
        (unbroken.of_subset hdescription)

/-- A line without a terminator gives a well-formed row, if any. -/
theorem wellFormed_of_feed (unbroken : Unbroken line) (made : (scanner.feed line).2 = some entry) :
    entry.WellFormed where
  indent_le := ScanState.indent_of_emit? made
  unbroken := unbroken_of_feed unbroken made
  access_row _ := ScanState.access_row_of_emit? made
  container_row _ := text_of_feed_container made
  label_eq := by
    split
    · rename_i hkind
      exact Entry.label_of_isAccess hkind
    · rename_i hkind
      exact Entry.label_of_not_isAccess (Bool.not_eq_true _ ▸ hkind)
        fun _ => text_of_feed_container made

/-- Each entry is made of one of the lines. -/
theorem exists_feed_of_mem_entries {lines : List (List Char)} (h : entry ∈ scanner.entries lines) :
    ∃ reader : Scanner, ∃ line ∈ lines, (reader.feed line).2 = some entry := by
  induction lines generalizing scanner with
  | nil => simp at h
  | cons line rest ih =>
      rw [entries_cons] at h
      rcases List.mem_append.1 h with hmade | hlater
      · exact ⟨scanner, line, List.mem_cons_self, Option.mem_toList.1 hmade⟩
      · obtain ⟨reader, other, hother, hmade⟩ := ih hlater
        exact ⟨reader, other, List.mem_cons_of_mem line hother, hmade⟩

end Scanner

/-- What holds of the outline of a text. -/
structure WellFormedOutline (text : String) : Prop where
  increasing : (scan text).Pairwise fun entry later => entry.line < later.line
  on_lines : ∀ entry ∈ scan text, 1 ≤ entry.line ∧ entry.line ≤ sourceLineCount text
  rows : ∀ entry ∈ scan text, entry.WellFormed
  /-- The index takes the outline over as it is. -/
  indexed : (Index.ofEntries (scan text)).entries = scan text

/-- The outline of any text is well formed. -/
theorem outline_well_formed (text : String) : WellFormedOutline text where
  increasing := pairwise_scan text
  on_lines _ h := ⟨Scanner.line_lt_of_mem_entries h, line_le_sourceLineCount h⟩
  rows := by
    intro entry h
    obtain ⟨reader, line, hline, made⟩ := Scanner.exists_feed_of_mem_entries h
    exact Scanner.wellFormed_of_feed (Text.unbroken_of_mem_sourceLines hline) made
  indexed := Index.entries_ofEntries (pairwise_scan text)

end RegionOutline
