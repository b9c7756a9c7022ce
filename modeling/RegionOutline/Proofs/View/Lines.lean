import RegionOutline.Proofs.Scan.Terminators
import RegionOutline.Proofs.Scan.WellFormed
import RegionOutline.Proofs.Text.Decimal
import RegionOutline.Proofs.View.Rows

/-!
# Lines of the text of a view

A row is written on a line of its own. It stays on it because nothing in it breaks a line: the
labels come out of single lines of the document, and all else is digits, blanks, icons and
escapes. Colours only surround the body of a row.
-/

namespace RegionOutline

open Text

namespace Text

variable {line : List Char} {lines : List (List Char)}

theorem unbroken_of_isDigit (digits : ∀ c ∈ line, c.isDigit = true) : Unbroken line :=
  ⟨fun hmem => absurd (digits _ hmem) (by decide), fun hmem => absurd (digits _ hmem) (by decide)⟩

theorem unbroken_replicate {c : Char} (hreturn : c ≠ '\r') (hnewline : c ≠ '\n') (count : Nat) :
    Unbroken (List.replicate count c) :=
  ⟨fun hmem => hreturn (List.eq_of_mem_replicate hmem).symm,
    fun hmem => hnewline (List.eq_of_mem_replicate hmem).symm⟩

theorem Unbroken.cons {c : Char} (unbroken : Unbroken line) (hreturn : c ≠ '\r')
    (hnewline : c ≠ '\n') : Unbroken (c :: line) :=
  unbroken_replicate hreturn hnewline 1 |>.append unbroken

/-- Lines that each end with an LF are the lines of the whole. -/
theorem sourceLines_flatMap (unbroken : ∀ line ∈ lines, Unbroken line) :
    sourceLines (lines.flatMap (· ++ ['\n'])) = lines := by
  induction lines with
  | nil => rfl
  | cons line lines ih =>
      obtain ⟨first, others⟩ := List.forall_mem_cons.1 unbroken
      have whole : Terminator.lf.Whole (lines.flatMap (· ++ ['\n'])) := nofun
      calc sourceLines ((line :: lines).flatMap (· ++ ['\n']))
          = sourceLines (line ++ '\n' :: lines.flatMap (· ++ ['\n'])) := by simp
        _ = line :: sourceLines (lines.flatMap (· ++ ['\n'])) := sourceLines_line first whole
        _ = line :: lines := by rw [ih others]

theorem count_newline_flatMap (unbroken : ∀ line ∈ lines, Unbroken line) :
    (lines.flatMap (· ++ ['\n'])).count '\n' = lines.length := by
  induction lines with
  | nil => rfl
  | cons line lines ih =>
      obtain ⟨first, others⟩ := List.forall_mem_cons.1 unbroken
      rw [List.flatMap_cons, List.count_append, List.count_append, List.count_eq_zero.2 first.2,
        ih others, List.length_cons]
      simp [Nat.add_comm]

theorem return_not_mem_flatMap (unbroken : ∀ line ∈ lines, Unbroken line) :
    '\r' ∉ lines.flatMap (· ++ ['\n']) := by
  intro hmem
  obtain ⟨line, hline, hmem⟩ := List.mem_flatMap.1 hmem
  rcases List.mem_append.1 hmem with hmem | hmem
  · exact (unbroken line hline).1 hmem
  · exact absurd (List.mem_singleton.1 hmem) (by decide)

end Text

theorem Color.unbroken_escape (color : Color) : Unbroken color.escape.toList := by
  have component (level : UInt8) : Unbroken (toString level).toList := by
    apply unbroken_of_isDigit
    intro c hc
    have hdigits : (toString level).toList = Nat.toDigits 10 level.toNat := String.toList_ofList
    rw [hdigits] at hc
    exact Nat.isDigit_of_mem_toDigits (by decide) (by decide) hc
  simp only [escape, String.toList_append]
  exact (((((Unbroken.append (by decide) (component color.red)).append (by decide)).append
    (component color.green)).append (by decide)).append (component color.blue)).append (by decide)

theorem Icon.glyph_ne (icon : Icon) : icon.glyph ≠ '\r' ∧ icon.glyph ≠ '\n' := by
  cases icon <;> decide

namespace View

/-- The row up to its body: focus mark, line number and indent. -/
def lead (options : ViewOptions) (focused : Bool) (entry : Entry) : List Char :=
  (if focused then '>' else ' ') ::
    ((if options.showLineNumbers then lineNumber entry.line else []) ++
      List.replicate (2 * entry.indent) ' ')

/-- The view with colours on or off. -/
def withColor (view : View) (color : Bool) : View :=
  { view with options := { view.options with color } }

theorem row_eq (options : ViewOptions) (focused : Bool) (entry : Entry) :
    row options focused entry = lead options focused entry ++
      if options.color then
        entry.kind.appearance.color.escape.toList ++ (body entry ++ Color.reset.toList)
      else body entry := by
  simp [row, lead]

theorem unbroken_lineNumber (line : Nat) : Unbroken (lineNumber line) :=
  ((unbroken_replicate (by decide) (by decide) _).append
    (unbroken_of_isDigit (isDigit_of_mem_decimal line))).append (by decide)

theorem unbroken_lead (options : ViewOptions) (focused : Bool) (entry : Entry) :
    Unbroken (lead options focused entry) := by
  have hindent : Unbroken (List.replicate (2 * entry.indent) ' ') :=
    unbroken_replicate (by decide) (by decide) _
  have hnumber : Unbroken (if options.showLineNumbers then lineNumber entry.line else []) := by
    split
    · exact unbroken_lineNumber entry.line
    · decide
  apply Unbroken.cons (hnumber.append hindent)
  · split <;> decide
  · split <;> decide

theorem unbroken_body {entry : Entry} (unbroken : Unbroken entry.label.toList) :
    Unbroken (body entry) := by
  obtain ⟨hreturn, hnewline⟩ := entry.kind.appearance.icon.glyph_ne
  exact (unbroken.cons (by decide) (by decide)).cons hreturn hnewline

theorem unbroken_row (options : ViewOptions) (focused : Bool) {entry : Entry}
    (unbroken : Unbroken entry.label.toList) : Unbroken (row options focused entry) := by
  rw [row_eq]
  apply (unbroken_lead options focused entry).append
  split
  · exact entry.kind.appearance.color.unbroken_escape.append
      ((unbroken_body unbroken).append (by decide))
  · exact unbroken_body unbroken

theorem unbroken_of_mem_rows {view : View}
    (unbroken : ∀ entry ∈ view.entries, Unbroken entry.label.toList) :
    ∀ line ∈ view.rows, Unbroken line := by
  intro line hline
  obtain ⟨⟨position, entry⟩, hvisible, rfl⟩ := List.mem_map.1 hline
  apply unbroken_row
  exact unbroken entry (List.mem_of_getElem? (getElem?_of_mem_visible hvisible))

theorem toList_text (view : View) : view.text.toList = view.rows.flatMap (· ++ ['\n']) := by
  rw [text_eq, String.toList_ofList]

theorem sourceLines_text {view : View}
    (unbroken : ∀ entry ∈ view.entries, Unbroken entry.label.toList) :
    sourceLines view.text.toList = view.rows := by
  rw [toList_text]
  exact sourceLines_flatMap (unbroken_of_mem_rows unbroken)

end View

/-- What a document puts into the labels of its outline breaks no line. -/
theorem unbroken_label_of_mem_scan {text : String} {entry : Entry} (h : entry ∈ scan text) :
    Unbroken entry.label.toList := by
  obtain ⟨reader, line, hline, made⟩ := Scanner.exists_feed_of_mem_entries h
  have wellFormed := Scanner.wellFormed_of_feed (unbroken_of_mem_sourceLines hline) made
  rw [wellFormed.label_eq]
  split
  · rename_i haccess
    obtain ⟨level, hlevel⟩ := Kind.exists_access haccess
    rw [hlevel]
    cases level <;> decide
  · exact wellFormed.unbroken

/-- However the outline of a document is scrolled, highlighted and laid out, the text has one
line for each visible row, which is the row. Colours change a line only by an escape between
the indent and the body and another one at the end. -/
theorem text_has_line_per_row {view : View} {source : String} (shown : view.entries = scan source) :
    view.text.toList.count '\n' = view.visible.length ∧ '\r' ∉ view.text.toList ∧
      sourceLines view.text.toList = view.visible.map
        (fun (position, entry) => View.row view.options (view.focused == some position) entry) ∧
      ∀ (place position : Nat) (entry : Entry), view.visible[place]? = some (position, entry) →
        (sourceLines (view.withColor false).text.toList)[place]? =
            some (View.lead view.options (view.focused == some position) entry ++
              View.body entry) ∧
          (sourceLines (view.withColor true).text.toList)[place]? =
            some (View.lead view.options (view.focused == some position) entry ++
              (entry.kind.appearance.color.escape.toList ++
                (View.body entry ++ Color.reset.toList))) := by
  have unbroken : ∀ entry ∈ view.entries, Unbroken entry.label.toList := by
    rw [shown]
    exact fun _ => unbroken_label_of_mem_scan
  have hrows := View.unbroken_of_mem_rows unbroken
  refine ⟨?_, ?_, View.sourceLines_text unbroken, ?_⟩
  · rw [View.toList_text, count_newline_flatMap hrows, View.rows, List.length_map]
  · rw [View.toList_text]
    exact return_not_mem_flatMap hrows
  · intro place position entry hvisible
    -- The colours have no say in what is visible.
    have line (color : Bool) : (sourceLines (view.withColor color).text.toList)[place]? =
        some (View.row { view.options with color } (view.focused == some position) entry) := by
      have same : (view.withColor color).visible[place]? = some (position, entry) := hvisible
      have hlines : sourceLines (view.withColor color).text.toList = (view.withColor color).rows :=
        View.sourceLines_text unbroken
      rw [hlines, View.rows, List.getElem?_map, same]
      rfl
    rw [line false, line true, View.row_eq, View.row_eq]
    exact ⟨rfl, rfl⟩

/-- The outline of two lines, with its second row at the top and highlighted. -/
def View.secondRow : View :=
  ((View.publish {} (scan "public:\r#pragma region a\tb\r\n")).scrollTo 1).focus (some 1)

theorem secondRow_has_line :
    View.secondRow.text.toList.count '\n' = 1 ∧
      (sourceLines (View.secondRow.withColor false).text.toList)[0]? =
        some ">     2     a b".toList ∧
      (sourceLines (View.secondRow.withColor true).text.toList)[0]? =
        some ">     2   \x1b[38;2;224;224;224m  a b\x1b[0m".toList := by
  obtain ⟨hcount, _, _, lines⟩ :=
    @text_has_line_per_row View.secondRow "public:\r#pragma region a\tb\r\n" rfl
  have hvisible : View.secondRow.visible =
      [(1, ⟨2, .unrecognised, "a b", 1, some .pub⟩)] := by
    decide +kernel
  obtain ⟨plain, colored⟩ := lines 0 1 _ (by rw [hvisible]; rfl)
  refine ⟨by rw [hcount, hvisible]; rfl, plain.trans ?_, colored.trans ?_⟩
  · decide +kernel
  · decide +kernel

end RegionOutline
