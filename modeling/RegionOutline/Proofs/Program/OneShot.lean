import RegionOutline.Proofs.Index.Lookup
import RegionOutline.Proofs.Program.Phases
import RegionOutline.Proofs.View.Decoding
import RegionOutline.Proofs.View.Rows

/-!
# What is printed of a text

The outline of the text and the line of the caret decide on everything that is printed:
the viewport, the rows in it and the mark. What is printed as data is told by what it
denotes, and the entries can be read back from it. How the steps of the scan and of its owner
are mixed makes no difference.
-/

namespace RegionOutline

/-- The viewport is the one for a line: the highlighted row is the last entry that does
not lie beyond the line, with so many rows above it, or all there are. -/
structure Viewport.Frames (viewport : Viewport) (entries : List Entry) (line above : Nat) :
    Prop where
  focused : Index.LastUpTo entries line viewport.focused
  first : viewport.first = viewport.focused.elim 0 (· - above)

/-- The rows that are printed of a viewport with so many rows above the highlighted
one. -/
structure PrintsRows (options : ViewOptions) (entries : List Entry) (viewport : Viewport)
    (above : Nat) (rows : List (List Char)) : Prop where
  /-- They are those of the entries from the first visible one on, as many as allowed. -/
  row_eq : ∀ place, rows[place]? =
    if options.allows place then
      entries[viewport.first + place]?.map
        (View.row options (viewport.focused == some (viewport.first + place)))
    else none
  /-- The mark is on the row of the highlighted entry. -/
  marked_iff : ∀ place, rows[place]?.any View.isMarked = true ↔
    viewport.focused = some (viewport.first + place) ∧ options.allows place = true
  marked_once : ∀ place other : Nat, rows[place]?.any View.isMarked = true →
    rows[other]?.any View.isMarked = true → place = other
  /-- It is printed if the rows above the highlighted one leave room. -/
  exists_marked_iff : (∃ row ∈ rows, View.isMarked row = true) ↔
    ∃ position, viewport.focused = some position ∧ options.allows (min position above) = true

/-- The values that are printed of a viewport as data. -/
structure PrintsData (entries : List Entry) (viewport : Viewport) (first focused : Json.Value)
    (items : List Json.Value) : Prop where
  first_eq : first.natural? = some viewport.first
  focused_eq : focused.row? = some viewport.focused
  /-- The items describe all entries, one by one and in their order. -/
  described : entries.Forall₂ (fun entry item =>
    ∃ members, item = .object members ∧ entry.DescribedBy members) items
  /-- Other programs get the entries back, unless a number is out of their range. -/
  decoded : (∀ entry ∈ entries, entry.InRange) → items.map Entry.ofJson? = entries.map some

/-- What is printed of a viewport over the entries. -/
inductive Printed (options : ViewOptions) (entries : List Entry) (viewport : Viewport)
    (above : Nat) : OutputFormat → String → Prop
  | text (rows : List (List Char)) (prints : PrintsRows options entries viewport above rows) :
      Printed options entries viewport above .text (String.ofList (rows.flatMap (· ++ ['\n'])))
  | json (data : List Char) (first focused : Json.Value) (items : List Json.Value)
      (denotes : Json.Denotes (.object [(some "first_visible", first), (some "focused", focused),
        (some "entries", .array items)]) data)
      (prints : PrintsData entries viewport first focused items) :
      Printed options entries viewport above .json (String.ofList (data ++ ['\n']))

/-- Data that were printed are read as the values they denote. -/
theorem Printed.exists_read? {options : ViewOptions} {entries : List Entry} {viewport : Viewport}
    {above : Nat} {output : String}
    (printed : Printed options entries viewport above .json output) :
    ∃ first focused items,
      Json.read? output.toList = some (.object [(some "first_visible", first),
        (some "focused", focused), (some "entries", .array items)]) ∧
      PrintsData entries viewport first focused items := by
  cases printed with
  | json data first focused items denotes prints =>
      refine ⟨first, focused, items, ?_, prints⟩
      rw [String.toList_ofList]
      exact Json.read?_of_denotes Json.blank_nil denotes (Json.blank_newline 0)

namespace View

/-- A view prints the rows of its viewport. -/
theorem printsRows (view : View) {line above : Nat}
    (frames : view.viewport.Frames view.entries line above) :
    PrintsRows view.options view.entries view.viewport above view.rows := by
  have hfirst : view.firstVisible = view.focused.elim 0 (· - above) := frames.first
  have inside : ∀ position, view.focused = some position → position < view.entries.length := by
    intro position hfocused
    have hlast : Index.LastUpTo view.entries line view.focused := frames.focused
    rw [hfocused] at hlast
    obtain ⟨⟨entry, hentry, _⟩, _⟩ := hlast
    exact (List.getElem?_eq_some_iff.1 hentry).1
  have below : ∀ position, view.focused = some position → view.firstVisible ≤ position := by
    intro position hfocused
    rw [hfirst, hfocused]
    exact Nat.sub_le position above
  constructor
  · exact view.getElem?_rows
  · exact view.any_isMarked_iff inside
  · intro place other hplace hother
    have hsame := ((view.any_isMarked_iff inside place).1 hplace).1.symm.trans
      ((view.any_isMarked_iff inside other).1 hother).1
    exact Nat.add_left_cancel (Option.some.inj hsame)
  · rw [view.exists_isMarked_iff inside below]
    apply exists_congr
    intro position
    apply and_congr_right
    intro hfocused
    change view.focused = some position at hfocused
    have hroom : position - view.firstVisible = min position above := by
      rw [hfirst, hfocused]
      change position - (position - above) = _
      omega
    rw [hroom]

theorem printsData (view : View) :
    PrintsData view.entries view.viewport (.ofNat view.firstVisible)
      ((view.focused.map Json.Value.ofNat).getD .null) (view.entries.map Entry.toJson) := by
  constructor
  · exact Json.Value.natural?_ofNat view.firstVisible
  · exact Json.Value.row?_getD_null view.focused
  · rw [List.forall₂_map_right_iff, List.forall₂_same]
    exact fun entry _ => entry.toJson_describes
  · exact Entry.map_ofJson?_toJson

end View

namespace Startup

theorem frames_target (startup : Startup) (content : String) :
    (startup.target content).Frames (scan content) startup.caret startup.settings.entriesAbove := by
  have hlast := (startup.loaded content).index.lastUpTo_nearest? startup.caret
  rw [entries_loaded] at hlast
  refine ⟨hlast, ?_⟩
  change windowStart ((startup.loaded content).index.nearest? startup.caret) _ = _
  unfold target Session.scrollTarget
  cases (startup.loaded content).index.nearest? startup.caret <;> rfl

/-- Either format prints what the view shows. -/
theorem printed_render (startup : Startup) (view : View) {line above : Nat}
    (frames : view.viewport.Frames view.entries line above) :
    Printed view.options view.entries view.viewport above startup.format
      (startup.render view) := by
  unfold render
  cases startup.format with
  | text =>
      rw [View.text_eq]
      exact .text view.rows (view.printsRows frames)
  | json =>
      have houtput : view.json ++ "\n" = String.ofList (view.json.toList ++ ['\n']) := by
        rw [String.ofList_append, String.ofList_toList]
      rw [houtput]
      exact .json _ _ _ _ (Json.denotes_pretty view.printable_toJson) view.printsData

/-- What is printed is decided by the outline and the caret. -/
theorem printed_output (startup : Startup) (content : String) :
    Printed (startup.engine content).view.options (scan content) (startup.target content)
      startup.settings.entriesAbove startup.format (startup.output content) := by
  have hview := (startup.view_eq content).trans (startup.view_shown content)
  have hentries : (startup.view content).entries = scan content := by rw [hview]
  have hviewport : (startup.view content).viewport = startup.target content := by
    rw [View.viewport, hview]
  have hoptions : (startup.view content).options = (startup.engine content).view.options := by
    rw [hview]
  have frames := startup.frames_target content
  rw [← hentries, ← hviewport] at frames
  have printed := startup.printed_render (startup.view content) frames
  rw [hentries, hviewport, hoptions] at printed
  exact printed

end Startup

/-- How the rows are printed that the arguments ask for. Their number is limited only
if a line is given. -/
def Arguments.viewOptions (arguments : Arguments) (settings : Settings) : ViewOptions where
  showLineNumbers := settings.showLineNumbers
  color := settings.color && !arguments.noColor && arguments.format ≠ .json
  rows := arguments.line.map fun _ => settings.visibleRows

/-- The output for a text, and the runs that it can come from. -/
structure Program.OneShot (arguments : Arguments) (settings : Settings) (content : String)
    (startup : Startup) (output : String) : Prop where
  /-- The outline of the text and the caret decide on what is printed. -/
  printed : ∃ viewport : Viewport,
    viewport.Frames (scan content) (max (arguments.line.getD 1) 1)
        (arguments.entriesAbove.getD settings.entriesAbove) ∧
      Printed (arguments.viewOptions settings) (scan content) viewport
        (arguments.entriesAbove.getD settings.entriesAbove) arguments.format output
  /-- The same is printed whenever the owner leaves, however the steps were mixed. -/
  output_eq : ∀ schedule machine last, (∀ action ∈ schedule, action.isInternal = true) →
    (startup.machine content).run (.event .opened :: schedule) = some machine →
      machine.act .leave = some last → startup.render last.engine.view = output
  /-- However they were mixed so far, the owner can come to leave. -/
  completes : ∀ schedule machine, (∀ action ∈ schedule, action.isInternal = true) →
    (startup.machine content).run (.event .opened :: schedule) = some machine →
      ∃ rest later last, (∀ action ∈ rest, action.isInternal = true) ∧
        machine.run rest = some later ∧ later.act .leave = some last

/-- Wherever the text can be read, its outline is printed, the viewport being the one
for the line that is given or for the first line. -/
theorem outline_prints_scan (arguments : Arguments) (settings : Settings)
    (isDirectory : Path → Bool) (read : Path → Except FileError String) (content : String)
    (regular : isDirectory arguments.file = false) (readable : read arguments.file = .ok content) :
    ∃ startup output, arguments.startup isDirectory settings = .ok startup ∧
      Program.outline arguments settings isDirectory read = .ok output ∧
      Program.OneShot arguments settings content startup output := by
  obtain ⟨startup, hstartup⟩ : ∃ startup, arguments.startup isDirectory settings = .ok startup := by
    simp [Arguments.startup, regular]
  have hmerged := hstartup
  simp only [Arguments.startup, regular, Bool.false_eq_true, if_false, Except.ok.injEq] at hmerged
  have hcaret : startup.caret = max (arguments.line.getD 1) 1 := by
    rw [← hmerged]
    cases arguments.line <;> simp [Startup.caret]
  have hoptions : (startup.engine content).view.options = arguments.viewOptions settings := by
    rw [← hmerged]
    simp [Startup.engine, Arguments.viewOptions, ViewOptions.ofSettings, Function.comp_def]
  refine ⟨startup, startup.output content, hstartup, ?_, ?_⟩
  · have hread : read startup.file = .ok content := by rw [← hmerged]; exact readable
    simp [Program.outline, hstartup, hread, bind, Except.bind, Except.mapError, pure, Except.pure]
  · constructor
    · have frames := startup.frames_target content
      have printed := startup.printed_output content
      rw [hcaret] at frames
      rw [hoptions] at printed
      rw [← hmerged] at frames printed ⊢
      exact ⟨_, frames, printed⟩
    · intro schedule machine last internal hrun hleave
      have phase := Startup.phase_of_run internal hrun
      rw [phase.view_of_leave hleave]
      rfl
    · intro schedule machine internal hrun
      exact Machine.exists_leave (Startup.phase_of_run internal hrun).workers_eq

/-- Two rows are shown and two are kept above the highlighted one, which is not shown
for this reason. -/
def narrow : Arguments where
  file := "part.h"
  line := some 4
  entriesAbove := some 2

def narrowText : String :=
  "public:\r\nprivate:\n#pragma region A\n\n#pragma endregion"

def narrowEntries : List Entry :=
  [⟨1, .access .pub, "", 0, some .pub⟩, ⟨2, .access .priv, "", 0, some .priv⟩,
    ⟨3, .unrecognised, "A ", 1, some .priv⟩]

theorem lastUpTo_narrowEntries : Index.LastUpTo narrowEntries 4 (some 2) := by
  refine ⟨⟨_, rfl, by decide⟩, ?_⟩
  intro later next hlater hnext
  have inside : later < 3 := (List.getElem?_eq_some_iff.1 hnext).1
  omega

/-- As text and as data. -/
theorem narrow_prints_scan :
    (∃ startup output,
      narrow.startup (fun _ => false) { visibleRows := 2 } = .ok startup ∧
      Program.outline narrow { visibleRows := 2 } (fun _ => false) (fun _ => .ok narrowText) =
        .ok output ∧
      Program.OneShot narrow { visibleRows := 2 } narrowText startup output) ∧
    ∃ output first focused items,
      Program.outline { narrow with format := .json } { visibleRows := 2 } (fun _ => false)
        (fun _ => .ok narrowText) = .ok output ∧
      Json.read? output.toList = some (.object [(some "first_visible", first),
        (some "focused", focused), (some "entries", .array items)]) ∧
      first.natural? = some 0 ∧ focused.row? = some (some 2) ∧
      items.map Entry.ofJson? = narrowEntries.map some := by
  refine ⟨outline_prints_scan narrow { visibleRows := 2 } (fun _ => false)
    (fun _ => .ok narrowText) narrowText rfl rfl, ?_⟩
  obtain ⟨startup, output, _, houtput, oneShot⟩ := outline_prints_scan
    { narrow with format := .json } { visibleRows := 2 } (fun _ => false)
    (fun _ => .ok narrowText) narrowText rfl rfl
  have hscan : scan narrowText = narrowEntries := by decide
  obtain ⟨viewport, frames, printed⟩ := oneShot.printed
  rw [hscan] at frames printed
  obtain ⟨first, focused, items, hread, prints⟩ := printed.exists_read?
  have hfocused : viewport.focused = some 2 := frames.focused.unique lastUpTo_narrowEntries
  have hfirst : viewport.first = 0 := by
    rw [frames.first, hfocused]
    rfl
  refine ⟨output, first, focused, items, houtput, hread, ?_, ?_, prints.decoded (by decide)⟩
  · rw [prints.first_eq, hfirst]
  · rw [prints.focused_eq, hfocused]

end RegionOutline
