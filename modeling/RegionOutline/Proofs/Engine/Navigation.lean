import RegionOutline.Proofs.Engine.Display
import RegionOutline.Proofs.Index.Lookup
import RegionOutline.Proofs.Scan.Lines

/-!
# From a row to its line and back

Activating a row moves the caret of the host to the line of the row, and a caret on
that line belongs to the same row. The first looks the line up exactly and depends on
the document having such a line; the second looks for the nearest row at or before it.
-/

namespace RegionOutline

namespace Engine

/-- The outline of the text of an open document is on display, and no scan is under
way. -/
structure Displaying (engine : Engine) (text : String) : Prop where
  isOpen : engine.host.document.isOpen = true
  content : engine.host.document.content = text
  tellsLine : engine.host.hidesLine = false
  tellsCount : engine.host.hidesCount = false
  idle : engine.session.inFlight = none
  index : engine.session.index.entries = scan text
  rows : engine.view.entries = scan text

/-- The row was accepted: it is highlighted, the caret is on its line, and nothing else
has changed. -/
structure Visits (engine after : Engine) (row line : Nat) : Prop where
  accepted : (engine.session.handle ((HostEvent.entryActivated line).message engine.host)).2 =
    some (.batch [.navigateTo line, .focus (some row)])
  session_eq : after.session = { engine.session with focused := some row }
  view_eq : after.view = { engine.view with focused := some row }
  journal_eq : after.journal = engine.journal ++ [.focus (some row)]
  host_eq : after.host =
    { engine.host with document := { engine.host.document with caretLine := line } }

/-- The viewport was moved to the row, which is the highlighted one. -/
structure ScrollsTo (engine after : Engine) (row : Nat) : Prop where
  index_eq : after.session.index = engine.session.index
  viewport_eq : after.session.viewport =
    ⟨row - engine.session.settings.entriesAbove, some row⟩
  view_eq : after.view =
    { engine.view with
      firstVisible := row - engine.session.settings.entriesAbove
      focused := some row }
  journal_eq : after.journal = engine.journal ++
    [.scrollTo (row - engine.session.settings.entriesAbove), .focus (some row)]

variable {engine after : Engine} {text : String} {row : Nat} {entry : Entry}

/-- The document has the line of each row, so a row that is activated is accepted. -/
theorem Displaying.handle_entryActivated (displaying : engine.Displaying text)
    (found : (scan text)[row]? = some entry) :
    engine.session.handle ((HostEvent.entryActivated entry.line).message engine.host) =
      ({ engine.session with focused := some row },
        some (.batch [.navigateTo entry.line, .focus (some row)])) := by
  obtain ⟨hfirst, hlast⟩ := line_of_mem_scan (List.mem_of_getElem? found)
  have hcount : engine.host.lineCount? = some (Text.documentLines text.toList).length := by
    simp [Host.lineCount?, Document.lineCount?, displaying.tellsCount, displaying.isOpen,
      displaying.content]
  have standing : engine.session.index.entries[row]? = some entry := by
    rw [displaying.index]
    exact found
  have hposition := Index.position?_of_standing standing
  simp only [HostEvent.message, Session.handle, Session.activate, hcount, hposition]
  exact if_pos ⟨hfirst, decide_eq_true hlast⟩

theorem Displaying.visits (displaying : engine.Displaying text)
    (found : (scan text)[row]? = some entry) :
    engine.Visits (engine.handleEvent (.entryActivated entry.line)) row entry.line := by
  have hhandle := displaying.handle_entryActivated found
  have hfirst := (line_of_mem_scan (List.mem_of_getElem? found)).1
  have hcaret : max entry.line 1 = entry.line := Nat.max_eq_left hfirst
  have hinside : ∀ position, some row = some position → position < engine.view.entries.length := by
    rintro position ⟨⟩
    rw [displaying.rows]
    exact (List.getElem?_eq_some_iff.1 found).1
  have hdispatch : engine.dispatch ((HostEvent.entryActivated entry.line).message engine.host) =
      { engine with
        session := { engine.session with focused := some row }
        host := engine.host.moveCaret entry.line }.tell (.focus (some row)) := by
    rw [dispatch_eq, Session.asks, hhandle]
    rfl
  unfold handleEvent
  rw [hdispatch]
  constructor
  · rw [hhandle]
  · rfl
  · exact engine.view.focus_of_inside hinside
  · rfl
  · change engine.host.moveCaret entry.line = _
    rw [Host.moveCaret, Document.setCaret, hcaret]

/-- The outline is still on display then. -/
theorem Displaying.of_visits {line : Nat} (displaying : engine.Displaying text)
    (visits : engine.Visits after row line) : after.Displaying text := by
  constructor
  · rw [visits.host_eq]
    exact displaying.isOpen
  · rw [visits.host_eq]
    exact displaying.content
  · rw [visits.host_eq]
    exact displaying.tellsLine
  · rw [visits.host_eq]
    exact displaying.tellsCount
  · rw [visits.session_eq]
    exact displaying.idle
  · rw [visits.session_eq]
    exact displaying.index
  · rw [visits.view_eq]
    exact displaying.rows

/-- A caret on the line of a row scrolls to the row. -/
theorem Displaying.scrollsTo (displaying : engine.Displaying text)
    (found : (scan text)[row]? = some entry)
    (caret : engine.host.document.caretLine = entry.line) :
    engine.ScrollsTo (engine.handleEvent .caretMoved) row := by
  have standing : engine.session.index.entries[row]? = some entry := by
    rw [displaying.index]
    exact found
  have htarget : engine.session.scrollTarget entry.line =
      ⟨row - engine.session.settings.entriesAbove, some row⟩ := by
    simp only [Session.scrollTarget, Index.nearest?_of_standing standing, windowStart]
  have hline : engine.host.line? = some entry.line := by
    simp [Host.line?, Document.line?, displaying.tellsLine, displaying.isOpen, caret]
  obtain ⟨told, hindex, hviewport⟩ := engine.told_scrollToCaret_some displaying.idle hline
  have fits := engine.session.scrollTarget_fits entry.line
  rw [Index.size, displaying.index, ← displaying.rows] at fits
  rw [htarget] at told hviewport fits
  unfold handleEvent
  rw [dispatch_caretMoved]
  constructor
  · exact hindex
  · exact hviewport
  · exact told.view_eq.trans (engine.view.foldl_viewport _ fits)
  · exact told.journal_eq

/-- While the outline of an open document is on display, activating any row is accepted:
the row is highlighted in session and view and the caret goes to its line. A caret event
right after that scrolls to the same row. -/
theorem activated_row_round_trip (engine : Engine) (text : String) (row : Nat) (entry : Entry)
    (displaying : engine.Displaying text) (found : (scan text)[row]? = some entry) :
    engine.Visits (engine.handleEvent (.entryActivated entry.line)) row entry.line ∧
      (engine.handleEvent (.entryActivated entry.line)).ScrollsTo
        ((engine.handleEvent (.entryActivated entry.line)).handleEvent .caretMoved) row := by
  have visits := displaying.visits found
  have caret : (engine.handleEvent (.entryActivated entry.line)).host.document.caretLine =
      entry.line := by
    rw [visits.host_eq]
  exact ⟨visits, (displaying.of_visits visits).scrollsTo found caret⟩

/-- The outline of a text with all kinds of terminators, scrolled to its last row. -/
def mixed : Engine :=
  let text := "public:\r\n\x0b\x0c\rprivate:\n\n  #pragma region A\u0085\nprotected:\u2028"
  { session := { index := .ofEntries (scan text), focused := some 3, firstVisible := 3 }
    host := { document := { content := text, caretLine := 9 } }
    view := { entries := scan text, focused := some 3, firstVisible := 3 } }

theorem mixed_round_trip :
    ∃ entry, mixed.Displaying mixed.host.document.content ∧
      (scan mixed.host.document.content)[2]? = some entry ∧ entry.line = 5 ∧
      mixed.Visits (mixed.handleEvent (.entryActivated entry.line)) 2 entry.line ∧
      (mixed.handleEvent (.entryActivated entry.line)).ScrollsTo
        ((mixed.handleEvent (.entryActivated entry.line)).handleEvent .caretMoved) 2 := by
  have hline : (scan mixed.host.document.content)[2]?.map Entry.line = some 5 := by
    decide +kernel
  obtain ⟨entry, found, hentry⟩ := Option.map_eq_some_iff.1 hline
  have displaying : mixed.Displaying mixed.host.document.content := by
    refine ⟨rfl, rfl, rfl, rfl, rfl, ?_, rfl⟩
    exact Index.entries_ofEntries (pairwise_scan _)
  exact ⟨entry, displaying, found, hentry,
    activated_row_round_trip mixed _ 2 entry displaying found⟩

end Engine

end RegionOutline
