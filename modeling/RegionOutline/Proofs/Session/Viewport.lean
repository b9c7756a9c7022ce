import RegionOutline.Proofs.Session.Answers

/-!
# Viewports of a session

Where a viewport comes from and how far it can be trusted: one that is computed for
a line always fits the index that it was computed for. The main statement lists all
that a message can do to the index and the viewport, together with the command that
it brings. Only one case leaves old positions standing over new rows, that of a
report with no scroll waiting for it; there the command asks for the caret.
-/

namespace RegionOutline

namespace Index

variable {index : Index} {line row : Nat}

theorem nearest?_lt (h : index.nearest? line = some row) : row < index.size := by
  have hle := (List.takeWhile_prefix (l := index.entries) (·.line ≤ line)).length_le
  unfold nearest? at h
  split at h
  · cases h
  · rename_i count hcount
    cases h
    rw [hcount] at hle
    exact hle

theorem position?_lt (h : index.position? line = some row) : row < index.size :=
  (List.findIdx?_eq_some_iff_getElem.1 h).1

end Index

namespace Viewport

/-- The highlighted row is one of so many rows, and so is the first one shown unless
that is the top. -/
structure Fits (viewport : Viewport) (size : Nat) : Prop where
  focused : ∀ row, viewport.focused = some row → row < size
  first : viewport.first = 0 ∨ viewport.first < size

end Viewport

namespace Session

variable {session after : Session} {message : Message} {token : Token}

/-- The viewport that the session takes to be shown. -/
def viewport (session : Session) : Viewport :=
  ⟨session.firstVisible, session.focused⟩

/-- A viewport computed for a line fits the rows. -/
theorem scrollTarget_fits (session : Session) (line : Nat) :
    (session.scrollTarget line).Fits session.index.size := by
  constructor
  · intro row hrow
    exact Index.nearest?_lt hrow
  · change windowStart (session.index.nearest? line) _ = 0 ∨ windowStart _ _ < _
    cases hrow : session.index.nearest? line with
    | none => exact Or.inl rfl
    | some row =>
        right
        calc windowStart (some row) session.settings.entriesAbove ≤ row := Nat.sub_le _ _
          _ < session.index.size := Index.nearest?_lt hrow

/-- While a scan is under way, or without a line, a caret leaves the viewport as it
is. -/
theorem moveCaret_still {line : Option Nat} (h : session.inFlight.isSome = true ∨ line = none) :
    (session.moveCaret line).2 = none ∧ (session.moveCaret line).1.index = session.index ∧
      (session.moveCaret line).1.viewport = session.viewport := by
  cases hbusy : session.inFlight with
  | some revision => simp [moveCaret, isRebuilding, hbusy, viewport]
  | none =>
      rw [hbusy] at h
      obtain rfl : line = none := by simpa using h
      simp [moveCaret, isRebuilding, hbusy, viewport]

/-- Otherwise it scrolls to its line at once. -/
theorem moveCaret_idle (idle : session.inFlight = none) (line : Nat) :
    session.moveCaret (some line) =
      ({ session with
          scrollScope := session.scrollScope.renew
          pending := none }.applyScroll (session.scrollTarget line),
        some ⟨session.scrollTarget line, session.scrollScope.nextToken⟩) := by
  simp only [moveCaret, isRebuilding, idle, Option.isSome_none, Bool.false_eq_true, if_false]
  rfl

/-- A scroll that waits under a current token either is for no line and goes
unseen, or is let go. -/
theorem replayPending_cases (session : Session)
    (current : ∀ pending ∈ session.pending,
      session.scrollScope.isCurrent pending.token = true) :
    session.replayPending = ({ session with pending := none }, none) ∨
      ∃ line token, session.scrollScope.isCurrent token = true ∧
        session.replayPending =
          ({ session with pending := none }.applyScroll (session.scrollTarget line),
            some ⟨session.scrollTarget line, token⟩) := by
  cases hpending : session.pending with
  | none =>
      left
      simp only [replayPending, hpending]
      rw [← hpending]
  | some pending =>
      obtain ⟨line, token⟩ := pending
      have hcurrent := current _ hpending
      cases line with
      | none =>
          left
          simp [replayPending, hpending]
      | some line =>
          right
          exact ⟨line, token, hcurrent, replayPending_eq_of_waiting session hpending hcurrent⟩

/-- All that a message can do to the index and the viewport, with the command that
it brings. -/
inductive Turns (session after : Session) : Command → Prop
  | rests (index_eq : after.index = session.index)
      (viewport_eq : after.viewport = session.viewport) : Turns session after .nothing
  | scans (revision : Nat) (source : String) (token : Token)
      (index_eq : after.index = session.index)
      (viewport_eq : after.viewport = session.viewport) :
      Turns session after (.runScan revision source token)
  | visits (line : Nat) (row : Option Nat) (index_eq : after.index = session.index)
      (viewport_eq : after.viewport = ⟨session.firstVisible, row⟩)
      (inside : ∀ position, row = some position → position < after.index.size) :
      Turns session after (.batch [.navigateTo line, .focus row])
  | scrolls (token : Token) (index_eq : after.index = session.index)
      (fits : after.viewport.Fits after.index.size)
      (current : after.scrollScope.isCurrent token = true) :
      Turns session after (.scroll ⟨after.viewport, token⟩)
  | clears (index_eq : after.index = .empty) (viewport_eq : after.viewport = ⟨0, none⟩) :
      Turns session after .publish
  | replaces (token : Token) (fits : after.viewport.Fits after.index.size)
      (current : after.scrollScope.isCurrent token = true) :
      Turns session after (.batch [.publish, .scroll ⟨after.viewport, token⟩])
  | asks (viewport_eq : after.viewport = session.viewport) (idle : after.inFlight = none) :
      Turns session after (.batch [.publish, .scrollToCaret])

theorem turns_rebuild_none (live : session.PendingLive) :
    session.Turns (session.handle (.rebuild none)).1 (session.asks (.rebuild none)) := by
  have replay := replayPending_cases
    { session with
      rebuildScope := session.rebuildScope.renew
      revision := session.revision + 1
      inFlight := none } (fun pending hpending => (live pending hpending).2)
  rcases replay with hreplay | ⟨line, token, hcurrent, hreplay⟩
  · simp only [asks, handle, rebuild, hreplay]
    exact .rests rfl rfl
  · simp only [asks, handle, rebuild, hreplay]
    exact .scrolls token rfl (scrollTarget_fits _ line) hcurrent

theorem turns_caretMoved (session : Session) (line : Option Nat) :
    session.Turns (session.handle (.caretMoved line)).1 (session.asks (.caretMoved line)) := by
  by_cases still : session.inFlight.isSome = true ∨ line = none
  · obtain ⟨hnone, hindex, hviewport⟩ := moveCaret_still still
    simp only [asks, handle, hnone]
    exact .rests hindex hviewport
  · obtain ⟨hidle, hline⟩ := not_or.1 still
    obtain ⟨caret, rfl⟩ := Option.ne_none_iff_exists'.1 hline
    have hmove := moveCaret_idle (by simpa using hidle) caret
    simp only [asks, handle, hmove]
    exact .scrolls _ rfl (scrollTarget_fits session caret) (CancelScope.isCurrent_renew _)

theorem turns_entryActivated (session : Session) (line : Nat) (documentLines : Option Nat) :
    session.Turns (session.handle (.entryActivated line documentLines)).1
      (session.asks (.entryActivated line documentLines)) := by
  simp only [asks, handle, activate]
  split
  · exact .visits line _ rfl rfl (fun position hposition => Index.position?_lt hposition)
  · exact .rests rfl rfl

theorem turns_scanCompleted (live : session.PendingLive) (revision : Nat) (token : Token)
    (entries : List Entry) :
    session.Turns (session.handle (.scanCompleted revision token entries)).1
      (session.asks (.scanCompleted revision token entries)) := by
  by_cases pass : session.rebuildScope.isCurrent token = true ∧ session.revision = revision
  · have replay := replayPending_cases
      { session with index := .ofEntries entries, inFlight := none }
      (fun pending hpending => (live pending hpending).2)
    rcases replay with hreplay | ⟨line, waiting, hcurrent, hreplay⟩
    · simp only [asks, handle, completeScan_of_pass entries pass, hreplay]
      exact .asks rfl rfl
    · simp only [asks, handle, completeScan_of_pass entries pass, hreplay]
      exact .replaces waiting (scrollTarget_fits _ line) hcurrent
  · simp only [asks, handle, completeScan, if_neg pass]
    exact .rests rfl rfl

theorem turns_handle (live : session.PendingLive) (message : Message) :
    session.Turns (session.handle message).1 (session.asks message) := by
  match message with
  | .rebuild none => exact turns_rebuild_none live
  | .rebuild (some source) => exact .scans _ source _ rfl rfl
  | .close => exact .clears rfl rfl
  | .caretMoved line => exact session.turns_caretMoved line
  | .entryActivated line documentLines => exact session.turns_entryActivated line documentLines
  | .scanCompleted revision token entries => exact turns_scanCompleted live revision token entries

end Session

end RegionOutline
