import RegionOutline.Session.Command

/-! # Session updates

How a session answers each message. An update is pure: whatever touches the
host, the view or another thread is returned as a command. -/

namespace RegionOutline

namespace Session

/-- Run the scroll that waited for a scan, if it is still wanted. -/
def replayPending (session : Session) : Session × Option Scroll :=
  match session.pending with
  | none => (session, none)
  | some pending =>
      let session := { session with pending := none }
      if session.scrollScope.isCurrent pending.token then
        match pending.line with
        | none => (session, none)
        | some line =>
            let target := session.scrollTarget line
            (session.applyScroll target, some ⟨target, pending.token⟩)
      else (session, none)

/-- Start a scan of the text. Without a text the entries stay and a waiting
scroll is let go. -/
def rebuild (session : Session) (source : Option String) : Session × Option Command :=
  let token := session.rebuildScope.nextToken
  let session :=
    { session with
      rebuildScope := session.rebuildScope.renew
      revision := session.revision + 1 }
  match source with
  | none =>
      let replayed := { session with inFlight := none }.replayPending
      (replayed.1, replayed.2.map .scroll)
  | some source =>
      ({ session with inFlight := some session.revision },
        some (.runScan session.revision source token))

/-- Supersede all work and clear the outline. -/
def close (session : Session) : Session × Option Command :=
  ({ session with
      rebuildScope := session.rebuildScope.renew
      scrollScope := session.scrollScope.cancel
      revision := session.revision + 1 }.reset,
    some .publish)

/-- Follow the caret, now or after the scan under way. -/
def moveCaret (session : Session) (line : Option Nat) : Session × Option Scroll :=
  let token := session.scrollScope.nextToken
  let session := { session with scrollScope := session.scrollScope.renew }
  if session.isRebuilding then
    ({ session with pending := some ⟨line, token⟩ }, none)
  else
    let session := { session with pending := none }
    match line with
    | none => (session, none)
    | some line =>
        let target := session.scrollTarget line
        (session.applyScroll target, some ⟨target, token⟩)

/-- Go to the line of an activated row, if the document has such a line. -/
def activate (session : Session) (line : Nat) (documentLines : Option Nat) :
    Session × Option Command :=
  if 1 ≤ line ∧ documentLines.any (line ≤ ·) then
    let row := session.index.position? line
    ({ session with focused := row }, some (.batch [.navigateTo line, .focus row]))
  else (session, none)

/-- Take over the entries of a scan, unless it was superseded. -/
def completeScan (session : Session) (revision : Nat) (token : Token) (entries : List Entry) :
    Session × Option Command :=
  if session.rebuildScope.isCurrent token ∧ session.revision = revision then
    let replayed :=
      { session with index := .ofEntries entries, inFlight := none }.replayPending
    let scroll := match replayed.2 with
      | some scroll => .scroll scroll
      | none => .scrollToCaret
    (replayed.1, some (.batch [.publish, scroll]))
  else (session, none)

/-- The session after a message, and the command that it asks for. -/
def handle (session : Session) : Message → Session × Option Command
  | .rebuild source => session.rebuild source
  | .close => session.close
  | .caretMoved line =>
      let moved := session.moveCaret line
      (moved.1, moved.2.map .scroll)
  | .entryActivated line documentLines => session.activate line documentLines
  | .scanCompleted revision token entries => session.completeScan revision token entries

end Session

end RegionOutline
