import RegionOutline.Cancellation
import RegionOutline.Index
import RegionOutline.Settings

/-! # Sessions

The outline state of one open document: the index, the scan under way, the
viewport and the scroll that waits for the scan. Rebuilding and scrolling each
have a cancel scope of their own, so that a new request supersedes the last. -/

namespace RegionOutline

/-- A scroll asked for while a scan was under way. -/
structure PendingScroll where
  /-- Caret line when it was asked for, if known. -/
  line : Option Nat
  token : Token
  deriving DecidableEq

/-- A viewport position. -/
structure Viewport where
  /-- First row shown. -/
  first : Nat
  /-- Row that holds the caret, if the caret is not before the first one. -/
  focused : Option Nat
  deriving DecidableEq

/-- A viewport to be shown while its token is live. -/
structure Scroll where
  target : Viewport
  token : Token
  deriving DecidableEq

structure Session where
  index : Index := .empty
  /-- Grows with every rebuild and close; results of an older revision are
  stale. -/
  revision : Nat := 0
  /-- Revision of the scan under way. -/
  inFlight : Option Nat := none
  rebuildScope : CancelScope := { id := 0 }
  scrollScope : CancelScope := { id := 1 }
  pending : Option PendingScroll := none
  focused : Option Nat := none
  firstVisible : Nat := 0
  settings : Settings := {}
  deriving DecidableEq

/-- A token that no session hands out. -/
def Token.foreign : Token := ⟨2, 0⟩

namespace Session

def isRebuilding (session : Session) : Bool :=
  session.inFlight.isSome

/-- The viewport that puts the row of a line near the top. -/
def scrollTarget (session : Session) (line : Nat) : Viewport :=
  let row := session.index.nearest? line
  ⟨windowStart row session.settings.entriesAbove, row⟩

/-- Take a viewport as the one now shown. -/
def applyScroll (session : Session) (target : Viewport) : Session :=
  { session with firstVisible := target.first, focused := target.focused }

/-- Drop every entry and all viewport state. -/
def reset (session : Session) : Session :=
  { session with
    index := .empty
    inFlight := none
    pending := none
    focused := none
    firstVisible := 0 }

end Session

end RegionOutline
