import RegionOutline.Classification
import RegionOutline.Marker

/-! # Scanner state

What the lines read so far leave behind: the nesting depth, the implicit access
block that a bare specifier opened, and the access level in force together with
the levels to restore. One step takes one line and makes at most one entry. -/

namespace RegionOutline

/-- An open access block. -/
structure AccessScope where
  /-- Depth at which the block was opened. -/
  depth : Int
  /-- Level in force outside it. -/
  restore : Option Access
  deriving DecidableEq

structure ScanState where
  /-- Nesting depth; negative after more closers than openers. -/
  depth : Int := 0
  /-- Depth at which a bare specifier opened an implicit block. -/
  implicitRoot : Option Int := none
  /-- Access level in force. -/
  access : Option Access := none
  /-- Open access blocks, the innermost first. -/
  scopes : List AccessScope := []
  deriving DecidableEq

namespace ScanState

/-- Put an access level in force until the block opened here is closed. -/
def enter (state : ScanState) (level : Access) : ScanState :=
  { state with
    scopes := ⟨state.depth, state.access⟩ :: state.scopes
    access := some level }

/-- End the blocks opened at the given depth or deeper, restoring the level
outside each. -/
def leaveScopes (depth : Int) : List AccessScope → Option Access →
    List AccessScope × Option Access
  | [], access => ([], access)
  | scope :: scopes, access =>
      if scope.depth < depth then (scope :: scopes, access)
      else leaveScopes depth scopes scope.restore

/-- Go back to the given depth and end every access block that lies there. -/
def returnTo (state : ScanState) (depth : Int) : ScanState :=
  let left := leaveScopes depth state.scopes state.access
  { state with depth, scopes := left.1, access := left.2 }

/-- The depth of an access row: an implicit block has no row of its own. -/
def accessRowDepth (state : ScanState) : Int :=
  if state.implicitRoot.isNone then state.depth else state.depth - 1

/-- A bare specifier opens the implicit block or changes the level inside it. -/
def specify (state : ScanState) (level : Access) : ScanState :=
  match state.implicitRoot with
  | none =>
      { state.enter level with
        implicitRoot := some state.depth
        depth := state.depth + 1 }
  | some _ => { state with access := some level }

/-- A closer that reaches the root of the implicit block closes that block too. -/
def closeRegion (state : ScanState) : ScanState :=
  if state.implicitRoot = some (state.depth - 1) then
    { state with implicitRoot := none }.returnTo (state.depth - 2)
  else state.returnTo (state.depth - 1)

/-- The state after a line with the given marker. -/
def step (state : ScanState) : Option Marker → ScanState
  | none => state
  | some (.specifier level) => state.specify level
  | some (.openAccess level) => { state.enter level with depth := state.depth + 1 }
  | some (.openRegion _ _) => { state with depth := state.depth + 1 }
  | some .close => state.closeRegion

/-- The entry made by a line with the given marker. -/
def emit? (state : ScanState) (line : Nat) : Option Marker → Option Entry
  | some (.specifier level) | some (.openAccess level) =>
      some (.atDepth line (.access level) "" state.accessRowDepth (some level))
  | some (.openRegion tag description) =>
      let classified := classify tag description
      some (.atDepth line classified.kind classified.text state.depth state.access)
  | some .close | none => none

end ScanState

/-- A scanner between two lines. -/
structure Scanner where
  state : ScanState := {}
  /-- Lines read so far. -/
  line : Nat := 0
  deriving DecidableEq

namespace Scanner

/-- Read one line. -/
def feed (scanner : Scanner) (line : List Char) : Scanner × Option Entry :=
  let marker := Marker.ofLine? line
  let number := scanner.line + 1
  (⟨scanner.state.step marker, number⟩, scanner.state.emit? number marker)

end Scanner

end RegionOutline
