/-! # Settings

Preferences that outlast a session. -/

namespace RegionOutline

structure Settings where
  /-- Rows kept above the focused row after a scroll. -/
  entriesAbove : Nat := 17
  /-- Quiet time, in milliseconds, after which a change of the file is settled. -/
  debounceMs : Nat := 250
  /-- Rows that the terminal shows at once. -/
  visibleRows : Nat := 40
  showLineNumbers : Bool := true
  /-- Colours in terminal output. -/
  color : Bool := true
  deriving DecidableEq

end RegionOutline
