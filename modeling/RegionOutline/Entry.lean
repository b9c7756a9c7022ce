import RegionOutline.Kind.Appearance

/-! # Outline entries

One row of the outline, keyed by the document line at which it starts. -/

namespace RegionOutline

structure Entry where
  /-- Document line, counted from one. -/
  line : Nat
  kind : Kind
  /-- Label of a container, name of an item, the marker's text when it is not
  recognised, and empty for an access block. -/
  text : String
  /-- Visual depth. -/
  indent : Nat
  /-- Access level in force where the entry was made. -/
  access : Option Access
  deriving DecidableEq

namespace Entry

/-- Deeper nesting is shown at this depth. -/
def maxIndent : Nat := 4

/-- Bring a depth, which may be negative, into the range shown. -/
def clampIndent (depth : Int) : Nat :=
  min depth.toNat maxIndent

/-- An entry at a depth as the scanner counts it. -/
def atDepth (line : Nat) (kind : Kind) (text : String) (depth : Int) (access : Option Access) :
    Entry :=
  ⟨line, kind, text, clampIndent depth, access⟩

/-- The label shown for an entry. -/
def label (entry : Entry) : String :=
  match entry.kind.appearance.label with
  | .fixed text => text
  | .ofEntry => entry.text

theorem clampIndent_le (depth : Int) : clampIndent depth ≤ maxIndent :=
  Nat.min_le_right _ _

end Entry

end RegionOutline
