import RegionOutline.Entry
import RegionOutline.Settings
import RegionOutline.Text.Decimal

/-! # The view

The rows last published together with a scroll position and a highlighted row,
and their rendering as text. Calls with positions beyond the rows are clamped. -/

namespace RegionOutline

structure ViewOptions where
  showLineNumbers : Bool := true
  color : Bool := true
  /-- Rows shown from the first visible one on; none shows them all. -/
  rows : Option Nat := none
  deriving DecidableEq

namespace ViewOptions

def ofSettings (settings : Settings) : ViewOptions :=
  { showLineNumbers := settings.showLineNumbers, color := settings.color }

end ViewOptions

structure View where
  entries : List Entry := []
  firstVisible : Nat := 0
  focused : Option Nat := none
  /-- Number of publications. -/
  generation : Nat := 0
  options : ViewOptions := {}
  deriving DecidableEq

/-- What a view can be told. -/
inductive ViewCall where
  | publish (entries : List Entry)
  | scrollTo (first : Nat)
  | focus (row : Option Nat)
  deriving DecidableEq

namespace View

/-- Replace the rows. Old positions mean nothing against new rows, so the
highlight goes, and a scroll position beyond them starts over. -/
def publish (view : View) (entries : List Entry) : View :=
  { view with
    entries
    generation := view.generation + 1
    focused := none
    firstVisible := if entries.length ≤ view.firstVisible then 0 else view.firstVisible }

def scrollTo (view : View) (first : Nat) : View :=
  { view with firstVisible := min first (view.entries.length - 1) }

/-- Highlight a row that exists, or none. -/
def focus (view : View) (row : Option Nat) : View :=
  { view with focused := row.filter (· < view.entries.length) }

def apply (view : View) : ViewCall → View
  | .publish entries => view.publish entries
  | .scrollTo first => view.scrollTo first
  | .focus row => view.focus row

/-- The rows in the viewport with their positions. -/
def visible (view : View) : List (Nat × Entry) :=
  let rows := (view.entries.zipIdx.map Prod.swap).drop view.firstVisible
  match view.options.rows with
  | none => rows
  | some count => rows.take count

/-- A line number, right-aligned in six columns, and a space. -/
def lineNumber (line : Nat) : List Char :=
  let digits := Text.decimal line
  List.replicate (6 - digits.length) ' ' ++ digits ++ [' ']

/-- The icon and the label. -/
def body (entry : Entry) : List Char :=
  entry.kind.appearance.icon.glyph :: ' ' :: entry.label.toList

/-- One row: focus mark, line number, indent, then the body, which is coloured
when colours are on. -/
def row (options : ViewOptions) (focused : Bool) (entry : Entry) : List Char :=
  let mark := if focused then '>' else ' '
  let number := if options.showLineNumbers then lineNumber entry.line else []
  let indent := List.replicate (2 * entry.indent) ' '
  let body :=
    if options.color then
      entry.kind.appearance.color.escape.toList ++ body entry ++ Color.reset.toList
    else body entry
  mark :: (number ++ indent ++ body)

/-- The viewport as text, one row to a line. -/
def text (view : View) : String :=
  String.ofList <| view.visible.flatMap fun (position, entry) =>
    row view.options (view.focused == some position) entry ++ ['\n']

end View

end RegionOutline
