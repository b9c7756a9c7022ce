import RegionOutline.Session

/-! # Messages and commands

What a session reacts to, and what it asks to be done in return. -/

namespace RegionOutline

inductive Message where
  /-- Rebuild from a text; none when the host had no text to offer. -/
  | rebuild (source : Option String)
  /-- The document closes. -/
  | close
  /-- The caret is on a line; none when the host could not tell. -/
  | caretMoved (line : Option Nat)
  /-- The row of a line was activated in a document of so many lines. -/
  | entryActivated (line : Nat) (documentLines : Option Nat)
  /-- A scan has ended. -/
  | scanCompleted (revision : Nat) (token : Token) (entries : List Entry)
  deriving DecidableEq

inductive Command where
  /-- Do nothing. -/
  | nothing
  /-- Scan a text aside and report back unless the token is cancelled first. -/
  | runScan (revision : Nat) (source : String) (token : Token)
  /-- Show the rows of the index. -/
  | publish
  /-- Ask the host for the caret and scroll to it. -/
  | scrollToCaret
  | scroll (scroll : Scroll)
  /-- Highlight a row without scrolling. -/
  | focus (row : Option Nat)
  /-- Have the host move its caret. -/
  | navigateTo (line : Nat)
  /-- Do one command after the other. -/
  | batch (commands : List Command)

namespace Command

mutual

/-- Whether the command reaches the view once it is carried out. A scan does so
only later, through its result. -/
def touchesView : Command → Bool
  | .publish | .scrollToCaret | .scroll _ | .focus _ => true
  | .nothing | .runScan _ _ _ | .navigateTo _ => false
  | .batch commands => anyTouchesView commands

def anyTouchesView : List Command → Bool
  | [] => false
  | command :: rest => touchesView command || anyTouchesView rest

end

end Command

end RegionOutline
