import RegionOutline.Files
import RegionOutline.Text.Lines

/-! # Documents

A text with a caret, possibly kept in a file. A closed document still holds its
text but no longer tells about it. -/

namespace RegionOutline

structure Document where
  content : String := ""
  path : Option Path := none
  /-- Caret line, counted from one. -/
  caretLine : Nat := 1
  isOpen : Bool := true
  deriving DecidableEq

namespace Document

/-- A document of a file's text, with the caret on the first line. -/
def ofFile (files : FileTree) (path : Path) : Except FileError Document := do
  return { content := ← files.readText path, path := some path }

/-- Read the file again, if there is one, and leave the caret where it is. -/
def reload (document : Document) (files : FileTree) : Except FileError Document :=
  match document.path with
  | none => .ok document
  | some path => do return { document with content := ← files.readText path }

def setText (document : Document) (content : String) : Document :=
  { document with content }

/-- Put a block in front of a line of the text, or at the end when there is no
such line. -/
def insertLines (line : Nat) (block text : List Char) : List Char :=
  let lines := Text.documentLines text
  if line - 1 < lines.length then
    (lines.take (line - 1)).flatten ++ block ++ (lines.drop (line - 1)).flatten
  else text ++ block

def insertAtLine (document : Document) (line : Nat) (block : String) : Document :=
  { document with
    content := String.ofList (insertLines line block.toList document.content.toList) }

/-- Move the caret; there is no line before the first. -/
def setCaret (document : Document) (line : Nat) : Document :=
  { document with caretLine := max line 1 }

def close (document : Document) : Document :=
  { document with isOpen := false }

def text? (document : Document) : Option String :=
  if document.isOpen then some document.content else none

def line? (document : Document) : Option Nat :=
  if document.isOpen then some document.caretLine else none

def lineCount? (document : Document) : Option Nat :=
  if document.isOpen then some (Text.documentLines document.content.toList).length else none

end Document

/-- A host that may be unable to tell the text, the caret line or the number of
lines of its document. -/
structure Host where
  document : Document := {}
  hidesText : Bool := false
  hidesLine : Bool := false
  hidesCount : Bool := false
  deriving DecidableEq

namespace Host

def text? (host : Host) : Option String :=
  if host.hidesText then none else host.document.text?

def line? (host : Host) : Option Nat :=
  if host.hidesLine then none else host.document.line?

def lineCount? (host : Host) : Option Nat :=
  if host.hidesCount then none else host.document.lineCount?

def moveCaret (host : Host) (line : Nat) : Host :=
  { host with document := host.document.setCaret line }

end Host

end RegionOutline
