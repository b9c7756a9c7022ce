import RegionOutline.Access
import RegionOutline.Text.Blank
import RegionOutline.Text.Word

/-! # Marker lines

The lines that shape an outline: bare access specifiers, region openers of the
access and of the plain style, and region closers. Every other line is ordinary
code. -/

namespace RegionOutline

inductive Marker where
  /-- A bare access specifier such as `public:`. -/
  | specifier (level : Access)
  /-- A region whose tag starts with an access keyword. -/
  | openAccess (level : Access)
  /-- Any other region. -/
  | openRegion (tag description : String)
  | close
  deriving DecidableEq

namespace Marker

open Text

/-- The rest of a line after `#pragma` and the given word, with blanks in front
of both. -/
def afterPragma? (word : String) (line : List Char) : Option (List Char) := do
  let rest ← stripStart? "#pragma".toList (skipBlanks line)
  let rest ← skipSomeBlanks? rest
  stripStart? word.toList rest

/-- The keyword of the level, a colon and nothing else but blanks. -/
def isSpecifier (line : List Char) (level : Access) : Bool :=
  match stripStart? level.keyword.toList (skipBlanks line) with
  | none => false
  | some rest =>
      match skipBlanks rest with
      | ':' :: rest => rest.all isBlank
      | _ => false

/-- The level of a bare specifier. -/
def specifier? (line : List Char) : Option Access :=
  Access.all.find? (isSpecifier line)

/-- The tag of a region and what follows it on the same line. -/
def region? (line : List Char) : Option (List Char × List Char) := do
  let rest ← afterPragma? "region" line
  match ← skipSomeBlanks? rest with
  | [] => none
  | c :: rest =>
      let tagged := c :: rest
      let description := skipBlanks (tagged.dropWhile (!isBlank ·))
      some (tagged.takeWhile (!isBlank ·), description.takeWhile (· != '\n'))

/-- The access level whose keyword a tag starts with, in either case. -/
def accessOfTag? (tag : List Char) : Option Access :=
  Access.all.find? fun level => startsIgnoringCase level.keyword.toList tag

/-- `#pragma endregion` with nothing else but blanks. -/
def isClose (line : List Char) : Bool :=
  match afterPragma? "endregion" line with
  | none => false
  | some rest => rest.all isBlank

/-- The marker on a line, if there is one. -/
def ofLine? (line : List Char) : Option Marker :=
  match specifier? line with
  | some level => some (.specifier level)
  | none =>
      match region? line with
      | some (tag, description) =>
          match accessOfTag? tag with
          | some level => some (.openAccess level)
          | none => some (.openRegion (String.ofList tag) (String.ofList description))
      | none => if isClose line then some .close else none

end Marker

end RegionOutline
