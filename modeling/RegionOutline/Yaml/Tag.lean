import RegionOutline.Text.Decimal
import RegionOutline.Yaml.Spot

/-! # Tags and directives

A tag names the type of a node. It is written in full between angle brackets, or
as a handle and a suffix, where the handle stands for what a directive or the
language lets it stand for. Percent escapes may spell any octets, so tags are
octets and not characters. -/

namespace RegionOutline.Yaml

abbrev Tag := List UInt8

namespace Tag

def ofText (text : String) : Tag :=
  text.toUTF8.toList

/-- The tag that leaves the type of a node open. -/
def unspecific : Tag := ofText "!"

/-- What the tags of the core types start with. -/
def corePart : Tag := ofText "tag:yaml.org,2002:"

/-- The tag of a core type. -/
def core (name : String) : Tag := corePart ++ ofText name

end Tag

/-- A tag as it is written. -/
structure WrittenTag where
  /-- Empty when the suffix is the whole tag. -/
  handle : String
  suffix : Tag
  deriving DecidableEq

/-- What stands for what: handles and the starts of their tags. -/
abbrev Handles := List (String × Tag)

namespace WrittenTag

/-- The handles that need no directive. -/
def knownHandles : Handles :=
  [("!", Tag.unspecific), ("!!", Tag.corePart)]

/-- The whole tag, unless the handle stands for nothing. -/
def expand? (handles : Handles) (written : WrittenTag) : Option Tag :=
  if written.handle = "" then some written.suffix
  else (handles.lookup written.handle).map (· ++ written.suffix)

end WrittenTag

/-! ## Reading tags -/

/-- Characters of tags. Those of flow collections count only where the tag has an
end of its own. -/
def isTagChar (enclosed : Bool) (c : Char) : Bool :=
  isNameChar c || [';', '/', '?', ':', '@', '&', '=', '+', '$', '.', '%', '!', '~', '*', '\x27',
    '(', ')'].contains c || enclosed && [',', '[', ']'].contains c

/-- One octet, written as a percent sign and two hexadecimal digits. -/
def octet? : List Spot → Option (Nat × List Spot)
  | sign :: high :: low :: rest =>
      if sign.char == '%' then (Text.numeral? 16 [high.char, low.char]).map (·, rest) else none
  | _ => none

/-- How many octets a character has, told by the first of them. -/
def octetCount? (first : Nat) : Option Nat :=
  if first < 0x80 then some 1
  else if 0xC0 ≤ first ∧ first < 0xE0 then some 2
  else if 0xE0 ≤ first ∧ first < 0xF0 then some 3
  else if 0xF0 ≤ first ∧ first < 0xF8 then some 4
  else none

/-- The octets of a character after the first. -/
def furtherOctets? : Nat → List Spot → Option (Tag × List Spot)
  | 0, spots => some ([], spots)
  | count + 1, spots => do
      let (octet, rest) ← octet? spots
      if 0x80 ≤ octet ∧ octet < 0xC0 then
        let (octets, rest) ← furtherOctets? count rest
        return (UInt8.ofNat octet :: octets, rest)
      else none

/-- The escaped octets of one character. -/
def escapedChar? (spots : List Spot) : Option (Tag × List Spot) := do
  let (first, rest) ← octet? spots
  let (octets, rest) ← furtherOctets? ((← octetCount? first) - 1) rest
  return (UInt8.ofNat first :: octets, rest)

/-- The characters of a tag from here on. Each takes at least one place, so the
length of the text is fuel enough. -/
def tagChars? (enclosed : Bool) : Nat → List Spot → Option (Tag × List Spot)
  | 0, spots => some ([], spots)
  | _, [] => some ([], [])
  | fuel + 1, spot :: rest =>
      if !isTagChar enclosed spot.char then some ([], spot :: rest)
      else do
        let (octets, rest) ←
          if spot.char == '%' then escapedChar? (spot :: rest)
          else some ([UInt8.ofNat spot.char.toNat], rest)
        let (more, rest) ← tagChars? enclosed fuel rest
        return (octets ++ more, rest)

/-- A part of a tag that may be empty. A zero octet ends it. -/
def tagPart? (enclosed : Bool) (start : Tag) (spots : List Spot) : Option (Tag × List Spot) := do
  let (octets, rest) ← tagChars? enclosed spots.length spots
  return ((start ++ octets).takeWhile (· != 0), rest)

/-- A part of a tag with at least one character. -/
def someTagPart? (enclosed : Bool) (spots : List Spot) : Option (Tag × List Spot) :=
  if spots.head?.any (isTagChar enclosed ·.char) then tagPart? enclosed [] spots else none

/-- A name after an exclamation mark, and the rest. -/
def handleName (spots : List Spot) : String × List Spot :=
  (String.ofList ((spots.takeWhile fun spot => isNameChar spot.char).map Spot.char),
    spots.dropWhile fun spot => isNameChar spot.char)

/-- The forms of a tag, after its exclamation mark: in full, with a handle, or
with the mark itself as the handle. The mark alone is the unspecific tag. -/
def tagForm? (spots : List Spot) : Option (WrittenTag × List Spot) :=
  if startsWith '<' spots then do
    let (tag, rest) ← someTagPart? true (spots.drop 1)
    if startsWith '>' rest then some (⟨"", tag⟩, rest.drop 1) else none
  else
    let (name, rest) := handleName spots
    if startsWith '!' rest then do
      let (suffix, rest) ← someTagPart? false (rest.drop 1)
      return (⟨"!" ++ name ++ "!", suffix⟩, rest)
    else do
      let (suffix, rest) ← tagPart? false (Tag.ofText name) rest
      return (if suffix.isEmpty then ⟨"", Tag.unspecific⟩ else ⟨"!", suffix⟩, rest)

/-- A tag after its exclamation mark. A gap follows it, or a comma in a flow
collection. -/
def tag? (inFlow : Bool) (spots : List Spot) : Option (WrittenTag × List Spot) := do
  let (written, rest) ← tagForm? spots
  if atGap rest || inFlow && startsWith ',' rest then some (written, rest) else none

/-! ## Reading directives -/

inductive Directive where
  /-- The version of the language. -/
  | version (major minor : Nat)
  /-- What a handle stands for. -/
  | handle (name : String) (expansion : Tag)
  deriving DecidableEq

/-- Longer numbers are not read. -/
def maxVersionDigits : Nat := 9

def versionNumber? (spots : List Spot) : Option (Nat × List Spot) := do
  let digits := (spots.takeWhile fun spot => spot.char.isDigit).map Spot.char
  if digits.length ≤ maxVersionDigits then
    return (← Text.numeral? 10 digits, spots.drop digits.length)
  else none

/-- Two numbers with a point between them. -/
def version? (spots : List Spot) : Option (Directive × List Spot) := do
  let (major, rest) ← versionNumber? spots
  if startsWith '.' rest then
    let (minor, rest) ← versionNumber? (rest.drop 1)
    return (.version major minor, rest)
  else none

/-- A handle, blanks and what it stands for. -/
def handleDirective? (spots : List Spot) : Option (Directive × List Spot) :=
  if startsWith '!' spots then do
    let (name, rest) := handleName (spots.drop 1)
    let (handle, rest) ←
      if startsWith '!' rest then some ("!" ++ name ++ "!", rest.drop 1)
      else if name = "" then some ("!", rest)
      else none
    if rest.head?.any (isBlank ·.char) then
      let (expansion, rest) ← someTagPart? true (skipBlanks rest)
      if atGap rest then some (.handle handle expansion, rest) else none
    else none
  else none

/-- A directive after its percent sign, together with the rest of its line. There
are two of them. -/
def directive? (spots : List Spot) : Option (Directive × List Spot) := do
  let (name, rest) := handleName spots
  let (directive, rest) ←
    if !atGap rest then none
    else if name = "YAML" then version? (skipBlanks rest)
    else if name = "TAG" then handleDirective? (skipBlanks rest)
    else none
  return (directive, ← lineEnd? rest)

end RegionOutline.Yaml
