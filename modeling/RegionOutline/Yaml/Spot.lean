/-! # Positioned text

YAML gives meaning to columns and lines, so a text is first turned into
characters that know their place. Line breaks of every style become a line feed,
apart from the two Unicode separators, which stay. -/

namespace RegionOutline.Yaml

/-- A character with its line and column, both counted from zero. -/
structure Spot where
  char : Char
  line : Nat
  column : Nat
  /-- Octets of the text in front of it. -/
  offset : Nat
  deriving DecidableEq

def isBreak (c : Char) : Bool :=
  c == '\n' || c == '\u2028' || c == '\u2029'

/-- A space or a tab. -/
def isBlank (c : Char) : Bool :=
  c == ' ' || c == '\t'

/-- Characters of names: anchors, directives and the handles of tags. -/
def isNameChar (c : Char) : Bool :=
  c.isAlphanum || c == '_' || c == '-'

/-- Write CR, CRLF and NEL as LF. -/
def unifyBreaks : List Char → List Char
  | [] => []
  | '\r' :: '\n' :: rest => '\n' :: unifyBreaks rest
  | c :: rest => (if c = '\r' ∨ c = '\x85' then '\n' else c) :: unifyBreaks rest

/-- Characters that a text may hold: no control characters but tab and line
breaks, and no noncharacters at the end of the basic plane. -/
def isAllowed (c : Char) : Bool :=
  let n := c.toNat
  n == 0x09 || n == 0x0A || n == 0x0D || (0x20 ≤ n && n ≤ 0x7E) || n == 0x85
    || (0xA0 ≤ n && n ≤ 0xFFFD) || 0x10000 ≤ n

/-- Place characters from a position on. -/
def locate (line column offset : Nat) : List Char → List Spot
  | [] => []
  | c :: rest =>
      ⟨c, line, column, offset⟩ ::
        if isBreak c then locate (line + 1) 0 (offset + c.utf8Size) rest
        else locate line (column + 1) (offset + c.utf8Size) rest

/-- The characters of a text in their places. -/
def spots? (text : List Char) : Option (List Spot) :=
  if text.all isAllowed then some (locate 0 0 0 (unifyBreaks text)) else none

/-- Whether a blank, a line break or the end comes next. -/
def atGap : List Spot → Bool
  | [] => true
  | spot :: _ => isBlank spot.char || isBreak spot.char

/-- Skip blanks on a line. -/
def skipBlanks (spots : List Spot) : List Spot :=
  spots.dropWhile fun spot => isBlank spot.char

/-- Skip blanks and a comment up to the end of the line, which must come then. -/
def lineEnd? (spots : List Spot) : Option (List Spot) :=
  let rest := skipBlanks spots
  let rest :=
    if rest.head?.any (·.char == '#') then rest.dropWhile fun spot => !isBreak spot.char
    else rest
  match rest with
  | [] => some []
  | spot :: rest => if isBreak spot.char then some rest else none

/-- Whether the given character comes next. -/
def startsWith (c : Char) : List Spot → Bool
  | [] => false
  | spot :: _ => spot.char == c

/-- Whether a line starts here with three times the given character and then
nothing or a gap. -/
def atTriple (c : Char) : List Spot → Bool
  | a :: b :: d :: rest =>
      a.column == 0 && a.char == c && b.char == c && d.char == c && atGap rest
  | _ => false

/-- Whether a line that starts or ends a document begins here. -/
def atDocumentMarker (spots : List Spot) : Bool :=
  atTriple '-' spots || atTriple '.' spots

end RegionOutline.Yaml
