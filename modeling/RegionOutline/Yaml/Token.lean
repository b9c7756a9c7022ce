import RegionOutline.Yaml.Scalar
import RegionOutline.Yaml.Tag

/-! # Tokens

The tokens of a YAML text. Indentation opens and closes block collections; a
scalar or collection turns into a mapping key when a colon follows it on the
same line, so the tokens that mark a key are put in front of it afterwards. -/

namespace RegionOutline.Yaml

/-- How a scalar is written. -/
inductive ScalarStyle where
  | plain
  | quoted
  /-- A block that keeps its line breaks. -/
  | literal
  /-- A block that joins its lines. -/
  | folded
  deriving DecidableEq

inductive Token where
  | directive (directive : Directive)
  | documentStart
  | documentEnd
  | blockSequenceStart
  | blockMappingStart
  | blockEnd
  | flowSequenceStart
  | flowSequenceEnd
  | flowMappingStart
  | flowMappingEnd
  | blockEntry
  | flowEntry
  | key
  | value
  | anchor (name : String)
  | aliasOf (name : String)
  | tag (written : WrittenTag)
  | scalar (text : String) (style : ScalarStyle)
  deriving DecidableEq

/-- Something that may turn out to be a key. -/
structure KeyCandidate where
  line : Nat
  offset : Nat
  column : Nat
  /-- Number of tokens in front of it. -/
  before : Nat
  /-- Whether nothing but a key can stand here. -/
  required : Bool
  deriving DecidableEq

/-- The state of the scan between two tokens. -/
structure Layout where
  tokens : Array Token := #[]
  /-- Columns of the open block collections, the innermost first. -/
  blocks : List Nat := []
  /-- Key candidates outside the open flow collections, the innermost first. -/
  flows : List (Option KeyCandidate) := []
  candidate : Option KeyCandidate := none
  /-- Whether a key may start here. -/
  keyAllowed : Bool := true

namespace Layout

def inFlow (layout : Layout) : Bool := !layout.flows.isEmpty

/-- The least column of a continuation line. -/
def leastColumn (layout : Layout) : Nat :=
  match layout.blocks with
  | [] => 0
  | column :: _ => column + 1

def emit (layout : Layout) (token : Token) : Layout :=
  { layout with tokens := layout.tokens.push token }

def allowKey (layout : Layout) (allowed : Bool) : Layout :=
  { layout with keyAllowed := allowed }

/-- Put tokens in front of a position. -/
def insertAt (layout : Layout) (position : Nat) (tokens : List Token) : Layout :=
  { layout with
    tokens := layout.tokens.extract 0 position ++ tokens.toArray
      ++ layout.tokens.extract position }

/-- Give up the key candidate, which fails where a key is required. -/
def dropCandidate? (layout : Layout) : Option Layout :=
  if layout.candidate.any (·.required) then none else some { layout with candidate := none }

/-- Note that a key may start at a place. -/
def saveCandidate? (layout : Layout) (spot : Spot) : Option Layout :=
  if layout.keyAllowed then
    layout.dropCandidate?.map fun layout =>
      { layout with
        candidate := some {
          line := spot.line
          offset := spot.offset
          column := spot.column
          before := layout.tokens.size
          required := !layout.inFlow && layout.blocks.head? == some spot.column } }
  else some layout

/-- The greatest distance between the start of a key and its colon. -/
def keyLimit : Nat := 1024

/-- A candidate is stale on another line, or too far on. -/
def isStale (spot : Spot) (candidate : KeyCandidate) : Bool :=
  candidate.line < spot.line || candidate.offset + keyLimit < spot.offset

/-- Give up stale candidates of all levels. -/
def dropStale? (layout : Layout) (spot : Spot) : Option Layout :=
  let overdue (candidate : Option KeyCandidate) : Bool :=
    candidate.any fun candidate => isStale spot candidate && candidate.required
  let keep (candidate : Option KeyCandidate) : Option KeyCandidate :=
    candidate.filter (!isStale spot ·)
  if overdue layout.candidate || layout.flows.any overdue then none
  else some { layout with candidate := keep layout.candidate, flows := layout.flows.map keep }

/-- Close the block collections beyond a column. -/
def closeBeyond (layout : Layout) (column : Nat) : Layout :=
  if layout.inFlow then layout
  else
    let closed := layout.blocks.takeWhile (column < ·)
    { layout with
      blocks := layout.blocks.drop closed.length
      tokens := layout.tokens ++ (closed.map fun _ => Token.blockEnd).toArray }

/-- Close all block collections. -/
def closeAll (layout : Layout) : Layout :=
  if layout.inFlow then layout
  else
    { layout with
      blocks := []
      tokens := layout.tokens ++ (layout.blocks.map fun _ => Token.blockEnd).toArray }

/-- Whether a block collection has to be opened to reach a column. -/
def opensAt (layout : Layout) (column : Nat) : Bool :=
  !layout.inFlow && layout.blocks.head?.all (· < column)

/-- Open a block collection at a column, if it is deeper than the innermost. -/
def openBlock (layout : Layout) (column : Nat) (token : Token) : Layout :=
  if layout.opensAt column then
    { layout.emit token with blocks := column :: layout.blocks }
  else layout

/-- A directive, or a line that starts or ends a document. -/
def documentMarker? (layout : Layout) (token : Token) : Option Layout := do
  return ((← layout.closeAll.dropCandidate?).allowKey false).emit token

def openFlow? (layout : Layout) (spot : Spot) (token : Token) : Option Layout := do
  let layout ← layout.saveCandidate? spot
  return { (layout.allowKey true).emit token with
    flows := layout.candidate :: layout.flows
    candidate := none }

def closeFlow? (layout : Layout) (token : Token) : Option Layout := do
  let layout ← layout.dropCandidate?
  let layout := match layout.flows with
    | [] => layout
    | outer :: flows => { layout with flows, candidate := outer }
  return (layout.allowKey false).emit token

def flowEntry? (layout : Layout) : Option Layout := do
  return ((← layout.dropCandidate?).allowKey true).emit .flowEntry

/-- The dash of a block sequence. -/
def blockEntry? (layout : Layout) (spot : Spot) : Option Layout := do
  let layout ←
    if layout.inFlow then some layout
    else if layout.keyAllowed then some (layout.openBlock spot.column .blockSequenceStart)
    else none
  return ((← layout.dropCandidate?).allowKey true).emit .blockEntry

/-- The question mark of an explicit key. -/
def explicitKey? (layout : Layout) (spot : Spot) : Option Layout := do
  let layout ←
    if layout.inFlow then some layout
    else if layout.keyAllowed then some (layout.openBlock spot.column .blockMappingStart)
    else none
  return ((← layout.dropCandidate?).allowKey !layout.inFlow).emit .key

/-- The colon after a key. With a candidate the key is marked in front of it. -/
def value? (layout : Layout) (spot : Spot) : Option Layout :=
  match layout.candidate with
  | some candidate =>
      let opened : Layout :=
        if layout.opensAt candidate.column then
          { layout.insertAt candidate.before [.blockMappingStart, .key] with
            blocks := candidate.column :: layout.blocks }
        else layout.insertAt candidate.before [.key]
      some (({ opened with candidate := none }.allowKey false).emit .value)
  | none =>
      if layout.inFlow then some ((layout.allowKey false).emit .value)
      else if layout.keyAllowed then
        some (((layout.openBlock spot.column .blockMappingStart).allowKey true).emit .value)
      else none

end Layout

/-- Skip blanks, comments and line breaks up to the next token. In a block a new
line allows a key, and a tab in front of a possible key is no blank. A line may
start with a byte order mark. -/
def skipToToken (inFlow : Bool) : Bool → Bool → List Spot → Bool × List Spot
  | keyAllowed, _, [] => (keyAllowed, [])
  | keyAllowed, inComment, spot :: rest =>
      if isBreak spot.char then skipToToken inFlow (keyAllowed || !inFlow) false rest
      else if inComment || spot.char == ' ' || (spot.char == '\t' && (inFlow || !keyAllowed))
          || (spot.column == 0 && spot.char == '\uFEFF') then
        skipToToken inFlow keyAllowed inComment rest
      else if spot.char == '#' then skipToToken inFlow keyAllowed true rest
      else (keyAllowed, spot :: rest)

/-- Characters other than blanks that may follow a name. -/
def endsName (c : Char) : Bool :=
  ['?', ':', ',', ']', '}', '%', '@', '\x60'].contains c

/-- The name of an anchor or alias. -/
def name? (spots : List Spot) : Option (String × List Spot) :=
  let name := (spots.takeWhile fun spot => isNameChar spot.char).map Spot.char
  let rest := spots.dropWhile fun spot => isNameChar spot.char
  let ended := atGap rest || rest.head?.any fun spot => endsName spot.char
  if !name.isEmpty && ended then some (String.ofList name, rest) else none

/-- Characters that start no plain scalar. -/
def isIndicator (c : Char) : Bool :=
  ['-', '?', ':', ',', '[', ']', '{', '}', '#', '&', '*', '!', '|', '>', '\x27', '"', '%', '@',
    '\x60'].contains c

namespace Layout

/-- Scan the scalar that starts here. -/
def scalarToken? (layout : Layout) (spot : Spot) (rest : List Spot) :
    Option (Layout × List Spot) := do
  let c := spot.char
  if (c == '|' || c == '>') && !layout.inFlow then
    let layout ← layout.dropCandidate?
    let (text, rest) ← block? (c == '>') layout.blocks.head? rest
    let style := if c == '>' then .folded else .literal
    return ((layout.allowKey true).emit (.scalar (String.ofList text) style), rest)
  else if c == '\x27' || c == '"' then
    let layout ← layout.saveCandidate? spot
    let (text, rest) ← quoted? (c == '\x27') rest
    return ((layout.allowKey false).emit (.scalar (String.ofList text) .quoted), rest)
  else if !isIndicator c && !isBlank c || c == '-' && !atGap rest
      || !layout.inFlow && (c == '?' || c == ':') && !atGap rest then
    let layout ← layout.saveCandidate? spot
    let (text, ended, rest) ← plain? layout.inFlow layout.leastColumn (spot :: rest)
    return ((layout.allowKey ended).emit (.scalar (String.ofList text) .plain), rest)
  else none

/-- Scan the token that starts here. -/
def token? (layout : Layout) (spot : Spot) (rest : List Spot) : Option (Layout × List Spot) := do
  let spots := spot :: rest
  if spot.column == 0 && spot.char == '%' then
    let (directive, rest) ← directive? rest
    return (← layout.documentMarker? (.directive directive), rest)
  if atTriple '-' spots then return (← layout.documentMarker? .documentStart, rest.drop 2)
  if atTriple '.' spots then return (← layout.documentMarker? .documentEnd, rest.drop 2)
  match spot.char with
  | '[' => return (← layout.openFlow? spot .flowSequenceStart, rest)
  | '{' => return (← layout.openFlow? spot .flowMappingStart, rest)
  | ']' => return (← layout.closeFlow? .flowSequenceEnd, rest)
  | '}' => return (← layout.closeFlow? .flowMappingEnd, rest)
  | ',' => return (← layout.flowEntry?, rest)
  | '*' =>
      let layout ← layout.saveCandidate? spot
      let (name, rest) ← name? rest
      return ((layout.allowKey false).emit (.aliasOf name), rest)
  | '&' =>
      let layout ← layout.saveCandidate? spot
      let (name, rest) ← name? rest
      return ((layout.allowKey false).emit (.anchor name), rest)
  | '!' =>
      let layout ← layout.saveCandidate? spot
      let (written, rest) ← tag? layout.inFlow rest
      return ((layout.allowKey false).emit (.tag written), rest)
  | c =>
      if c == '-' && atGap rest then return (← layout.blockEntry? spot, rest)
      else if c == '?' && (layout.inFlow || atGap rest) then
        return (← layout.explicitKey? spot, rest)
      else if c == ':' && (layout.inFlow || atGap rest) then return (← layout.value? spot, rest)
      else layout.scalarToken? spot rest

/-- Scan to the end of the text. Each token takes at least one character, so the
length of the text is fuel enough. -/
def scan? : Nat → Layout → List Spot → Option Layout
  | 0, _, _ => none
  | fuel + 1, layout, spots =>
      match skipToToken layout.inFlow layout.keyAllowed false spots with
      | (_, []) => layout.closeAll.dropCandidate?
      | (keyAllowed, spot :: rest) => do
          let layout ← (layout.allowKey keyAllowed).dropStale? spot
          let (layout, rest) ← (layout.closeBeyond spot.column).token? spot rest
          scan? fuel layout rest

end Layout

/-- The tokens of a text. -/
def tokens? (text : List Char) : Option (List Token) := do
  let spots ← spots? text
  return (← Layout.scan? (spots.length + 1) {} spots).tokens.toList

end RegionOutline.Yaml
