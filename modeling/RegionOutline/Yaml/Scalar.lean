import RegionOutline.Text.Decimal
import RegionOutline.Yaml.Spot

/-! # Scalars

The three ways to write a scalar: plain, in quotes, or as an indented block. Each
reader takes the scalar off the front of a positioned text. -/

namespace RegionOutline.Yaml

/-- The space between two words of a scalar: blanks on one line, or line breaks.
Both lists are kept in reverse. -/
structure Gap where
  blanks : List Char := []
  /-- Whether a line has ended in the gap. -/
  broken : Bool := false
  /-- The line break that ended the first line, unless it was escaped. -/
  firstBreak : Option Char := none
  breaks : List Char := []

namespace Gap

/-- What a gap contributes to the scalar: a single line feed becomes a space. -/
def fold (gap : Gap) : List Char :=
  if gap.broken then
    match gap.firstBreak with
    | some '\n' => if gap.breaks.isEmpty then [' '] else gap.breaks.reverse
    | some c => c :: gap.breaks.reverse
    | none => gap.breaks.reverse
  else gap.blanks.reverse

/-- Read blanks and line breaks. On a new line no tab may stand before the given
column. -/
def read? (column : Nat) : Gap → List Spot → Option (Gap × List Spot)
  | gap, [] => some (gap, [])
  | gap, spot :: rest =>
      if isBlank spot.char then
        if !gap.broken then read? column { gap with blanks := spot.char :: gap.blanks } rest
        else if spot.char == '\t' && spot.column < column then none
        else read? column gap rest
      else if isBreak spot.char then
        if gap.broken then read? column { gap with breaks := spot.char :: gap.breaks } rest
        else read? column { broken := true, firstBreak := some spot.char } rest
      else some (gap, spot :: rest)

end Gap

/-! ## Plain scalars -/

/-- Characters that end a plain scalar inside a flow collection. -/
def isFlowEnd (c : Char) : Bool :=
  [',', '[', ']', '{', '}'].contains c

/-- A run of a plain scalar without gaps. A colon ends it before a gap. -/
def plainRun? (inFlow : Bool) : List Spot → Option (List Char × List Spot)
  | [] => some ([], [])
  | spot :: rest =>
      if atGap (spot :: rest) then some ([], spot :: rest)
      else if inFlow && spot.char == ':'
          && (rest.head?.map fun next => next.char == '?' || isFlowEnd next.char).getD false then
        none
      else if (spot.char == ':' && atGap rest) || (inFlow && isFlowEnd spot.char) then
        some ([], spot :: rest)
      else (plainRun? inFlow rest).map fun (run, rest) => (spot.char :: run, rest)

/-- Continue a plain scalar after the text, in reverse, and the gap read so far.
Continuation lines start at the given column or beyond. The flag tells whether
the scalar ended with a line. -/
def plainFrom? (inFlow : Bool) (column : Nat) :
    Nat → List Char → Gap → List Spot → Option (List Char × Bool × List Spot)
  | 0, text, gap, spots => some (text.reverse, gap.broken, spots)
  | fuel + 1, text, gap, spots =>
      if atDocumentMarker spots || startsWith '#' spots then
        some (text.reverse, gap.broken, spots)
      else do
        let (run, rest) ← plainRun? inFlow spots
        if run.isEmpty then some (text.reverse, gap.broken, spots)
        else
          let text := (gap.fold ++ run).reverseAux text
          let (gap, rest) ← Gap.read? column {} rest
          match rest with
          | [] => some (text.reverse, gap.broken, [])
          | spot :: _ =>
              if !inFlow && gap.broken && spot.column < column then
                some (text.reverse, gap.broken, rest)
              else plainFrom? inFlow column fuel text gap rest

def plain? (inFlow : Bool) (column : Nat) (spots : List Spot) :
    Option (List Char × Bool × List Spot) :=
  plainFrom? inFlow column spots.length [] {} spots

/-! ## Quoted scalars -/

/-- The character of a one-letter escape. -/
def shortEscape? : Char → Option Char
  | '0' => some '\x00'
  | 'a' => some '\x07'
  | 'b' => some '\x08'
  | 't' => some '\t'
  | '\t' => some '\t'
  | 'n' => some '\n'
  | 'v' => some '\x0b'
  | 'f' => some '\x0c'
  | 'r' => some '\r'
  | 'e' => some '\x1b'
  | ' ' => some ' '
  | '"' => some '"'
  | '/' => some '/'
  | '\\' => some '\\'
  | 'N' => some '\x85'
  | '_' => some '\xa0'
  | 'L' => some '\u2028'
  | 'P' => some '\u2029'
  | _ => none

/-- How many hexadecimal digits follow the letter of an escape. -/
def escapeWidth? : Char → Option Nat
  | 'x' => some 2
  | 'u' => some 4
  | 'U' => some 8
  | _ => none

/-- An escape after its backslash. -/
def escape? : List Spot → Option (Char × List Spot)
  | [] => none
  | spot :: rest =>
      match escapeWidth? spot.char with
      | none => (shortEscape? spot.char).map (·, rest)
      | some width => do
          let digits := (rest.take width).map Spot.char
          let code ← if digits.length = width then Text.numeral? 16 digits else none
          if code.isValidChar then some (Char.ofNat code, rest.drop width) else none

/-- A run of a quoted scalar without gaps. The flag tells whether it ended with an
escaped line break. -/
def quotedRun? (single : Bool) :
    Nat → List Spot → Option (List Char × Bool × List Spot)
  | 0, _ => none
  | _, [] => some ([], false, [])
  | fuel + 1, spot :: rest =>
      if atGap (spot :: rest) then some ([], false, spot :: rest)
      else if single then
        if spot.char == '\x27' then
          if startsWith '\x27' rest then
            (quotedRun? single fuel (rest.drop 1)).map fun (run, tail) => ('\x27' :: run, tail)
          else some ([], false, spot :: rest)
        else (quotedRun? single fuel rest).map fun (run, tail) => (spot.char :: run, tail)
      else if spot.char == '"' then some ([], false, spot :: rest)
      else if spot.char == '\\' then
        if (rest.head?.map fun next => isBreak next.char).getD false then
          some ([], true, rest.drop 1)
        else do
          let (c, rest) ← escape? rest
          (quotedRun? single fuel rest).map fun (run, tail) => (c :: run, tail)
      else (quotedRun? single fuel rest).map fun (run, tail) => (spot.char :: run, tail)

/-- Continue a quoted scalar after the text read so far, in reverse. -/
def quotedFrom? (single : Bool) : Nat → List Char → List Spot → Option (List Char × List Spot)
  | 0, _, _ => none
  | fuel + 1, text, spots =>
      if atDocumentMarker spots || spots.isEmpty then none
      else do
        let (run, escaped, rest) ← quotedRun? single (fuel + 1) spots
        let text := run.reverseAux text
        if startsWith (if single then '\x27' else '"') rest then some (text.reverse, rest.drop 1)
        else
          let (gap, rest) ← Gap.read? 0 { broken := escaped } rest
          quotedFrom? single fuel (gap.fold.reverseAux text) rest

/-- A quoted scalar after its opening quote. -/
def quoted? (single : Bool) (spots : List Spot) : Option (List Char × List Spot) :=
  quotedFrom? single (spots.length + 1) [] spots

/-! ## Block scalars -/

/-- What becomes of the line breaks at the end of a block. -/
inductive Chomping where
  | strip
  | clip
  | keep
  deriving DecidableEq

/-- The head of a block scalar: chomping and a digit for the indent, in either
order. -/
def blockHead? (spots : List Spot) : Option (Chomping × Option Nat × List Spot) :=
  let chomping (spots : List Spot) : Chomping × List Spot :=
    if startsWith '+' spots then (.keep, spots.drop 1)
    else if startsWith '-' spots then (.strip, spots.drop 1)
    else (.clip, spots)
  let digit? (spots : List Spot) : Option (Option Nat × List Spot) :=
    match spots with
    | [] => some (none, [])
    | spot :: rest =>
        match Text.digitValue? 10 spot.char with
        | none => some (none, spot :: rest)
        | some 0 => none
        | some digit => some (some digit, rest)
  match chomping spots with
  | (.clip, _) => do
      let (digit, rest) ← digit? spots
      let (chomping, rest) := chomping rest
      return (chomping, digit, rest)
  | (chomping, rest) => do
      let (digit, rest) ← digit? rest
      return (chomping, digit, rest)

/-- Read empty lines of a block and the indent of the line after them. An indent
of zero is not known yet; the result tells the deepest column reached. -/
def blockBreaks? (indent : Nat) :
    Nat → List Char → List Spot → Option (Nat × List Char × List Spot)
  | deepest, breaks, [] => some (deepest, breaks.reverse, [])
  | deepest, breaks, spot :: rest =>
      let inside := indent == 0 || spot.column < indent
      if inside && spot.char == ' ' then blockBreaks? indent deepest breaks rest
      else if inside && spot.char == '\t' then none
      else if isBreak spot.char then
        blockBreaks? indent (max deepest spot.column) (spot.char :: breaks) rest
      else some (max deepest spot.column, breaks.reverse, spot :: rest)

/-- Read the lines of a block after the text, in reverse, the last line break and
the empty lines read so far. -/
def blockLines? (folded : Bool) (indent : Nat) :
    Nat → List Char → Option Char → Bool → List Char → List Spot →
      Option (List Char × Option Char × List Char × List Spot)
  | 0, text, ended, _, breaks, spots => some (text.reverse, ended, breaks, spots)
  | fuel + 1, text, ended, indented, breaks, spots =>
      match spots with
      | [] => some (text.reverse, ended, breaks, [])
      | spot :: _ =>
          if spot.column ≠ indent then some (text.reverse, ended, breaks, spots)
          else do
            let deeper := isBlank spot.char
            let joined :=
              if folded && ended == some '\n' && !indented && !deeper then
                if breaks.isEmpty then [' '] else []
              else ended.toList
            let line := (spots.takeWhile fun spot => !isBreak spot.char).map Spot.char
            let rest := spots.dropWhile fun spot => !isBreak spot.char
            let (_, further, after) ← blockBreaks? indent 0 [] (rest.drop 1)
            blockLines? folded indent fuel ((joined ++ breaks ++ line).reverseAux text)
              (rest.head?.map Spot.char) deeper further after

/-- A block scalar after its indicator, inside a block collection at the given
column. -/
def block? (folded : Bool) (parent : Option Nat) (spots : List Spot) :
    Option (List Char × List Spot) := do
  let (chomping, digit, rest) ← blockHead? spots
  let rest ← lineEnd? rest
  let given := match digit, parent with
    | none, _ => 0
    | some digit, none => digit
    | some digit, some column => column + digit
  let (deepest, breaks, rest) ← blockBreaks? given 0 [] rest
  let least := match parent with
    | none => 1
    | some column => column + 1
  let indent := if given = 0 then max deepest least else given
  let (text, ended, breaks, rest) ←
    blockLines? folded indent (rest.length + 1) [] none false breaks rest
  let tail := match chomping with
    | .strip => []
    | .clip => ended.toList
    | .keep => ended.toList ++ breaks
  return (text ++ tail, rest)

end RegionOutline.Yaml
