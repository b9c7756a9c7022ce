import RegionOutline.Json.Value
import RegionOutline.Text.Decimal

/-! # Reading JSON

A strict reader: no comments, no trailing commas, no leading zeros, no raw
control characters in strings, and only blanks after the value. -/

namespace RegionOutline.Json

def isSpace (c : Char) : Bool :=
  c == ' ' || c == '\t' || c == '\n' || c == '\r'

def skipSpace (text : List Char) : List Char :=
  text.dropWhile isSpace

/-- A piece of a string: a character, or the code unit of a `\u` escape. -/
inductive Piece where
  | char (c : Char)
  | unit (code : Nat)

/-- The character of a one-letter escape. -/
def shortEscape? : Char → Option Char
  | '"' => some '"'
  | '\\' => some '\\'
  | '/' => some '/'
  | 'b' => some '\x08'
  | 'f' => some '\x0c'
  | 'n' => some '\n'
  | 'r' => some '\r'
  | 't' => some '\t'
  | _ => none

/-- The pieces of a string after its opening quote, and the rest of the text
after its closing quote. -/
def pieces? : List Char → Option (List Piece × List Char)
  | [] => none
  | '"' :: rest => some ([], rest)
  | '\\' :: 'u' :: a :: b :: c :: d :: rest => do
      let code ← Text.numeral? 16 [a, b, c, d]
      let (pieces, rest) ← pieces? rest
      return (.unit code :: pieces, rest)
  | '\\' :: c :: rest => do
      let c ← shortEscape? c
      let (pieces, rest) ← pieces? rest
      return (.char c :: pieces, rest)
  | c :: rest =>
      if c = '\\' ∨ c.toNat < 0x20 then none
      else do
        let (pieces, rest) ← pieces? rest
        return (.char c :: pieces, rest)

def isHighSurrogate (code : Nat) : Bool := 0xD800 ≤ code && code ≤ 0xDBFF

def isLowSurrogate (code : Nat) : Bool := 0xDC00 ≤ code && code ≤ 0xDFFF

/-- Join the pieces; two code units that form a surrogate pair make one
character, and a surrogate alone makes none. -/
def joinPieces? : List Piece → Option (List Char)
  | [] => some []
  | .char c :: rest => (joinPieces? rest).map (c :: ·)
  | .unit high :: .unit low :: rest =>
      if isHighSurrogate high ∧ isLowSurrogate low then
        (joinPieces? rest).map
          (Char.ofNat (0x10000 + (high - 0xD800) * 0x400 + (low - 0xDC00)) :: ·)
      else if isHighSurrogate high ∨ isLowSurrogate high then none
      else (joinPieces? (.unit low :: rest)).map (Char.ofNat high :: ·)
  | .unit code :: rest =>
      if isHighSurrogate code ∨ isLowSurrogate code then none
      else (joinPieces? rest).map (Char.ofNat code :: ·)

/-- A string after its opening quote. -/
def string? (text : List Char) : Option (Option String × List Char) := do
  let (pieces, rest) ← pieces? text
  return ((joinPieces? pieces).map String.ofList, rest)

/-- A run of at least one digit. -/
def digits? (text : List Char) : Option (List Char × List Char) :=
  let digits := text.takeWhile Char.isDigit
  if digits.isEmpty then none else some (digits, text.dropWhile Char.isDigit)

/-- The digits before the point: a zero alone, or a run that starts with none. -/
def whole? : List Char → Option (List Char × List Char)
  | '0' :: rest =>
      if (rest.head?.map Char.isDigit).getD false then none else some (['0'], rest)
  | text => digits? text

/-- The point and the digits after it, if there is a point. -/
def fraction? : List Char → Option (List Char × List Char)
  | '.' :: rest => do
      let (digits, rest) ← digits? rest
      return ('.' :: digits, rest)
  | text => some ([], text)

/-- The exponent, if there is one. -/
def exponent? : List Char → Option (List Char × List Char)
  | [] => some ([], [])
  | c :: rest =>
      if c = 'e' ∨ c = 'E' then
        let sign := rest.takeWhile (fun c => c == '+' || c == '-') |>.take 1
        do
          let (digits, rest) ← digits? (rest.drop sign.length)
          return (c :: sign ++ digits, rest)
      else some ([], c :: rest)

/-- A number, as written. -/
def number? (text : List Char) : Option (List Char × List Char) := do
  let minus := text.takeWhile (· == '-') |>.take 1
  let (whole, rest) ← whole? (text.drop minus.length)
  let (fraction, rest) ← fraction? rest
  let (exponent, rest) ← exponent? rest
  return (minus ++ whole ++ fraction ++ exponent, rest)

/-- The colon after a key. -/
def colon? (text : List Char) : Option (List Char) :=
  match skipSpace text with
  | ':' :: rest => some rest
  | _ => none

mutual

/-- A value at the front of a text, and the rest. Each level of nesting and each
item uses up fuel, for which the length of the text suffices. -/
def value? : Nat → List Char → Option (Value × List Char)
  | 0, _ => none
  | fuel + 1, text =>
      match skipSpace text with
      | 'n' :: 'u' :: 'l' :: 'l' :: rest => some (.null, rest)
      | 't' :: 'r' :: 'u' :: 'e' :: rest => some (.bool true, rest)
      | 'f' :: 'a' :: 'l' :: 's' :: 'e' :: rest => some (.bool false, rest)
      | '"' :: rest => (string? rest).map fun (text, rest) => (.string text, rest)
      | '[' :: rest =>
          match skipSpace rest with
          | ']' :: rest => some (.array [], rest)
          | rest => do
              let (item, rest) ← value? fuel rest
              let (items, rest) ← items? fuel rest
              return (.array (item :: items), rest)
      | '{' :: rest =>
          match skipSpace rest with
          | '}' :: rest => some (.object [], rest)
          | rest => do
              let (entry, rest) ← member? fuel rest
              let (entries, rest) ← members? fuel rest
              return (.object (entry :: entries), rest)
      | rest => (number? rest).map fun (numeral, rest) => (.number numeral, rest)

/-- Further items up to the closing bracket. -/
def items? : Nat → List Char → Option (List Value × List Char)
  | 0, _ => none
  | fuel + 1, text =>
      match skipSpace text with
      | ']' :: rest => some ([], rest)
      | ',' :: rest => do
          let (item, rest) ← value? fuel rest
          let (items, rest) ← items? fuel rest
          return (item :: items, rest)
      | _ => none

/-- A key, a colon and a value. -/
def member? : Nat → List Char → Option ((Option String × Value) × List Char)
  | 0, _ => none
  | fuel + 1, text =>
      match skipSpace text with
      | '"' :: rest => do
          let (key, rest) ← string? rest
          let rest ← colon? rest
          let (value, rest) ← value? fuel rest
          return ((key, value), rest)
      | _ => none

/-- Further members up to the closing brace. -/
def members? : Nat → List Char → Option (List (Option String × Value) × List Char)
  | 0, _ => none
  | fuel + 1, text =>
      match skipSpace text with
      | '}' :: rest => some ([], rest)
      | ',' :: rest => do
          let (entry, rest) ← member? fuel rest
          let (entries, rest) ← members? fuel rest
          return (entry :: entries, rest)
      | _ => none

end

/-- The value that a whole text holds. -/
def read? (text : List Char) : Option Value :=
  match value? (2 * text.length + 2) text with
  | some (value, rest) => if (skipSpace rest).isEmpty then some value else none
  | none => none

end RegionOutline.Json
