import RegionOutline.Json.Value
import RegionOutline.Text.Decimal

/-! # Printing JSON

Values are laid out over lines, two spaces to a level; an empty array or object
stays on its line. Inside a string only quotes, backslashes and control
characters are escaped. -/

namespace RegionOutline.Json

/-- A character as it stands inside a string. -/
def escape (c : Char) : List Char :=
  if c = '"' then ['\\', '"']
  else if c = '\\' then ['\\', '\\']
  else if c = '\x08' then ['\\', 'b']
  else if c = '\t' then ['\\', 't']
  else if c = '\n' then ['\\', 'n']
  else if c = '\x0c' then ['\\', 'f']
  else if c = '\r' then ['\\', 'r']
  else if c.toNat < 0x20 then
    ['\\', 'u', '0', '0', Text.digitChar (c.toNat / 16), Text.digitChar (c.toNat % 16)]
  else [c]

def quote (text : String) : List Char :=
  '"' :: text.toList.flatMap escape ++ ['"']

/-- A fresh line at a level of nesting. -/
def newline (level : Nat) : List Char :=
  '\n' :: List.replicate (2 * level) ' '

/-- A string without a text is printed as its empty form; values that a program
builds have none. -/
def quote? (text : Option String) : List Char :=
  quote (text.getD "")

mutual

/-- A value whose first character stands at the given level. -/
def print (level : Nat) : Value → List Char
  | .null => ['n', 'u', 'l', 'l']
  | .bool true => ['t', 'r', 'u', 'e']
  | .bool false => ['f', 'a', 'l', 's', 'e']
  | .number numeral => numeral
  | .string text => quote? text
  | .array [] => ['[', ']']
  | .array (item :: items) =>
      '[' :: newline (level + 1) ++ print (level + 1) item ++ printItems (level + 1) items
        ++ newline level ++ [']']
  | .object [] => ['{', '}']
  | .object ((key, value) :: members) =>
      '{' :: newline (level + 1) ++ quote? key ++ [':', ' '] ++ print (level + 1) value
        ++ printMembers (level + 1) members ++ newline level ++ ['}']

/-- Further items of an array. -/
def printItems (level : Nat) : List Value → List Char
  | [] => []
  | item :: items => ',' :: newline level ++ print level item ++ printItems level items

/-- Further members of an object. -/
def printMembers (level : Nat) : List (Option String × Value) → List Char
  | [] => []
  | (key, value) :: members =>
      ',' :: newline level ++ quote? key ++ [':', ' '] ++ print level value
        ++ printMembers level members

end

def Value.ofNat (n : Nat) : Value := .number (Text.decimal n)

def Value.ofText (text : String) : Value := .string (some text)

/-- The text of a value. -/
def Value.pretty (value : Value) : String :=
  String.ofList (print 0 value)

end RegionOutline.Json
