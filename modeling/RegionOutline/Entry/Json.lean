import RegionOutline.Entry
import RegionOutline.Json.Printer
import RegionOutline.Json.Reader

/-! # Entries in exchanged data

An entry is written as an object with its five members. It is read back from
such an object, with the members in any order and unknown ones ignored, or from
an array of the five values. -/

namespace RegionOutline.Entry

open RegionOutline.Json

def toJson (entry : Entry) : Value :=
  .object [
    (some "line_number", Value.ofNat entry.line),
    (some "kind", Value.ofText entry.kind.name),
    (some "display_text", Value.ofText entry.text),
    (some "indent_level", Value.ofNat entry.indent),
    (some "access", Value.ofText (Access.optionName entry.access))]

/-- A number without sign, fraction and exponent, up to a bound. -/
def boundedNumber? (bound : Nat) : Value → Option Nat
  | .number numeral => (Text.numeral? 10 numeral).filter (· ≤ bound)
  | _ => none

def text? : Value → Option String
  | .string text => text
  | _ => none

/-- A name out of a fixed list is written as a string, or as the one key of an
object with the value null. -/
def name? : Value → Option String
  | .string text => text
  | .object [(key, .null)] => key
  | _ => none

/-- Put the five values together. -/
def ofValues? (line kind text indent access : Value) : Option Entry := do
  return {
    line := ← boundedNumber? Text.wordMax line
    kind := ← Kind.ofName? (← name? kind)
    text := ← text? text
    indent := ← boundedNumber? 255 indent
    access := ← Access.ofOptionName? (← name? access) }

/-- The value of a key that occurs exactly once. -/
def member? (members : List (Option String × Value)) (key : String) : Option Value :=
  match members.filter (·.1 == some key) with
  | [(_, value)] => some value
  | _ => none

def ofJson? : Value → Option Entry
  | .array [line, kind, text, indent, access] => ofValues? line kind text indent access
  | .object members =>
      if members.all (·.1.isSome) then do
        ofValues? (← member? members "line_number") (← member? members "kind")
          (← member? members "display_text") (← member? members "indent_level")
          (← member? members "access")
      else none
  | _ => none

/-- Read an entry from the text of a JSON value. -/
def parse? (text : String) : Option Entry :=
  (read? text.toList).bind ofJson?

end RegionOutline.Entry
