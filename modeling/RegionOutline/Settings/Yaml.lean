import RegionOutline.Settings
import RegionOutline.Text.Word
import RegionOutline.Yaml.Node

/-! # Settings as text

Settings are stored as a mapping of five fields. Reading fills in the defaults of
missing fields, ignores unknown ones and refuses a field given twice. -/

namespace RegionOutline.Settings

open RegionOutline.Yaml

def line (key : String) (value : List Char) : List Char :=
  key.toList ++ [':', ' '] ++ value ++ ['\n']

def flagText (flag : Bool) : List Char :=
  if flag then "true".toList else "false".toList

/-- The text of settings, one line to a field. -/
def toYaml (settings : Settings) : String :=
  String.ofList <|
    line "entries_above_focus" (Text.decimal settings.entriesAbove)
      ++ line "debounce_ms" (Text.decimal settings.debounceMs)
      ++ line "visible_rows" (Text.decimal settings.visibleRows)
      ++ line "show_line_numbers" (flagText settings.showLineNumbers)
      ++ line "color" (flagText settings.color)

/-- Digits after a base mark such as `0x`. -/
def based? (mark : String) (base : Nat) (text : List Char) : Option Nat :=
  (Text.stripStart? mark.toList text).bind (Text.wordNumeral? base)

/-- Whether a text is a decimal numeral without needless zeros in front. -/
def isDecimal (text : List Char) : Bool :=
  text == ['0'] || text.head? != some '0'

/-- A number: an optional plus sign, then decimal digits or a base mark and its
digits. -/
def number? (text : List Char) : Option Nat :=
  let digits := (Text.stripStart? ['+'] text).getD text
  (based? "0x" 16 digits).or <| (based? "0o" 8 digits).or <| (based? "0b" 2 digits).or <|
    if isDecimal digits then Text.wordNumeral? 10 digits else none

/-- A flag in one of three spellings. -/
def flag? (text : String) : Option Bool :=
  if ["true", "True", "TRUE"].contains text then some true
  else if ["false", "False", "FALSE"].contains text then some false
  else none

/-- The text of a scalar that may be read as a value of a core type: a plain one,
or a literal block that is marked with the type. -/
def valueText? (type : Tag) (scalar : Scalar) : Option String :=
  if scalar.style = .plain ∨ scalar.style = .literal ∧ scalar.tag = some type then
    some scalar.text
  else none

def countOf? (scalar : Scalar) : Option Nat :=
  (valueText? (Tag.core "int") scalar).bind fun text => number? text.toList

def flagOf? (scalar : Scalar) : Option Bool :=
  (valueText? (Tag.core "bool") scalar).bind flag?

/-- Take over the value of a field. -/
def set? (settings : Settings) (key : String) (value : Scalar) : Option Settings :=
  match key with
  | "entries_above_focus" => (countOf? value).map fun n => { settings with entriesAbove := n }
  | "debounce_ms" => (countOf? value).map fun n => { settings with debounceMs := n }
  | "visible_rows" => (countOf? value).map fun n => { settings with visibleRows := n }
  | "show_line_numbers" => (flagOf? value).map fun b => { settings with showLineNumbers := b }
  | "color" => (flagOf? value).map fun b => { settings with color := b }
  | _ => none

def fieldNames : List String :=
  ["entries_above_focus", "debounce_ms", "visible_rows", "show_line_numbers", "color"]

/-- Take over entries one after the other. Keys are scalars; the fields already
taken may not come again, and other keys may have any value. -/
def setAll? (tree : Tree) :
    List String → Settings → List (Node × Node) → Option Settings
  | _, settings, [] => some settings
  | taken, settings, (key, value) :: entries => do
      let key := (← tree.scalar? key).text
      if key ∉ fieldNames then setAll? tree taken settings entries
      else if key ∈ taken then none
      else
        let settings ← settings.set? key (← tree.scalar? value)
        setAll? tree (key :: taken) settings entries

/-- The settings that a tree describes. -/
def ofTree? (tree : Tree) : Option Settings :=
  match tree.root with
  | .mapping entries => setAll? tree [] {} entries
  | _ => none

/-- Read settings from a text. -/
def ofYaml? (text : String) : Option Settings :=
  (read? text.toList).bind ofTree?

end RegionOutline.Settings
