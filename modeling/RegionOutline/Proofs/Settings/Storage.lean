import RegionOutline.Proofs.Files.ReadBack
import RegionOutline.Proofs.Text.Decimal
import RegionOutline.Proofs.Yaml.Fields
import RegionOutline.Settings.Location

/-!
# Settings that are read back

Settings whose numbers fit in a word come back from the text that they are written as. Any lines of
this text, in any order, are read as well: the fields that are not among them have their defaults.
-/

namespace RegionOutline

namespace Settings

/-- The numbers fit in a 64-bit word. -/
structure Fits (settings : Settings) : Prop where
  entriesAbove : settings.entriesAbove ≤ Text.wordMax
  debounceMs : settings.debounceMs ≤ Text.wordMax
  visibleRows : settings.visibleRows ≤ Text.wordMax

/-- The fields of settings. -/
inductive Item where
  | entriesAbove
  | debounceMs
  | visibleRows
  | showLineNumbers
  | color
  deriving DecidableEq

namespace Item

/-- The fields in the order in which they are written. -/
def all : List Item :=
  [.entriesAbove, .debounceMs, .visibleRows, .showLineNumbers, .color]

def key : Item → String
  | .entriesAbove => "entries_above_focus"
  | .debounceMs => "debounce_ms"
  | .visibleRows => "visible_rows"
  | .showLineNumbers => "show_line_numbers"
  | .color => "color"

def value (settings : Settings) : Item → List Char
  | .entriesAbove => Text.decimal settings.entriesAbove
  | .debounceMs => Text.decimal settings.debounceMs
  | .visibleRows => Text.decimal settings.visibleRows
  | .showLineNumbers => flagText settings.showLineNumbers
  | .color => flagText settings.color

end Item

/-- The line that a field is written on. -/
def itemLine (settings : Settings) (item : Item) : List Char :=
  line item.key (item.value settings)

/-- Take some fields over and leave the others as they are in the base. -/
def overlay (settings base : Settings) (items : List Item) : Settings where
  entriesAbove := if .entriesAbove ∈ items then settings.entriesAbove else base.entriesAbove
  debounceMs := if .debounceMs ∈ items then settings.debounceMs else base.debounceMs
  visibleRows := if .visibleRows ∈ items then settings.visibleRows else base.visibleRows
  showLineNumbers :=
    if .showLineNumbers ∈ items then settings.showLineNumbers else base.showLineNumbers
  color := if .color ∈ items then settings.color else base.color

variable {settings base : Settings}

theorem toYaml_eq (settings : Settings) :
    settings.toYaml = String.ofList (Item.all.flatMap settings.itemLine) := by
  simp [toYaml, Item.all, itemLine, Item.key, Item.value]

theorem overlay_nil (settings base : Settings) : settings.overlay base [] = base := by
  simp [overlay]

theorem overlay_cons (settings base : Settings) (item : Item) (items : List Item) :
    settings.overlay base (item :: items) =
      settings.overlay (settings.overlay base [item]) items := by
  cases item <;> simp [overlay]

theorem overlay_all (settings base : Settings) : settings.overlay base Item.all = settings := rfl

section Values

variable {n : Nat}

theorem not_mem_decimal {c : Char} (h : c.isDigit = false) : c ∉ Text.decimal n := by
  intro hc
  rw [Text.isDigit_of_mem_decimal n c hc] at h
  cases h

theorem stripStart?_decimal {mark : List Char} {c : Char} (hmark : c ∈ mark)
    (h : c.isDigit = false) : Text.stripStart? mark (Text.decimal n) = none := by
  rw [Option.eq_none_iff_forall_ne_some]
  intro rest hrest
  apply not_mem_decimal h
  rw [Text.stripStart?_eq_some_iff.1 hrest]
  exact List.mem_append_left rest hmark

theorem isDecimal_decimal (n : Nat) : isDecimal (Text.decimal n) = true := by
  by_cases h : n = 0
  · rw [h, Text.decimal_of_lt (by decide)]
    rfl
  · simp [isDecimal, Text.head?_decimal_ne_zero h]

/-- A number that fits in a word is read from its numeral. -/
theorem number?_decimal (fits : n ≤ Text.wordMax) : number? (Text.decimal n) = some n := by
  have sign : Text.stripStart? ['+'] (Text.decimal n) = none :=
    stripStart?_decimal (List.mem_singleton.2 rfl) (by decide)
  have hexadecimal : Text.stripStart? ['0', 'x'] (Text.decimal n) = none :=
    stripStart?_decimal (c := 'x') (by simp) (by decide)
  have octal : Text.stripStart? ['0', 'o'] (Text.decimal n) = none :=
    stripStart?_decimal (c := 'o') (by simp) (by decide)
  have binary : Text.stripStart? ['0', 'b'] (Text.decimal n) = none :=
    stripStart?_decimal (c := 'b') (by simp) (by decide)
  simp [number?, based?, sign, hexadecimal, octal, binary, isDecimal_decimal, Text.wordNumeral?,
    Text.numeral?_decimal, fits]

theorem countOf?_decimal (fits : n ≤ Text.wordMax) :
    countOf? ⟨String.ofList (Text.decimal n), .plain, none⟩ = some n := by
  simp [countOf?, valueText?, number?_decimal fits]

theorem flagOf?_flagText (flag : Bool) :
    flagOf? ⟨String.ofList (flagText flag), .plain, none⟩ = some flag := by
  cases flag <;> rfl

theorem isWord_decimal (n : Nat) : Yaml.IsWord (Text.decimal n) := by
  refine ⟨Text.decimal_ne_nil n, fun c hc => ?_⟩
  simp [Yaml.isWordChar, Char.isAlphanum, Text.isDigit_of_mem_decimal n c hc]

theorem isWord_flagText (flag : Bool) : Yaml.IsWord (flagText flag) := by
  cases flag <;> simp [Yaml.IsWord, flagText] <;> decide

theorem isWord_value (settings : Settings) (item : Item) : Yaml.IsWord (item.value settings) := by
  cases item
  case entriesAbove => exact isWord_decimal settings.entriesAbove
  case debounceMs => exact isWord_decimal settings.debounceMs
  case visibleRows => exact isWord_decimal settings.visibleRows
  case showLineNumbers => exact isWord_flagText settings.showLineNumbers
  case color => exact isWord_flagText settings.color

end Values

/-- A field of settings as one of a mapping. -/
def field (settings : Settings) (item : Item) : Yaml.Field where
  key := item.key.toList
  value := item.value settings
  isWord_key := by cases item <;> simp [Yaml.IsWord, Item.key] <;> decide
  isWord_value := isWord_value settings item
  short := by cases item <;> decide

theorem text_field (settings : Settings) (item : Item) :
    (settings.field item).text = settings.itemLine item := by
  simp [Yaml.Field.text, field, itemLine, line]

/-- The value of a field is taken over as it was. -/
theorem set?_key (fits : settings.Fits) (base : Settings) (item : Item) :
    base.set? item.key ⟨String.ofList (item.value settings), .plain, none⟩ =
      some (settings.overlay base [item]) := by
  cases item
  case entriesAbove =>
    simp [set?, Item.key, Item.value, overlay, countOf?_decimal fits.entriesAbove]
  case debounceMs => simp [set?, Item.key, Item.value, overlay, countOf?_decimal fits.debounceMs]
  case visibleRows => simp [set?, Item.key, Item.value, overlay, countOf?_decimal fits.visibleRows]
  case showLineNumbers => simp [set?, Item.key, Item.value, overlay, flagOf?_flagText]
  case color => simp [set?, Item.key, Item.value, overlay, flagOf?_flagText]

theorem key_mem_fieldNames (item : Item) : item.key ∈ fieldNames := by
  cases item <;> decide

theorem key_injective : Function.Injective Item.key := by
  intro first second h
  cases first <;> cases second <;> simp_all [Item.key]

/-- Fields of which none is taken yet. -/
theorem setAll?_items (fits : settings.Fits) {tree : Yaml.Tree} {taken : List String}
    {items : List Item} (distinct : items.Nodup) (fresh : ∀ item ∈ items, item.key ∉ taken) :
    setAll? tree taken base (items.map fun item => (settings.field item).entry) =
      some (settings.overlay base items) := by
  induction items generalizing taken base with
  | nil => rw [overlay_nil]; rfl
  | cons item items ih =>
      obtain ⟨once, distinct⟩ := List.nodup_cons.1 distinct
      obtain ⟨free, others⟩ := List.forall_mem_cons.1 fresh
      have later : ∀ other ∈ items, other.key ∉ item.key :: taken := by
        intro other hother htaken
        rcases List.mem_cons.1 htaken with same | htaken
        · exact once (key_injective same ▸ hother)
        · exact others other hother htaken
      rw [overlay_cons, ← ih distinct later]
      simp [setAll?, Yaml.Field.entry, field, Yaml.Tree.scalar?, key_mem_fieldNames, free,
        set?_key fits]

/-- Distinct lines of a text of settings, at least one of them, are read in any order. -/
theorem ofYaml?_items (fits : settings.Fits) {items : List Item} (ne_nil : items ≠ [])
    (distinct : items.Nodup) :
    ofYaml? (String.ofList (items.flatMap settings.itemLine)) =
      some (settings.overlay {} items) := by
  have text : items.flatMap settings.itemLine =
      (items.map settings.field).flatMap Yaml.Field.text := by
    simp only [List.flatMap_map, text_field]
  have fields_ne_nil : items.map settings.field ≠ [] := by simpa using ne_nil
  rw [ofYaml?, String.toList_ofList, text, Yaml.read?_fields fields_ne_nil, Option.bind_some,
    ofTree?]
  simp only [List.map_map]
  exact setAll?_items fits distinct (fun _ _ => List.not_mem_nil)

theorem ofYaml?_toYaml (fits : settings.Fits) : ofYaml? settings.toYaml = some settings := by
  rw [toYaml_eq, ofYaml?_items fits (by decide) (by decide), overlay_all]

/-- Saving ends with the text of the settings being written. -/
theorem write_of_saveTo {files after : FileTree} {path : Path}
    (h : (settings.saveTo path).runOn files = (.ok (), after)) :
    ∃ between : FileTree, between.write path settings.toYaml.toUTF8 = .ok after := by
  have last {between : FileTree}
      (h : FileAction.runOn ((FileAction.change (·.write path settings.toYaml.toUTF8)).adapt
        (StorageError.cannotWrite path)) between = (.ok (), after)) :
      between.write path settings.toYaml.toUTF8 = .ok after :=
    FileAction.eq_ok_of_runOn_change (FileAction.runOn_of_runOn_adapt h)
  rw [saveTo] at h
  split at h
  case h_1 directory parent =>
    obtain ⟨_, between, _, written⟩ := FileAction.runOn_bind_eq_ok h
    exact ⟨between, last written⟩
  case h_2 => exact ⟨files, last h⟩

theorem loadFrom_of_readText (fits : settings.Fits) {files : FileTree} {path : Path}
    (h : files.readText path = .ok settings.toYaml) : loadFrom files path = settings := by
  rw [loadFrom, h, ofContent, ofYaml?_toYaml fits, Option.getD_some]

end Settings

/-- Settings whose numbers fit in a word are read from the text that they are written as, and loaded
from the file that they were saved to. One or more of the five lines of that text, each of them once
and in any order, are read as the fields that they hold, with the defaults of the others. -/
theorem settings_survive_saving (settings : Settings) (fits : settings.Fits) :
    settings.toYaml = String.ofList (Settings.Item.all.flatMap settings.itemLine) ∧
    Settings.ofYaml? settings.toYaml = some settings ∧
    (∀ items : List Settings.Item, items ≠ [] → items.Nodup →
      Settings.ofYaml? (String.ofList (items.flatMap settings.itemLine)) =
        some (settings.overlay {} items)) ∧
    ∀ (files after : FileTree) (path : Path),
      (settings.saveTo path).runOn files = (.ok (), after) →
        Settings.loadFrom after path = settings := by
  refine ⟨settings.toYaml_eq, Settings.ofYaml?_toYaml fits, ?_, ?_⟩
  · intro items ne_nil distinct
    exact Settings.ofYaml?_items fits ne_nil distinct
  · intro files after path saved
    obtain ⟨between, written⟩ := Settings.write_of_saveTo saved
    exact Settings.loadFrom_of_readText fits (FileTree.readText_of_write written)

/-- The greatest number, on the second of two lines, and a file in a directory that is made. -/
theorem greatest_number_survives_saving :
    Settings.Fits { entriesAbove := 18446744073709551615, color := false } ∧
    Settings.ofYaml? "color: false\nentries_above_focus: 18446744073709551615\n" =
      some { entriesAbove := 18446744073709551615, color := false } ∧
    Settings.loadFrom
        (FileAction.runOn
          (Settings.saveTo { entriesAbove := 18446744073709551615, color := false }
            "home/config.yaml") {}).2
        "home/config.yaml" =
      { entriesAbove := 18446744073709551615, color := false } := by
  have fits : Settings.Fits { entriesAbove := 18446744073709551615, color := false } :=
    ⟨by decide, by decide, by decide⟩
  obtain ⟨-, -, lines, files⟩ := settings_survive_saving _ fits
  have part := lines [.color, .entriesAbove] (by decide) (by decide)
  have text : [Settings.Item.color, .entriesAbove].flatMap
      (Settings.itemLine { entriesAbove := 18446744073709551615, color := false }) =
        "color: false\nentries_above_focus: 18446744073709551615\n".toList := by
    simp [Settings.itemLine, Settings.line, Settings.Item.key, Settings.Item.value,
      Settings.flagText, Text.decimal, Text.digitChar]
  rw [text] at part
  exact ⟨fits, part, files {} _ _ rfl⟩

end RegionOutline
