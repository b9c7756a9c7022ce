import RegionOutline.Proofs.Json.Printing
import RegionOutline.View.Json

/-!
# What the data of a view decode to

The data of a view are JSON whatever they hold, and other programs get out of them what is
shown: the viewport, and the entries one by one in their order. Nothing gets lost, so that
equal data come of equal entries in equal viewports only.
-/

namespace RegionOutline

open Json

namespace Json.Value

/-- The number that a numeral without sign, fraction and exponent stands for. -/
def natural? : Value → Option Nat
  | .number numeral => Text.numeral? 10 numeral
  | _ => none

/-- A row told by its number, or by null if there is none. -/
def row? : Value → Option (Option Nat)
  | .null => some none
  | value => value.natural?.map some

@[simp]
theorem natural?_ofNat (n : Nat) : (ofNat n).natural? = some n :=
  Text.numeral?_decimal n

theorem row?_getD_null (row : Option Nat) : ((row.map ofNat).getD .null).row? = some row := by
  cases row with
  | none => rfl
  | some position => exact congrArg (Option.map some) (natural?_ofNat position)

end Json.Value

namespace Entry

/-- The members of an object describe the entry: each of the five is there once and reads as
what the entry has. -/
structure DescribedBy (entry : Entry) (members : List (Option String × Value)) : Prop where
  line_eq : (member? members "line_number").bind Value.natural? = some entry.line
  kind_eq : ((member? members "kind").bind text?).bind Kind.ofName? = some entry.kind
  text_eq : (member? members "display_text").bind text? = some entry.text
  indent_eq : (member? members "indent_level").bind Value.natural? = some entry.indent
  access_eq : ((member? members "access").bind text?).bind Access.ofOptionName? =
    some entry.access

/-- What an entry is written as describes it. -/
theorem toJson_describes (entry : Entry) :
    ∃ members, entry.toJson = .object members ∧ entry.DescribedBy members := by
  refine ⟨_, rfl, ?_⟩
  constructor
  · simp [member?]
  · simp [member?, Value.ofText, text?]
  · simp [member?, Value.ofText, text?]
  · simp [member?]
  · simp [member?, Value.ofText, text?]

/-- The numbers of an entry are in the ranges that readers allow for. -/
def InRange (entry : Entry) : Prop :=
  entry.line ≤ Text.wordMax ∧ entry.indent ≤ 255

instance decidableInRange (entry : Entry) : Decidable entry.InRange :=
  inferInstanceAs (Decidable (_ ∧ _))

theorem boundedNumber?_ofNat {n bound : Nat} (h : n ≤ bound) :
    boundedNumber? bound (Value.ofNat n) = some n := by
  rw [Value.ofNat, boundedNumber?, Text.numeral?_decimal]
  exact Option.filter_some_pos (by simpa using h)

theorem ofJson?_toJson {entry : Entry} (inRange : entry.InRange) :
    ofJson? entry.toJson = some entry := by
  have hvalues : ofJson? entry.toJson =
      ofValues? (Value.ofNat entry.line) (Value.ofText entry.kind.name)
        (Value.ofText entry.text) (Value.ofNat entry.indent)
        (Value.ofText (Access.optionName entry.access)) := by
    simp [ofJson?, toJson, member?]
  rw [hvalues, ofValues?, boundedNumber?_ofNat inRange.1, boundedNumber?_ofNat inRange.2]
  simp [Value.ofText, name?, text?]

theorem map_ofJson?_toJson {entries : List Entry} (inRange : ∀ entry ∈ entries, entry.InRange) :
    (entries.map toJson).map ofJson? = entries.map some := by
  rw [List.map_map]
  apply List.map_congr_left
  intro entry hentry
  exact ofJson?_toJson (inRange entry hentry)

theorem printable_toJson (entry : Entry) : Printable entry.toJson := by
  apply Printable.object
  · simp
  · simp only [List.forall_mem_cons]
    exact ⟨.number (numeral_decimal _), .string _, .string _, .number (numeral_decimal _),
      .string _, nofun⟩

theorem toJson_injective : Function.Injective toJson := by
  intro first second h
  simp only [toJson, Value.ofNat, Value.ofText, Value.object.injEq, List.cons.injEq,
    Prod.mk.injEq, Value.number.injEq, Value.string.injEq, Option.some.injEq, true_and,
    and_true] at h
  obtain ⟨hline, hkind, htext, hindent, haccess⟩ := h
  have sameKind : some first.kind = some second.kind := by
    rw [← Kind.ofName?_name, hkind, Kind.ofName?_name]
  have sameAccess : some first.access = some second.access := by
    rw [← Access.ofOptionName?_optionName, haccess, Access.ofOptionName?_optionName]
  rw [Entry.mk.injEq]
  exact ⟨Text.decimal_injective hline, Option.some.inj sameKind, htext,
    Text.decimal_injective hindent, Option.some.inj sameAccess⟩

end Entry

namespace View

theorem printable_toJson (view : View) : Printable view.toJson := by
  have focused : Printable ((view.focused.map Value.ofNat).getD .null) := by
    cases view.focused with
    | none => exact .null
    | some row => exact .number (numeral_decimal row)
  have entries : Printable (.array (view.entries.map Entry.toJson)) := by
    apply Printable.array
    intro item hitem
    obtain ⟨entry, _, rfl⟩ := List.mem_map.1 hitem
    exact entry.printable_toJson
  apply Printable.object
  · simp
  · simp only [List.forall_mem_cons]
    exact ⟨.number (numeral_decimal _), focused, entries, nofun⟩

theorem ofNat_injective : Function.Injective Value.ofNat := by
  intro first second h
  exact Text.decimal_injective (Value.number.inj h)

/-- No row is not mistaken for a row. -/
theorem focused_eq_of_toJson {first second : Option Nat}
    (h : (first.map Value.ofNat).getD .null = (second.map Value.ofNat).getD .null) :
    first = second := by
  cases first with
  | none =>
      cases second with
      | none => rfl
      | some row => cases h
  | some row =>
      cases second with
      | none => cases h
      | some other => rw [ofNat_injective h]

theorem eq_of_toJson_eq {view other : View} (h : other.toJson = view.toJson) :
    other.entries = view.entries ∧ other.firstVisible = view.firstVisible ∧
      other.focused = view.focused := by
  simp only [toJson, Value.object.injEq, List.cons.injEq, Prod.mk.injEq, Value.array.injEq,
    true_and, and_true] at h
  obtain ⟨hfirst, hfocused, hentries⟩ := h
  exact ⟨Entry.toJson_injective.list_map hentries, ofNat_injective hfirst,
    focused_eq_of_toJson hfocused⟩

end View

/-- The data of a view are JSON, from which the viewport and, one by one, the entries are
read as they were. No other entries and no other viewport have the same data. -/
theorem json_decodes_to_shown (view : View) (inRange : ∀ entry ∈ view.entries, entry.InRange) :
    Denotes view.toJson view.json.toList ∧
      (∃ items, read? view.json.toList = some (.object [
          (some "first_visible", Value.ofNat view.firstVisible),
          (some "focused", (view.focused.map Value.ofNat).getD .null),
          (some "entries", .array items)]) ∧
        items.map Entry.ofJson? = view.entries.map some) ∧
      ∀ other : View, other.json = view.json →
        other.entries = view.entries ∧ other.firstVisible = view.firstVisible ∧
          other.focused = view.focused := by
  refine ⟨denotes_pretty view.printable_toJson,
    ⟨view.entries.map Entry.toJson, read?_pretty view.printable_toJson,
      Entry.map_ofJson?_toJson inRange⟩, ?_⟩
  intro other h
  exact View.eq_of_toJson_eq (eq_of_pretty_eq other.printable_toJson view.printable_toJson h)

/-- The greatest numbers, and a text with all that is escaped. -/
def View.utmost : View where
  entries := [⟨Text.wordMax, .unrecognised, "\"\\\t\n\r\x00\x1f\x7fλ", 255, none⟩]
  firstVisible := Text.wordMax
  focused := some 0

theorem utmost_decodes :
    (∃ items, read? View.utmost.json.toList = some (.object [
        (some "first_visible", Value.ofNat Text.wordMax), (some "focused", Value.ofNat 0),
        (some "entries", .array items)]) ∧
      items.map Entry.ofJson? = View.utmost.entries.map some) ∧
    View.utmost.json ≠ View.json {} := by
  obtain ⟨_, decoded, told⟩ := json_decodes_to_shown View.utmost (by decide)
  refine ⟨decoded, ?_⟩
  intro h
  exact absurd (told {} h.symm).2.2 (by decide)

end RegionOutline
