import RegionOutline.Json.Printer
import RegionOutline.Proofs.Json.Grammar
import RegionOutline.Proofs.Text.Decimal

/-!
# Printed values

What is printed denotes the value that it was printed from, at any level of nesting, if the
numbers of the value are numerals and its strings have texts. So a printed value is read back
as it was, and no two of them are printed alike.
-/

namespace RegionOutline.Json

variable {chars text : List Char} {value : Value}

theorem blank_newline (level : Nat) : Blank (newline level) := by
  intro c hc
  rcases List.mem_cons.1 hc with rfl | hc
  · rfl
  · rw [List.eq_of_mem_replicate hc]
    rfl

/-- The four digits for a control character. -/
theorem numeral?_control {code : Nat} (h : code < 0x20) :
    Text.numeral? 16 ['0', '0', Text.digitChar (code / 16), Text.digitChar (code % 16)] =
      some code := by
  have hzero : '0' = Text.digitChar 0 := rfl
  rw [Text.numeral?_of_ne_nil (by simp), hzero]
  iterate 4 rw [Text.readDigits?_digitChar (by omega) (by omega)]
  simp only [Text.readDigits?, Option.some.injEq]
  omega

theorem not_surrogate_of_lt {code : Nat} (h : code < 0xD800) :
    isHighSurrogate code = false ∧ isLowSurrogate code = false := by
  constructor
  · apply Bool.and_eq_false_imp.2
    intro hle
    exact absurd (of_decide_eq_true hle) (by omega)
  · apply Bool.and_eq_false_imp.2
    intro hle
    exact absurd (of_decide_eq_true hle) (by omega)

/-- A character is spelled as it is printed. -/
theorem Spells.escape (c : Char) (others : Spells chars text) :
    Spells (c :: chars) (escape c ++ text) := by
  unfold Json.escape
  split_ifs with quoted backslash backspace tab line page back control
  iterate 7
    · subst c
      exact .short rfl others
  · obtain ⟨noHigh, noLow⟩ := not_surrogate_of_lt (show c.toNat < 0xD800 by omega)
    have spells := Spells.unit (numeral?_control control) noHigh noLow others
    rwa [Char.ofNat_toNat] at spells
  · exact .plain quoted backslash (Nat.le_of_not_lt control) others

theorem spells_flatMap_escape (chars : List Char) : Spells chars (chars.flatMap escape) := by
  induction chars with
  | nil => exact .nil
  | cons c rest ih =>
      rw [List.flatMap_cons]
      exact ih.escape c

theorem denotes_quote (text : String) : Denotes (.string (some text)) (quote text) := by
  have denotes := Denotes.string (spells_flatMap_escape text.toList)
  rwa [String.ofList_toList] at denotes

theorem isMember_quote (key : String) (denotes : Denotes value text) :
    IsMember (some key, value) (quote key ++ ([':', ' '] ++ text)) := by
  have member := IsMember.pair (spells_flatMap_escape key.toList) blank_nil
    (show Blank [' '] by simp [Blank, isSpace]) denotes
  rw [String.ofList_toList] at member
  simpa [quote] using member

theorem numeral_decimal (n : Nat) : Numeral (Text.decimal n) := by
  have whole : Whole (Text.decimal n) := by
    by_cases hn : n = 0
    · rw [hn, Text.decimal_of_lt (by omega)]
      exact .zero
    · exact .run ⟨Text.decimal_ne_nil n, Text.isDigit_of_mem_decimal n⟩
        (Text.head?_decimal_ne_zero hn)
  have numeral := Numeral.parts List.mem_cons_self whole .absent .absent
  simpa using numeral

/-- Numbers are numerals, and strings and keys have texts. -/
inductive Printable : Value → Prop
  | null : Printable .null
  | bool (value : Bool) : Printable (.bool value)
  | number {numeral : List Char} (written : Numeral numeral) : Printable (.number numeral)
  | string (text : String) : Printable (.string (some text))
  | array {items : List Value} (each : ∀ item ∈ items, Printable item) : Printable (.array items)
  | object {members : List (Option String × Value)}
      (keys : ∀ member ∈ members, member.1.isSome = true)
      (each : ∀ member ∈ members, Printable member.2) : Printable (.object members)

theorem furtherItems_printItems {level : Nat} {items : List Value}
    (each : ∀ item ∈ items, Denotes item (print level item)) :
    FurtherItems items (printItems level items) := by
  induction items with
  | nil => exact .nil
  | cons item items ih =>
      obtain ⟨first, others⟩ := List.forall_mem_cons.1 each
      have further := FurtherItems.cons blank_nil (blank_newline level) first (ih others)
      simpa [printItems] using further

theorem isMember_print {level : Nat} {entry : Option String × Value}
    (key : entry.1.isSome = true) (denotes : Denotes entry.2 (print level entry.2)) :
    IsMember entry (quote? entry.1 ++ ([':', ' '] ++ print level entry.2)) := by
  obtain ⟨name, hname⟩ := Option.isSome_iff_exists.1 key
  have member := isMember_quote name denotes
  rw [← hname] at member
  rwa [quote?, hname, Option.getD_some]

theorem furtherMembers_printMembers {level : Nat} {members : List (Option String × Value)}
    (keys : ∀ member ∈ members, member.1.isSome = true)
    (each : ∀ member ∈ members, Denotes member.2 (print level member.2)) :
    FurtherMembers members (printMembers level members) := by
  induction members with
  | nil => exact .nil
  | cons entry members ih =>
      obtain ⟨key, keys⟩ := List.forall_mem_cons.1 keys
      obtain ⟨first, others⟩ := List.forall_mem_cons.1 each
      have further := FurtherMembers.cons blank_nil (blank_newline level)
        (isMember_print key first) (ih keys others)
      simpa [printMembers] using further

/-- What is printed denotes the value, wherever it stands. -/
theorem denotes_print (printable : Printable value) (level : Nat) :
    Denotes value (print level value) := by
  induction printable generalizing level with
  | null => exact .null
  | bool value =>
      cases value with
      | false => exact .boolFalse
      | true => exact .boolTrue
  | number written => exact .number written
  | string text => exact denotes_quote text
  | @array items each ih =>
      cases items with
      | nil => exact .emptyArray blank_nil
      | cons item items =>
          obtain ⟨first, others⟩ := List.forall_mem_cons.1 ih
          have denotes := Denotes.array (blank_newline (level + 1)) (first (level + 1))
            (furtherItems_printItems fun item hitem => others item hitem (level + 1))
            (blank_newline level)
          simpa [print] using denotes
  | @object members keys each ih =>
      cases members with
      | nil => exact .emptyObject blank_nil
      | cons entry members =>
          obtain ⟨key, keys⟩ := List.forall_mem_cons.1 keys
          obtain ⟨first, others⟩ := List.forall_mem_cons.1 ih
          have denotes := Denotes.object (blank_newline (level + 1))
            (isMember_print key (first (level + 1)))
            (furtherMembers_printMembers keys fun member hmember =>
              others member hmember (level + 1))
            (blank_newline level)
          simpa [print] using denotes

theorem denotes_pretty (printable : Printable value) : Denotes value value.pretty.toList := by
  rw [Value.pretty, String.toList_ofList]
  exact denotes_print printable 0

theorem read?_pretty (printable : Printable value) : read? value.pretty.toList = some value := by
  have hread := read?_of_denotes blank_nil (denotes_pretty printable) blank_nil
  rwa [List.append_nil, List.nil_append] at hread

theorem eq_of_pretty_eq {other : Value} (printable : Printable value) (also : Printable other)
    (h : value.pretty = other.pretty) : value = other := by
  have denotes := denotes_pretty printable
  rw [h] at denotes
  exact denotes.unique (denotes_pretty also)

end RegionOutline.Json
