import RegionOutline.Classification

/-!
# Agreement of the tables

The label of a group is written three times: as the tag that it is looked up by, as the fixed
label of its kind, and in the row of the style table. The tags that aliased spellings lead to
are written out once more beside the tag tables. No look-up would notice if one of them were
changed alone, so what they say is compared here, row by row.
-/

namespace RegionOutline

namespace Classification

variable {tag : String} {kind : Kind}

theorem mem_of_lookup_eq_some {α : Type} {rows : List (String × α)} {found : α}
    (h : rows.lookup tag = some found) : (tag, found) ∈ rows := by
  obtain ⟨before, after, hrows, _⟩ := List.lookup_eq_some_iff.1 h
  rw [hrows]
  exact List.mem_append_right before List.mem_cons_self

theorem not_mem_of_lookup_eq_none {α : Type} {rows : List (String × α)}
    (h : rows.lookup tag = none) : tag ∉ rows.map Prod.fst := by
  intro hmem
  obtain ⟨row, hrow, rfl⟩ := List.mem_map.1 hmem
  simpa using List.lookup_eq_none_iff.1 h row hrow

/-- Groups are looked up by their labels. -/
theorem lookup_containerTags_iff :
    containerTags.lookup tag = some kind ↔ kind.containerLabel? = some tag := by
  constructor
  · intro hfound
    have hrows : ∀ row ∈ containerTags, row.2.containerLabel? = some row.1 := by decide
    exact hrows _ (mem_of_lookup_eq_some hfound)
  · intro hlabel
    cases kind with
    | container group => cases group <;> (cases hlabel; rfl)
    | unrecognised => cases hlabel
    | item item => cases hlabel
    | access level => cases hlabel

theorem mem_containerTags_of_label (hlabel : kind.containerLabel? = some tag) :
    tag ∈ containerTags.map Prod.fst :=
  List.mem_map_of_mem (mem_of_lookup_eq_some (lookup_containerTags_iff.2 hlabel))

/-- The table of items has items only. -/
theorem exists_item_of_mem (listed : (tag, kind) ∈ itemTags) : ∃ item, kind = .item item := by
  have hrows : ∀ row ∈ itemTags, row.2 ∈ Item.all.map Kind.item := by decide
  obtain ⟨item, _, hitem⟩ := List.mem_map.1 (hrows _ listed)
  exact ⟨item, hitem.symm⟩

/-- Every item has a tag. -/
theorem exists_itemTag (item : Item) : ∃ tag, (tag, Kind.item item) ∈ itemTags := by
  have hlisted : Kind.item item ∈ itemTags.map Prod.snd := by cases item <;> decide
  obtain ⟨⟨tag, _⟩, listed, rfl⟩ := List.mem_map.1 hlisted
  exact ⟨tag, listed⟩

/-- No item has two tags. -/
theorem tag_eq_of_mem {other : String} (listed : (tag, kind) ∈ itemTags)
    (hother : (other, kind) ∈ itemTags) : tag = other := by
  have hrows : ∀ row ∈ itemTags, itemTags.find? (·.2 == row.2) = some row := by decide
  have hrow : some (tag, kind) = some (other, kind) :=
    (hrows _ listed).symm.trans (hrows _ hother)
  exact congrArg Prod.fst (Option.some.inj hrow)

/-- No tag is in both tables: those of groups are capitalised, those of items are not. -/
theorem not_mem_itemTags (h : tag ∈ containerTags.map Prod.fst) :
    tag ∉ itemTags.map Prod.fst := by
  have hgroups : ∀ label ∈ containerTags.map Prod.fst,
      label.toList.head?.any Char.isUpper = true := by
    decide
  have hitems : ∀ name ∈ itemTags.map Prod.fst,
      name.toList.head?.any Char.isUpper = false := by
    decide
  intro hitem
  exact Bool.false_ne_true ((hitems tag hitem).symm.trans (hgroups tag h))

/-! ## Tags that other spellings lead to -/

theorem scopedEnums_listed : "Enums" ∈ containerTags.map Prod.fst := by decide

theorem plainEnums_listed : "Enums (unscoped)" ∈ containerTags.map Prod.fst := by decide

theorem scopedEnum_listed : "enum class" ∈ itemTags.map Prod.fst := by decide

/-- The first halves of compound macro tags, with the group and the item they lead to. -/
def compoundTags : List (String × Container × Item) :=
  [("Object-like", .objectMacros, .objectMacro),
    ("object-like", .objectMacros, .objectMacro),
    ("Function-like", .functionMacros, .functionMacro),
    ("function-like", .functionMacros, .functionMacro)]

/-- The tags that a compound tag leads to are those of its group and its item. -/
theorem lookup_compoundMacros_iff {plural singular : String} :
    compoundMacros.lookup tag = some (plural, singular) ↔
      ∃ group item, (tag, group, item) ∈ compoundTags ∧
        (Kind.container group).containerLabel? = some plural ∧
        (singular, Kind.item item) ∈ itemTags := by
  constructor
  · intro hfound
    have hrows : ∀ row ∈ compoundMacros, ∃ leads ∈ compoundTags, row.1 = leads.1 ∧
        (Kind.container leads.2.1).containerLabel? = some row.2.1 ∧
        (row.2.2, Kind.item leads.2.2) ∈ itemTags := by
      decide
    obtain ⟨⟨_, group, item⟩, compound, rfl, hgroup, hitem⟩ :=
      hrows _ (mem_of_lookup_eq_some hfound)
    exact ⟨group, item, compound, hgroup, hitem⟩
  · rintro ⟨group, item, compound, hgroup, hitem⟩
    have hrows : ∀ row ∈ compoundTags, ∃ found ∈ compoundMacros.lookup row.1,
        (Kind.container row.2.1).containerLabel? = some found.1 ∧
        (found.2, Kind.item row.2.2) ∈ itemTags := by
      decide
    obtain ⟨found, hfound, hplural, hsingular⟩ := hrows _ compound
    cases Option.some.inj (hplural.symm.trans hgroup)
    cases tag_eq_of_mem hsingular hitem
    exact hfound

end Classification

namespace Kind

variable {kind : Kind}

/-- No two groups share a label. -/
theorem eq_of_containerLabel? {other : Kind} {label : String}
    (h : kind.containerLabel? = some label) (hother : other.containerLabel? = some label) :
    kind = other := by
  rw [← Classification.lookup_containerTags_iff] at h hother
  exact Option.some.inj (h.symm.trans hother)

theorem isContainer_iff : kind.isContainer = true ↔ ∃ group, kind = .container group := by
  constructor
  · intro hcontainer
    cases kind with
    | container group => exact ⟨group, rfl⟩
    | unrecognised => cases hcontainer
    | item item => cases hcontainer
    | access level => cases hcontainer
  · rintro ⟨group, rfl⟩
    cases group <;> rfl

theorem exists_containerLabel (group : Container) :
    ∃ label, (Kind.container group).containerLabel? = some label :=
  Option.isSome_iff_exists.1 (isContainer_iff.2 ⟨group, rfl⟩)

/-- The style table fixes the label of a group to the one it has as a kind, that of an access
block to the block's name, and no other label. -/
theorem label_appearance (kind : Kind) :
    kind.appearance.label =
      if kind.isAccess then .fixed kind.name
      else (kind.containerLabel?.map Label.fixed).getD .ofEntry := by
  cases kind with
  | unrecognised => rfl
  | container group => cases group <;> rfl
  | item item => cases item <;> rfl
  | access level => cases level <;> rfl

end Kind

end RegionOutline
