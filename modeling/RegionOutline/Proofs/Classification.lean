import RegionOutline.Proofs.Kind.Tables

/-!
# What a region shows

A tag is looked up in the tables after its spelling was made canonical, and the row that
is found decides the kind and the text. A group is found under its own label, so its text
is that label; no row stands for an access block. A text holds only what the marker or the
tables hold, so a marker on one line gives a text on one line.
-/

namespace RegionOutline

namespace Text

/-- The text has no line terminator, neither CR nor LF. -/
def Unbroken (text : List Char) : Prop :=
  '\r' ∉ text ∧ '\n' ∉ text

instance (text : List Char) : Decidable (Unbroken text) :=
  inferInstanceAs (Decidable (_ ∧ _))

theorem Unbroken.of_subset {part text : List Char} (unbroken : Unbroken text)
    (hsubset : part ⊆ text) : Unbroken part :=
  ⟨fun hmem => unbroken.1 (hsubset hmem), fun hmem => unbroken.2 (hsubset hmem)⟩

theorem Unbroken.append {first second : List Char} (hfirst : Unbroken first)
    (hsecond : Unbroken second) : Unbroken (first ++ second) := by
  constructor
  · exact fun hmem => (List.mem_append.1 hmem).elim hfirst.1 hsecond.1
  · exact fun hmem => (List.mem_append.1 hmem).elim hfirst.2 hsecond.2

end Text

open Text

namespace Classification

/-- The tag is in one of the two tables. -/
def Listed (tag : String) : Prop :=
  tag ∈ containerTags.map Prod.fst ∨ tag ∈ itemTags.map Prod.fst

/-- All that the tables can make of a canonical tag. -/
inductive Made (tagged : Tagged) : Classification → Prop
  | container (kind : Kind) (label_eq : kind.containerLabel? = some tagged.tag) :
      Made tagged ⟨kind, tagged.tag, true⟩
  | item (item : Item) (listed : (tagged.tag, Kind.item item) ∈ itemTags) :
      Made tagged ⟨.item item, tagged.description, false⟩
  | unrecognised (unlisted : ¬ Listed tagged.tag) :
      Made tagged ⟨.unrecognised, tagged.tag ++ " " ++ tagged.description, false⟩

theorem made_ofCanonical (tagged : Tagged) : Made tagged (ofCanonical tagged) := by
  unfold ofCanonical
  cases hgroup : containerTags.lookup tagged.tag with
  | some kind => exact .container kind (lookup_containerTags_iff.1 hgroup)
  | none =>
      cases hitem : itemTags.lookup tagged.tag with
      | some kind =>
          have listed := mem_of_lookup_eq_some hitem
          obtain ⟨item, rfl⟩ := exists_item_of_mem listed
          exact .item item listed
      | none =>
          apply Made.unrecognised
          exact not_or.2 ⟨not_mem_of_lookup_eq_none hgroup, not_mem_of_lookup_eq_none hitem⟩

theorem made_classify (tag description : String) :
    Made (canonical tag description) (classify tag description) :=
  made_ofCanonical _

/-- Both halves are on one line. -/
def Tagged.Unbroken (tagged : Tagged) : Prop :=
  Text.Unbroken tagged.tag.toList ∧ Text.Unbroken tagged.description.toList

section Made

variable {tagged : Tagged} {classified : Classification}

theorem Made.isAccess_kind (made : Made tagged classified) : classified.kind.isAccess = false := by
  cases made with
  | container kind label_eq =>
      obtain ⟨group, rfl⟩ := Kind.isContainer_iff.1 (Option.isSome_of_eq_some label_eq)
      rfl
  | item => rfl
  | unrecognised => rfl

/-- The text of a group is its label. -/
theorem Made.text_eq (made : Made tagged classified) {label : String}
    (hlabel : classified.kind.containerLabel? = some label) : classified.text = label := by
  cases made with
  | container kind label_eq => exact Option.some.inj (label_eq.symm.trans hlabel)
  | item item => cases hlabel
  | unrecognised => cases hlabel

theorem Made.unbroken (made : Made tagged classified) (unbroken : tagged.Unbroken) :
    Unbroken classified.text.toList := by
  cases made with
  | container => exact unbroken.1
  | item item => exact unbroken.2
  | unrecognised =>
      rw [String.toList_append, String.toList_append]
      exact (unbroken.1.append (by decide)).append unbroken.2

end Made

theorem afterWord?_eq_some_iff {word description rest : String} :
    afterWord? word description = some rest ↔
      description.toList = word.toList ++ ' ' :: rest.toList := by
  rw [afterWord?, Option.map_eq_some_iff]
  constructor
  · rintro ⟨after, hafter, rfl⟩
    rw [stripStart?_eq_some_iff.1 hafter, String.toList_ofList, List.append_assoc]
    rfl
  · intro hdescription
    refine ⟨rest.toList, stripStart?_eq_some_iff.2 ?_, String.ofList_toList⟩
    rw [hdescription, List.append_assoc]
    rfl

variable {tag description : String}

theorem unbroken_of_afterWord? {word rest : String} (unbroken : Unbroken description.toList)
    (h : afterWord? word description = some rest) : Unbroken rest.toList := by
  apply unbroken.of_subset
  rw [afterWord?_eq_some_iff.1 h]
  exact fun c hc => List.mem_append_right _ (List.mem_cons_of_mem ' ' hc)

theorem unbroken_of_afterWordOrWhole? {word rest : String} (unbroken : Unbroken description.toList)
    (h : afterWordOrWhole? word description = some rest) : Unbroken rest.toList := by
  unfold afterWordOrWhole? at h
  split at h
  · cases h
    decide
  · exact unbroken_of_afterWord? unbroken h

/-- The tags that compound tags lead to are on one line. -/
theorem unbroken_of_lookup_compound {plural singular : String}
    (h : compoundMacros.lookup tag = some (plural, singular)) :
    Unbroken plural.toList ∧ Unbroken singular.toList := by
  have hrows : ∀ row ∈ compoundMacros,
      Unbroken row.2.1.toList ∧ Unbroken row.2.2.toList := by
    decide
  exact hrows _ (mem_of_lookup_eq_some h)

theorem unbroken_of_mergeMacro? (unbroken : Unbroken description.toList) {merged : Tagged}
    (h : mergeMacro? tag description = some merged) : merged.Unbroken := by
  unfold mergeMacro? at h
  split at h
  · cases h
  · rename_i plural singular hcompound
    obtain ⟨hplural, hsingular⟩ := unbroken_of_lookup_compound hcompound
    split at h
    · rename_i rest hrest
      cases h
      exact ⟨hplural, unbroken_of_afterWordOrWhole? unbroken hrest⟩
    -- The word of the group is not there, so the item's was found.
    · obtain ⟨rest, hrest, rfl⟩ := Option.map_eq_some_iff.1 h
      exact ⟨hsingular, unbroken_of_afterWordOrWhole? unbroken hrest⟩

theorem unbroken_canonical (htag : Unbroken tag.toList)
    (hdescription : Unbroken description.toList) : (canonical tag description).Unbroken := by
  have hscoped : Unbroken "enum class".toList := by decide
  have hplain : Unbroken "Enums (unscoped)".toList := by decide
  unfold canonical
  split
  · rename_i merged hmerged
    exact unbroken_of_mergeMacro? hdescription hmerged
  · split
    · split
      · rename_i rest hrest
        refine ⟨hscoped, ?_⟩
        rcases Option.or_eq_some_iff.1 hrest with hclass | ⟨_, hstruct⟩
        · exact unbroken_of_afterWord? hdescription hclass
        · exact unbroken_of_afterWord? hdescription hstruct
      · exact ⟨htag, hdescription⟩
    · split
      · exact ⟨hplain, hdescription⟩
      · split
        · exact ⟨by decide, by decide⟩
        · exact ⟨htag, hdescription⟩

/-- A marker on one line is shown on one line. -/
theorem unbroken_classify (htag : Unbroken tag.toList)
    (hdescription : Unbroken description.toList) :
    Unbroken (classify tag description).text.toList :=
  (made_classify tag description).unbroken (unbroken_canonical htag hdescription)

end Classification

end RegionOutline
