import RegionOutline.Proofs.Classification

/-!
# Aliased tags

The rules by which a spelling stands for a tag of the tables, written down one by one and
apart from the order in which they are tried. A rule that applies is followed, and what it
leads to is in a table. So a marker is unrecognised only if its tag is in no table and no
rule applies, and then nothing was done to it.
-/

namespace RegionOutline

theorem Kind.exists_item {kind : Kind} (hcontainer : kind.isContainer = false)
    (hrecognised : kind ≠ .unrecognised) (haccess : kind.isAccess = false) :
    ∃ item, kind = .item item := by
  cases kind with
  | unrecognised => exact absurd rfl hrecognised
  | container group =>
      rw [isContainer_iff.2 ⟨group, rfl⟩] at hcontainer
      cases hcontainer
  | item item => exact ⟨item, rfl⟩
  | access level => cases haccess

namespace Classification

/-- The description is the word and one space before the rest, or the word alone. -/
def Leads (word description rest : String) : Prop :=
  description = word ++ " " ++ rest ∨ (description = word ∧ rest = "")

/-- The rules by which a tag with its description stands for another one. -/
inductive Alias (tag description : String) : Tagged → Prop
  | compoundGroup {group : Container} {item : Item} {label rest : String}
      (compound : (tag, group, item) ∈ compoundTags)
      (label_eq : (Kind.container group).containerLabel? = some label)
      (leads : Leads "macros" description rest) : Alias tag description ⟨label, rest⟩
  | compoundItem {group : Container} {item : Item} {name rest : String}
      (compound : (tag, group, item) ∈ compoundTags)
      (listed : (name, Kind.item item) ∈ itemTags)
      (leads : Leads "macro" description rest) : Alias tag description ⟨name, rest⟩
  | scopedEnum {word rest : String} (tag_eq : tag = "enum")
      (keyword : word = "class" ∨ word = "struct")
      (description_eq : description = word ++ " " ++ rest) :
      Alias tag description ⟨"enum class", rest⟩
  | plainEnums (tag_eq : tag = "Enums") : Alias tag description ⟨"Enums (unscoped)", description⟩
  | scopedEnums (tag_eq : tag = "Enum")
      (listed : description ∈ ["Classes", "classes", "Structs", "structs"]) :
      Alias tag description ⟨"Enums", ""⟩

/-- Some rule applies. -/
def Aliased (tag description : String) : Prop := ∃ tagged, Alias tag description tagged

section Words

variable {word description rest : String}

theorem afterWord?_eq_some_iff_append :
    afterWord? word description = some rest ↔ description = word ++ " " ++ rest := by
  rw [afterWord?_eq_some_iff, ← String.toList_inj]
  simp

theorem ne_append_space (word rest : String) : word ≠ word ++ " " ++ rest := by
  intro heq
  have hlength := congrArg String.length heq
  have hspace : " ".length = 1 := rfl
  rw [String.length_append, String.length_append, hspace] at hlength
  omega

theorem afterWordOrWhole?_eq_some_iff :
    afterWordOrWhole? word description = some rest ↔ Leads word description rest := by
  unfold afterWordOrWhole? Leads
  split
  · rename_i heq
    subst heq
    simp [ne_append_space, eq_comm]
  · rename_i hne
    rw [afterWord?_eq_some_iff_append]
    simp [hne]

/-- No description begins with both words: where one goes on with a space, the other has
a letter. -/
theorem Leads.not_macros (leads : Leads "macro" description rest) :
    afterWordOrWhole? "macros" description = none := by
  apply Option.eq_none_iff_forall_ne_some.2
  intro more hmore
  have hgroupWord : description.toList[5]? = some 's' := by
    rcases afterWordOrWhole?_eq_some_iff.1 hmore with rfl | ⟨rfl, _⟩
    · simp
    · decide
  have hitemWord : description.toList[5]? ≠ some 's' := by
    rcases leads with rfl | ⟨rfl, _⟩
    · simp
    · decide
  exact hitemWord hgroupWord

/-- A scoped enumeration is told by either of two words. -/
theorem scopedWord_iff :
    (afterWord? "class" description).or (afterWord? "struct" description) = some rest ↔
      ∃ word, (word = "class" ∨ word = "struct") ∧ description = word ++ " " ++ rest := by
  rw [Option.or_eq_some_iff, afterWord?_eq_some_iff_append, afterWord?_eq_some_iff_append]
  constructor
  · rintro (hclass | ⟨_, hstruct⟩)
    · exact ⟨"class", Or.inl rfl, hclass⟩
    · exact ⟨"struct", Or.inr rfl, hstruct⟩
  · rintro ⟨word, rfl | rfl, hword⟩
    · exact Or.inl hword
    · refine Or.inr ⟨?_, hword⟩
      apply Option.eq_none_iff_forall_ne_some.2
      intro more hmore
      have hclash := hword.symm.trans (afterWord?_eq_some_iff_append.1 hmore)
      simpa using congrArg (fun text => text.toList.head?) hclash

end Words

section Rules

variable {tag description : String} {tagged : Tagged}

theorem mergeMacro?_eq_some_iff :
    mergeMacro? tag description = some tagged ↔
      ∃ plural singular rest, compoundMacros.lookup tag = some (plural, singular) ∧
        ((Leads "macros" description rest ∧ tagged = ⟨plural, rest⟩) ∨
          (Leads "macro" description rest ∧ tagged = ⟨singular, rest⟩)) := by
  unfold mergeMacro?
  constructor
  · intro h
    split at h
    · cases h
    · rename_i plural singular hcompound
      refine ⟨plural, singular, tagged.description, hcompound, ?_⟩
      split at h
      · rename_i rest hrest
        cases h
        exact Or.inl ⟨afterWordOrWhole?_eq_some_iff.1 hrest, rfl⟩
      · obtain ⟨rest, hrest, rfl⟩ := Option.map_eq_some_iff.1 h
        exact Or.inr ⟨afterWordOrWhole?_eq_some_iff.1 hrest, rfl⟩
  · rintro ⟨plural, singular, rest, hcompound, hleads⟩
    rw [hcompound]
    rcases hleads with ⟨hgroupWord, rfl⟩ | ⟨hitemWord, rfl⟩
    · simp only [afterWordOrWhole?_eq_some_iff.2 hgroupWord]
    · simp only [hitemWord.not_macros, afterWordOrWhole?_eq_some_iff.2 hitemWord, Option.map_some]

theorem mergeMacro?_eq_none (h : compoundMacros.lookup tag = none) :
    mergeMacro? tag description = none := by
  rw [mergeMacro?, h]

/-- A rule that applies is followed. -/
theorem Alias.canonical_eq (rule : Alias tag description tagged) :
    canonical tag description = tagged := by
  cases rule with
  | compoundGroup compound label_eq leads =>
      obtain ⟨singular, listed⟩ := exists_itemTag _
      have hfound := lookup_compoundMacros_iff.2 ⟨_, _, compound, label_eq, listed⟩
      have hmerged := mergeMacro?_eq_some_iff.2 ⟨_, _, _, hfound, Or.inl ⟨leads, rfl⟩⟩
      rw [canonical, hmerged]
  | compoundItem compound listed leads =>
      obtain ⟨plural, label_eq⟩ := Kind.exists_containerLabel _
      have hfound := lookup_compoundMacros_iff.2 ⟨_, _, compound, label_eq, listed⟩
      have hmerged := mergeMacro?_eq_some_iff.2 ⟨_, _, _, hfound, Or.inr ⟨leads, rfl⟩⟩
      rw [canonical, hmerged]
  | @scopedEnum word rest tag_eq keyword description_eq =>
      subst tag_eq
      have hscoped := scopedWord_iff.2 ⟨word, keyword, description_eq⟩
      rw [canonical, mergeMacro?_eq_none (by decide), if_pos rfl, hscoped]
  | plainEnums tag_eq =>
      subst tag_eq
      rw [canonical, mergeMacro?_eq_none (by decide), if_neg (by decide), if_pos rfl]
  | scopedEnums tag_eq listed =>
      subst tag_eq
      rw [canonical, mergeMacro?_eq_none (by decide), if_neg (by decide), if_neg (by decide),
        if_pos ⟨rfl, listed⟩]

/-- Where no rule is followed, nothing is changed. -/
theorem alias_or_canonical_eq (tag description : String) :
    Alias tag description (canonical tag description) ∨
      canonical tag description = ⟨tag, description⟩ := by
  -- One split for each rule, in the order in which they are tried.
  unfold canonical
  split
  · rename_i merged hmerged
    obtain ⟨plural, singular, rest, hfound, hleads⟩ := mergeMacro?_eq_some_iff.1 hmerged
    obtain ⟨group, item, compound, label_eq, listed⟩ := lookup_compoundMacros_iff.1 hfound
    rcases hleads with ⟨leads, rfl⟩ | ⟨leads, rfl⟩
    · exact Or.inl (.compoundGroup compound label_eq leads)
    · exact Or.inl (.compoundItem compound listed leads)
  · split
    · rename_i htag
      split
      · rename_i rest hrest
        obtain ⟨word, keyword, hdescription⟩ := scopedWord_iff.1 hrest
        exact Or.inl (.scopedEnum htag keyword hdescription)
      · exact Or.inr rfl
    · split
      · rename_i htag
        exact Or.inl (.plainEnums htag)
      · split
        · rename_i htag
          exact Or.inl (.scopedEnums htag.1 htag.2)
        · exact Or.inr rfl

theorem canonical_of_not_aliased (unaliased : ¬ Aliased tag description) :
    canonical tag description = ⟨tag, description⟩ :=
  (alias_or_canonical_eq tag description).resolve_left fun rule => unaliased ⟨_, rule⟩

end Rules

section Tables

variable {tagged : Tagged} {classified : Classification}

theorem Made.isContainer_eq (made : Made tagged classified) :
    classified.isContainer = classified.kind.isContainer := by
  cases made with
  | container kind label_eq => exact (Option.isSome_of_eq_some label_eq).symm
  | item => rfl
  | unrecognised => rfl

theorem Made.containerLabel?_eq (made : Made tagged classified)
    (hcontainer : classified.isContainer = true) :
    classified.kind.containerLabel? = some classified.text := by
  cases made with
  | container kind label_eq => exact label_eq
  | item item => cases hcontainer
  | unrecognised => cases hcontainer

theorem Made.unrecognised_iff (made : Made tagged classified) :
    classified.kind = .unrecognised ↔ ¬ Listed tagged.tag := by
  cases made with
  | container kind label_eq =>
      have listed : Listed tagged.tag := Or.inl (mem_containerTags_of_label label_eq)
      refine iff_of_false ?_ (not_not_intro listed)
      rintro rfl
      cases label_eq
  | item item listed =>
      exact iff_of_false nofun (not_not_intro (Or.inr (List.mem_map_of_mem listed)))
  | unrecognised unlisted => exact iff_of_true rfl unlisted

theorem Made.scopedEnums_iff (made : Made tagged classified) :
    classified.kind = .container .scopedEnums ↔ tagged.tag = "Enums" := by
  cases made with
  | container kind label_eq =>
      constructor
      · rintro rfl
        exact (Option.some.inj label_eq).symm
      · intro htag
        rw [htag] at label_eq
        exact Kind.eq_of_containerLabel? label_eq rfl
  | item item listed =>
      refine iff_of_false nofun ?_
      intro htag
      rw [htag] at listed
      exact not_mem_itemTags scopedEnums_listed (List.mem_map_of_mem listed)
  | unrecognised unlisted =>
      refine iff_of_false nofun ?_
      intro htag
      rw [htag] at unlisted
      exact unlisted (Or.inl scopedEnums_listed)

theorem Made.text_of_item (made : Made tagged classified) {item : Item}
    (hkind : classified.kind = .item item) :
    (tagged.tag, Kind.item item) ∈ itemTags ∧ classified.text = tagged.description := by
  cases made with
  | container kind label_eq =>
      cases hkind
      cases label_eq
  | item item listed =>
      cases hkind
      exact ⟨listed, rfl⟩
  | unrecognised => cases hkind

theorem Made.text_of_unrecognised (made : Made tagged classified)
    (hkind : classified.kind = .unrecognised) :
    classified.text = tagged.tag ++ " " ++ tagged.description := by
  cases made with
  | container kind label_eq =>
      cases hkind
      cases label_eq
  | item item => cases hkind
  | unrecognised => rfl

end Tables

/-- What the row of an item shows: the whole description, or what follows the words that
the rules take for a part of the tag. -/
inductive ItemText (tag description : String) : String → Prop
  | whole (listed : tag ∈ itemTags.map Prod.fst) (unaliased : ¬ Aliased tag description) :
      ItemText tag description description
  | scopedEnum {word rest : String} (tag_eq : tag = "enum")
      (keyword : word = "class" ∨ word = "struct")
      (description_eq : description = word ++ " " ++ rest) : ItemText tag description rest
  | compoundItem {group : Container} {item : Item} {rest : String}
      (compound : (tag, group, item) ∈ compoundTags) (leads : Leads "macro" description rest) :
      ItemText tag description rest

section Results

variable {tag description : String}

theorem suffix_of_append {word rest : String} (h : description = word ++ " " ++ rest) :
    rest.toList <:+ description.toList := by
  rw [h, String.toList_append]
  exact List.suffix_append _ _

theorem ItemText.suffix {text : String} (shown : ItemText tag description text) :
    text.toList <:+ description.toList := by
  cases shown with
  | whole => exact List.suffix_refl _
  | scopedEnum _ _ description_eq => exact suffix_of_append description_eq
  | compoundItem _ leads =>
      rcases leads with hword | ⟨_, rfl⟩
      · exact suffix_of_append hword
      · exact List.nil_suffix

theorem Alias.listed {tagged : Tagged} (rule : Alias tag description tagged) :
    Listed tagged.tag := by
  cases rule with
  | compoundGroup compound label_eq leads => exact Or.inl (mem_containerTags_of_label label_eq)
  | compoundItem compound listed leads => exact Or.inr (List.mem_map_of_mem listed)
  | scopedEnum => exact Or.inr scopedEnum_listed
  | plainEnums => exact Or.inl plainEnums_listed
  | scopedEnums => exact Or.inl scopedEnums_listed

theorem itemText_classify {item : Item} (hkind : (classify tag description).kind = .item item) :
    ItemText tag description (classify tag description).text := by
  obtain ⟨listed, htext⟩ := (made_classify tag description).text_of_item hkind
  rw [htext]
  by_cases aliased : Aliased tag description
  · obtain ⟨tagged, rule⟩ := aliased
    rw [rule.canonical_eq] at listed ⊢
    cases rule with
    | compoundGroup compound label_eq leads =>
        exact absurd (List.mem_map_of_mem listed)
          (not_mem_itemTags (mem_containerTags_of_label label_eq))
    | compoundItem compound _ leads => exact .compoundItem compound leads
    | scopedEnum tag_eq keyword description_eq => exact .scopedEnum tag_eq keyword description_eq
    | plainEnums => exact absurd (List.mem_map_of_mem listed) (not_mem_itemTags plainEnums_listed)
    | scopedEnums =>
        exact absurd (List.mem_map_of_mem listed) (not_mem_itemTags scopedEnums_listed)
  · rw [canonical_of_not_aliased aliased] at listed ⊢
    exact .whole (List.mem_map_of_mem listed) aliased

/-- A marker is unrecognised exactly if its tag is in no table and no rule applies. -/
theorem kind_eq_unrecognised_iff :
    (classify tag description).kind = .unrecognised ↔
      ¬ Listed tag ∧ ¬ Aliased tag description := by
  rw [(made_classify tag description).unrecognised_iff]
  by_cases aliased : Aliased tag description
  · obtain ⟨tagged, rule⟩ := aliased
    rw [rule.canonical_eq]
    exact iff_of_false (not_not_intro rule.listed) (fun h => h.2 ⟨tagged, rule⟩)
  · rw [canonical_of_not_aliased aliased]
    exact (and_iff_left aliased).symm

theorem text_of_unrecognised (hkind : (classify tag description).kind = .unrecognised) :
    (classify tag description).text = tag ++ " " ++ description := by
  rw [(made_classify tag description).text_of_unrecognised hkind,
    canonical_of_not_aliased (kind_eq_unrecognised_iff.1 hkind).2]

/-- The group of scoped enumerations is reached by its alias only. -/
theorem kind_eq_scopedEnums_iff :
    (classify tag description).kind = .container .scopedEnums ↔
      tag = "Enum" ∧ description ∈ ["Classes", "classes", "Structs", "structs"] := by
  rw [(made_classify tag description).scopedEnums_iff]
  constructor
  · intro htag
    by_cases aliased : Aliased tag description
    · obtain ⟨tagged, rule⟩ := aliased
      rw [rule.canonical_eq] at htag
      cases rule with
      | @compoundGroup group item label rest compound label_eq leads =>
          have hlabels : ∀ row ∈ compoundTags,
              (Kind.container row.2.1).containerLabel? ≠ some "Enums" := by
            decide
          have hlabel : label = "Enums" := htag
          rw [hlabel] at label_eq
          exact absurd label_eq (hlabels _ compound)
      | @compoundItem group item name rest compound listed leads =>
          have hname : name = "Enums" := htag
          rw [hname] at listed
          exact absurd (List.mem_map_of_mem listed) (not_mem_itemTags scopedEnums_listed)
      | scopedEnum => exact absurd htag (by simp)
      | plainEnums => exact absurd htag (by simp)
      | scopedEnums tag_eq listed => exact ⟨tag_eq, listed⟩
    -- The label itself, written as a tag, is an alias of another group.
    · rw [canonical_of_not_aliased aliased] at htag
      exact absurd ⟨_, .plainEnums htag⟩ aliased
  · rintro ⟨rfl, listed⟩
    rw [(Alias.scopedEnums rfl listed).canonical_eq]

theorem classify_enum {word : String} (keyword : word = "class" ∨ word = "struct")
    (description : String) :
    classify "enum" (word ++ " " ++ description) = classify "enum class" description := by
  have hplain : canonical "enum class" description = ⟨"enum class", description⟩ := by
    rw [canonical, mergeMacro?_eq_none (by decide), if_neg (by decide), if_neg (by decide),
      if_neg (by simp)]
  rw [classify, classify, (Alias.scopedEnum rfl keyword rfl).canonical_eq, hplain]

end Results

/-- What a classification tells fits together, and follows from the tables and the rules. -/
structure Consistent (tag description : String) (classified : Classification) : Prop where
  isContainer_eq : classified.isContainer = classified.kind.isContainer
  label_eq : classified.isContainer = true →
    classified.kind.containerLabel? = some classified.text
  not_access : classified.kind.isAccess = false
  item_text : classified.kind.isContainer = false → classified.kind ≠ .unrecognised →
    classified.text.toList <:+ description.toList ∧ ItemText tag description classified.text
  unrecognised_iff : classified.kind = .unrecognised ↔
    ¬ Listed tag ∧ ¬ Aliased tag description
  unrecognised_text : classified.kind = .unrecognised →
    classified.text = tag ++ " " ++ description
  scopedEnums_iff : classified.kind = .container .scopedEnums ↔
    tag = "Enum" ∧ description ∈ ["Classes", "classes", "Structs", "structs"]

theorem consistent_classify (tag description : String) :
    Consistent tag description (classify tag description) where
  isContainer_eq := (made_classify tag description).isContainer_eq
  label_eq := (made_classify tag description).containerLabel?_eq
  not_access := (made_classify tag description).isAccess_kind
  item_text := by
    intro hcontainer hrecognised
    obtain ⟨item, hitem⟩ := Kind.exists_item hcontainer hrecognised
      (made_classify tag description).isAccess_kind
    have shown := itemText_classify hitem
    exact ⟨shown.suffix, shown⟩
  unrecognised_iff := kind_eq_unrecognised_iff
  unrecognised_text := text_of_unrecognised
  scopedEnums_iff := kind_eq_scopedEnums_iff

/-- Every marker is classified consistently, and a scoped enumeration is the same whichever
of its three spellings is used. -/
theorem classified_by_tables_and_aliases (tag description : String) :
    Consistent tag description (classify tag description) ∧
      classify "enum" ("class " ++ description) = classify "enum class" description ∧
      classify "enum" ("struct " ++ description) = classify "enum class" description :=
  ⟨consistent_classify tag description, classify_enum (Or.inl rfl) description,
    classify_enum (Or.inr rfl) description⟩

end Classification

end RegionOutline
