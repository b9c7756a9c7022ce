import RegionOutline.Proofs.Classification.Aliases
import RegionOutline.Proofs.Marker.Partition

/-!
# Blanks at the end of a marker

A specifier and a closer end with any amount of white space. A region takes the blanks
behind its description for a part of it, and a description decides on the kind only where
a rule for aliased tags looks at it. Such a rule asks for a word alone, for a word and a
space, or for either of the two. The main statement says that blanks at the end of a line
change nothing but the text, unless the description is such a word.
-/

open scoped Computability

namespace RegionOutline

/-- Where a row stands and what is in force there. -/
def Entry.place (entry : Entry) : Nat × Nat × Option Access :=
  (entry.line, entry.indent, entry.access)

namespace Text

/-- Spaces and tabs. -/
def Spacing (run : List Char) : Prop :=
  ∀ c ∈ run, c = ' ' ∨ c = '\t'

instance decidableSpacing (run : List Char) : Decidable (Spacing run) :=
  List.decidableBAll _ run

/-- No blanks. -/
def Visible (word : List Char) : Prop :=
  ∀ c ∈ word, isBlank c = false

instance decidableVisible (word : List Char) : Decidable (Visible word) :=
  List.decidableBAll _ word

variable {run : List Char}

theorem Spacing.isBlank (spacing : Spacing run) : ∀ c ∈ run, isBlank c = true := by
  intro c hc
  rcases spacing c hc with rfl | rfl <;> decide

theorem Spacing.not_mem_newline (spacing : Spacing run) : '\n' ∉ run := by
  intro hmem
  exact absurd (spacing _ hmem) (by decide)

/-- Blanks do not reach into a word. What begins with a word and a space does so without
the blanks at its end, or is the word alone and the first blank is the space. -/
theorem word_of_append_blanks {front word rest : List Char} (hblanks : ∀ c ∈ run, isBlank c = true)
    (visible : Visible word) (h : front ++ run = word ++ ' ' :: rest) :
    (∃ more, front = word ++ ' ' :: more) ∨ (front = word ∧ run = ' ' :: rest) := by
  rcases List.append_eq_append_iff.1 h with ⟨split, hword, hrun⟩ | ⟨split, hfront, hrest⟩
  · -- What the word has in common with the blanks is nothing.
    have hsplit : split = [] := by
      apply List.eq_nil_iff_forall_not_mem.2
      intro c hc
      have hvisible := visible c (hword ▸ List.mem_append_right front hc)
      have hblank := hblanks c (hrun ▸ List.mem_append_left _ hc)
      rw [hvisible] at hblank
      cases hblank
    subst hsplit
    rw [List.append_nil] at hword
    exact Or.inr ⟨hword.symm, hrun⟩
  · cases split with
    | nil =>
        rw [List.append_nil] at hfront
        exact Or.inr ⟨hfront, hrest.symm⟩
    | cons c more =>
        obtain ⟨rfl, _⟩ := List.cons.inj hrest
        exact Or.inl ⟨more, hfront⟩

end Text

open Text

namespace Classification

section Words

variable {word description : String} {blank : Char} {more : List Char}

theorem exists_append_iff (spacing : Spacing (blank :: more))
    (visible : Visible word.toList) :
    (∃ rest, description ++ String.ofList (blank :: more) = word ++ " " ++ rest) ↔
      (∃ rest, description = word ++ " " ++ rest) ∨ (description = word ∧ blank = ' ') := by
  have hword : ∀ {text rest : String},
      text = word ++ " " ++ rest ↔ text.toList = word.toList ++ ' ' :: rest.toList := by
    intro text rest
    rw [← String.toList_inj]
    simp
  constructor
  · rintro ⟨rest, hrest⟩
    have hlist := hword.1 hrest
    rw [String.toList_append, String.toList_ofList] at hlist
    rcases word_of_append_blanks spacing.isBlank visible hlist with ⟨after, hafter⟩ | ⟨hsame, hrun⟩
    · exact Or.inl ⟨String.ofList after, hword.2 (by rw [hafter, String.toList_ofList])⟩
    · exact Or.inr ⟨String.toList_inj.1 hsame, (List.cons.inj hrun).1⟩
  · rintro (⟨rest, rfl⟩ | ⟨rfl, rfl⟩)
    · exact ⟨rest ++ String.ofList (blank :: more), by rw [String.append_assoc]⟩
    · refine ⟨String.ofList more, hword.2 ?_⟩
      rw [String.toList_append, String.toList_ofList, String.toList_ofList]

theorem append_ne_of_visible (spacing : Spacing (blank :: more))
    (visible : Visible word.toList) :
    description ++ String.ofList (blank :: more) ≠ word := by
  rintro rfl
  have hblank := spacing.isBlank blank List.mem_cons_self
  rw [visible blank (by simp)] at hblank
  cases hblank

/-- A word leads a text with blanks at its end if it leads the text without them, unless
the text is the word and the blank behind it no space. -/
theorem exists_leads_append_iff (spacing : Spacing (blank :: more))
    (visible : Visible word.toList) :
    (∃ rest, Leads word (description ++ String.ofList (blank :: more)) rest) ↔
      (∃ rest, Leads word description rest) ∧ (description = word → blank = ' ') := by
  have hleads : ∀ text, (∃ rest, Leads word text rest) ↔
      (∃ rest, text = word ++ " " ++ rest) ∨ text = word := by
    intro text
    simp only [Leads, exists_or, exists_and_left, exists_eq, and_true]
  rw [hleads, hleads, exists_append_iff spacing visible,
    or_iff_left (append_ne_of_visible spacing visible)]
  constructor
  · rintro (⟨rest, rfl⟩ | ⟨rfl, rfl⟩)
    · exact ⟨Or.inl ⟨rest, rfl⟩, fun hword => absurd hword.symm (ne_append_space word rest)⟩
    · exact ⟨Or.inr rfl, fun _ => rfl⟩
  · rintro ⟨hrest | hword, hspace⟩
    · exact Or.inl hrest
    · exact Or.inr ⟨hword, hspace hword⟩

end Words

/-- A blank behind the description makes a difference. The description is a word that a rule
knows, and the rule asks for the word alone, for a space behind it, or for either of the
two. -/
inductive Sensitive (tag description : String) (blank : Char) : Prop
  | scopedEnums (tag_eq : tag = "Enum")
      (listed : description ∈ ["Classes", "classes", "Structs", "structs"])
  | scopedEnum (tag_eq : tag = "enum") (keyword : description = "class" ∨ description = "struct")
      (space : blank = ' ')
  | compound {group : Container} {item : Item} (compound : (tag, group, item) ∈ compoundTags)
      (word : description = "macros" ∨ description = "macro") (tab : blank = '\t')

section Rules

variable {tag description : String} {blank : Char} {more : List Char} {tagged : Tagged}

theorem visible_keyword {word : String} (keyword : word = "class" ∨ word = "struct") :
    Visible word.toList := by
  rcases keyword with rfl | rfl <;> decide

/-- None of the words for the group of scoped enumerations ends with a blank. -/
theorem append_not_listed (spacing : Spacing (blank :: more)) :
    description ++ String.ofList (blank :: more) ∉
      ["Classes", "classes", "Structs", "structs"] := by
  have hvisible : ∀ word ∈ ["Classes", "classes", "Structs", "structs"],
      Visible word.toList := by
    decide
  intro hmem
  exact append_ne_of_visible spacing (hvisible _ hmem) rfl

/-- A rule that applies still does so with blanks behind the description, and leads to the
same tag. -/
theorem Alias.append_blanks (rule : Alias tag description tagged)
    (spacing : Spacing (blank :: more)) (settled : ¬ Sensitive tag description blank) :
    ∃ rest, Alias tag (description ++ String.ofList (blank :: more)) ⟨tagged.tag, rest⟩ := by
  have hspace : blank ≠ '\t' → blank = ' ' := (spacing blank List.mem_cons_self).resolve_right
  cases rule with
  | compoundGroup compound label_eq leads =>
      obtain ⟨rest, longer⟩ := (exists_leads_append_iff spacing (by decide)).2
        ⟨⟨_, leads⟩, fun hword => hspace fun htab =>
          settled (.compound compound (Or.inl hword) htab)⟩
      exact ⟨rest, .compoundGroup compound label_eq longer⟩
  | compoundItem compound listed leads =>
      obtain ⟨rest, longer⟩ := (exists_leads_append_iff spacing (by decide)).2
        ⟨⟨_, leads⟩, fun hword => hspace fun htab =>
          settled (.compound compound (Or.inr hword) htab)⟩
      exact ⟨rest, .compoundItem compound listed longer⟩
  | scopedEnum tag_eq keyword description_eq =>
      obtain ⟨rest, longer⟩ := (exists_append_iff spacing (visible_keyword keyword)).2
        (Or.inl ⟨_, description_eq⟩)
      exact ⟨rest, .scopedEnum tag_eq keyword longer⟩
  | plainEnums tag_eq => exact ⟨_, .plainEnums tag_eq⟩
  | scopedEnums tag_eq listed => exact absurd (.scopedEnums tag_eq listed) settled

/-- A rule that applies with blanks behind the description applies without them. -/
theorem aliased_of_append_blanks (spacing : Spacing (blank :: more))
    (aliased : Aliased tag (description ++ String.ofList (blank :: more)))
    (settled : ¬ Sensitive tag description blank) : Aliased tag description := by
  obtain ⟨tagged, rule⟩ := aliased
  cases rule with
  | compoundGroup compound label_eq leads =>
      obtain ⟨⟨rest, shorter⟩, _⟩ := (exists_leads_append_iff spacing (by decide)).1 ⟨_, leads⟩
      exact ⟨_, .compoundGroup compound label_eq shorter⟩
  | compoundItem compound listed leads =>
      obtain ⟨⟨rest, shorter⟩, _⟩ := (exists_leads_append_iff spacing (by decide)).1 ⟨_, leads⟩
      exact ⟨_, .compoundItem compound listed shorter⟩
  | scopedEnum tag_eq keyword description_eq =>
      rcases (exists_append_iff spacing (visible_keyword keyword)).1 ⟨_, description_eq⟩ with
        ⟨rest, shorter⟩ | ⟨rfl, hspace⟩
      · exact ⟨_, .scopedEnum tag_eq keyword shorter⟩
      · exact absurd (.scopedEnum tag_eq keyword hspace) settled
  | plainEnums tag_eq => exact ⟨_, .plainEnums tag_eq⟩
  | scopedEnums tag_eq listed => exact absurd listed (append_not_listed spacing)

theorem tag_canonical_append (spacing : Spacing (blank :: more))
    (settled : ¬ Sensitive tag description blank) :
    (canonical tag (description ++ String.ofList (blank :: more))).tag =
      (canonical tag description).tag := by
  by_cases aliased : Aliased tag description
  · obtain ⟨tagged, rule⟩ := aliased
    obtain ⟨rest, longer⟩ := rule.append_blanks spacing settled
    rw [longer.canonical_eq, rule.canonical_eq]
  · have hlonger := fun longer => aliased (aliased_of_append_blanks spacing longer settled)
    rw [canonical_of_not_aliased hlonger, canonical_of_not_aliased aliased]

/-- The tables decide on the kind by the tag alone. -/
theorem kind_ofCanonical_eq {first second : Tagged} (h : first.tag = second.tag) :
    (ofCanonical first).kind = (ofCanonical second).kind := by
  unfold ofCanonical
  rw [h]
  cases containerTags.lookup second.tag with
  | some group => rfl
  | none => cases itemTags.lookup second.tag <;> rfl

theorem not_listed_of_compound {group : Container} {item : Item}
    (compound : (tag, group, item) ∈ compoundTags) : ¬ Listed tag := by
  have hall : ∀ row ∈ compoundTags,
      ¬ (row.1 ∈ containerTags.map Prod.fst ∨ row.1 ∈ itemTags.map Prod.fst) := by
    decide
  exact hall _ compound

/-- A compound tag is not joined with a word that has a tab behind it. -/
theorem not_aliased_of_tab {group : Container} {item : Item}
    (compound : (tag, group, item) ∈ compoundTags)
    (word : description = "macros" ∨ description = "macro") (spacing : Spacing ('\t' :: more)) :
    ¬ Aliased tag (description ++ String.ofList ('\t' :: more)) := by
  have hother : ∀ row ∈ compoundTags, row.1 ≠ "enum" ∧ row.1 ≠ "Enums" ∧ row.1 ≠ "Enum" := by
    decide
  obtain ⟨hscoped, hplain, hgroup⟩ := hother _ compound
  -- Of the two words, only the one that stands there can lead, and it needs a space.
  have hword : ∀ wanted, wanted = "macros" ∨ wanted = "macro" →
      ¬ ∃ rest, Leads wanted (description ++ String.ofList ('\t' :: more)) rest := by
    intro wanted hwanted hleads
    have hvisible : Visible wanted.toList := by
      rcases hwanted with rfl | rfl <;> decide
    obtain ⟨⟨rest, hlonger | ⟨hsame, _⟩⟩, hspace⟩ :=
      (exists_leads_append_iff spacing hvisible).1 hleads
    · have hspaceless : ' ' ∉ description.toList := by
        rcases word with rfl | rfl <;> decide
      apply hspaceless
      rw [hlonger]
      simp
    · exact absurd (hspace hsame) (by decide)
  rintro ⟨tagged, rule⟩
  cases rule with
  | compoundGroup _ _ leads => exact hword _ (Or.inl rfl) ⟨_, leads⟩
  | compoundItem _ _ leads => exact hword _ (Or.inr rfl) ⟨_, leads⟩
  | scopedEnum tag_eq => exact hscoped tag_eq
  | plainEnums tag_eq => exact hplain tag_eq
  | scopedEnums tag_eq => exact hgroup tag_eq

theorem aliased_of_compound {group : Container} {item : Item}
    (compound : (tag, group, item) ∈ compoundTags)
    (word : description = "macros" ∨ description = "macro") : Aliased tag description := by
  rcases word with rfl | rfl
  · obtain ⟨label, label_eq⟩ := Kind.exists_containerLabel group
    exact ⟨_, .compoundGroup compound label_eq (Or.inr ⟨rfl, rfl⟩)⟩
  · obtain ⟨name, listed⟩ := exists_itemTag item
    exact ⟨_, .compoundItem compound listed (Or.inr ⟨rfl, rfl⟩)⟩

theorem Sensitive.kind_ne (sensitive : Sensitive tag description blank)
    (spacing : Spacing (blank :: more)) :
    (classify tag (description ++ String.ofList (blank :: more))).kind ≠
      (classify tag description).kind := by
  cases sensitive with
  | scopedEnums tag_eq listed =>
      rw [kind_eq_scopedEnums_iff.2 ⟨tag_eq, listed⟩]
      intro hkind
      exact append_not_listed spacing (kind_eq_scopedEnums_iff.1 hkind).2
  | scopedEnum tag_eq keyword space =>
      subst tag_eq space
      have hplain : (classify "enum" description).kind = .item .plainEnum := by
        rcases keyword with rfl | rfl <;> decide
      have hscoped : (classify "enum" (description ++ String.ofList (' ' :: more))).kind =
          .item .scopedEnum := by
        have hsplit : String.ofList (' ' :: more) = " " ++ String.ofList more := by
          rw [← String.toList_inj]
          simp
        have hkind : (ofCanonical ⟨"enum class", String.ofList more⟩).kind =
            (ofCanonical ⟨"enum class", ""⟩).kind := kind_ofCanonical_eq rfl
        rw [hsplit, ← String.append_assoc, classify,
          (Alias.scopedEnum rfl keyword rfl).canonical_eq, hkind]
        decide
      rw [hplain, hscoped]
      decide
  | compound compound word tab =>
      subst tab
      have hplain := kind_eq_unrecognised_iff.2
        ⟨not_listed_of_compound compound, not_aliased_of_tab compound word spacing⟩
      rw [hplain]
      intro hkind
      exact (kind_eq_unrecognised_iff.1 hkind.symm).2 (aliased_of_compound compound word)

/-- Blanks behind a description change the kind exactly where a rule is sensitive to them. -/
theorem kind_classify_append_iff (spacing : Spacing (blank :: more)) :
    (classify tag (description ++ String.ofList (blank :: more))).kind =
        (classify tag description).kind ↔
      ¬ Sensitive tag description blank := by
  constructor
  · intro hkind sensitive
    exact sensitive.kind_ne spacing hkind
  · intro settled
    exact kind_ofCanonical_eq (tag_canonical_append spacing settled)

end Rules

end Classification

namespace Grammar

variable {line blanks : List Char}

theorem append_mem_spaces {run : List Char} (hrun : run ∈ space∗)
    (hblanks : ∀ c ∈ blanks, isBlank c = true) : run ++ blanks ∈ space∗ := by
  apply mem_spaces.2
  intro c hc
  exact (List.mem_append.1 hc).elim (mem_spaces.1 hrun c) (hblanks c)

theorem append_mem_specifierLine {level : Access} (h : line ∈ specifierLine level)
    (hblanks : ∀ c ∈ blanks, isBlank c = true) : line ++ blanks ∈ specifierLine level := by
  obtain ⟨lead, hlead, middle, hmiddle, trail, htrail, rfl⟩ := mem_specifierLine.1 h
  apply mem_specifierLine.2
  exact ⟨lead, hlead, middle, hmiddle, trail ++ blanks, append_mem_spaces htrail hblanks, by simp⟩

theorem append_mem_closerLine (h : line ∈ closerLine)
    (hblanks : ∀ c ∈ blanks, isBlank c = true) : line ++ blanks ∈ closerLine := by
  obtain ⟨front, hfront, trail, htrail, rfl⟩ := h
  exact ⟨front, hfront, trail ++ blanks, append_mem_spaces htrail hblanks, by simp⟩

/-- On a single line, blanks at the end become a part of the description, if there is
one. -/
theorem ReadsRegion.append_blanks {tag description : List Char}
    (reads : ReadsRegion line tag description) (unbroken : '\n' ∉ line)
    (hblanks : ∀ c ∈ blanks, isBlank c = true) (single : '\n' ∉ blanks) :
    ReadsRegion (line ++ blanks) tag (if description = [] then [] else description ++ blanks) := by
  obtain ⟨front, between, rest, parts, first⟩ := reads
  have hrest : rest = description := by
    apply first.text_eq.resolve_right
    rintro ⟨more, rfl⟩
    exact unbroken (by rw [parts.line_eq]; simp)
  subst hrest
  split
  · rename_i hempty
    subst hempty
    -- There is nothing behind the tag but white space, so it only gets longer.
    refine ⟨front, between ++ blanks, [], ?_, ⟨List.not_mem_nil, Or.inl rfl⟩⟩
    have hspaces := append_mem_spaces parts.between_mem hblanks
    constructor
    · rw [parts.line_eq]
      simp
    · exact parts.front_mem
    · exact parts.tag_mem
    · intro c hc
      rw [List.append_nil] at hc
      exact (isBlank_iff c).1 (mem_spaces.1 hspaces c (List.mem_of_mem_head? hc))
    · exact hspaces
    · simp
  · rename_i hfilled
    have hhead : (rest ++ blanks).head? = rest.head? := List.head?_append_of_ne_nil rest hfilled
    refine ⟨front, between, rest ++ blanks, ?_, ?_⟩
    · constructor
      · rw [parts.line_eq]
        simp
      · exact parts.front_mem
      · exact parts.tag_mem
      · rw [← List.append_assoc, List.head?_append_of_ne_nil _ (by simp [hfilled])]
        exact parts.tag_maximal
      · exact parts.between_mem
      · rw [hhead]
        exact parts.between_maximal
    · exact ⟨by simp [first.unbroken, single], Or.inl rfl⟩

end Grammar

namespace Marker

/-- The marker of the line with blanks at its end. Blanks alone are no description. -/
def followedBy (blanks : List Char) : Marker → Marker
  | .openRegion tag description =>
      .openRegion tag (if description = "" then "" else description ++ String.ofList blanks)
  | .specifier level => .specifier level
  | .openAccess level => .openAccess level
  | .close => .close

theorem Written.append_blanks {line blanks : List Char} {marker : Marker}
    (written : Written line marker) (unbroken : '\n' ∉ line) (spacing : Spacing blanks) :
    Written (line ++ blanks) (marker.followedBy blanks) := by
  have hblanks := spacing.isBlank
  have single := spacing.not_mem_newline
  cases marker with
  | specifier level => exact Grammar.append_mem_specifierLine written hblanks
  | openAccess level =>
      obtain ⟨tag, description, reads, names⟩ := written
      exact ⟨tag, _, reads.append_blanks unbroken hblanks single, names⟩
  | openRegion tag description =>
      obtain ⟨reads, plain⟩ := written
      refine ⟨?_, plain⟩
      have longer := reads.append_blanks unbroken hblanks single
      by_cases hempty : description = ""
      · subst hempty
        simpa using longer
      · have hfilled : description.toList ≠ [] := by simpa using hempty
        rw [if_neg hfilled] at longer
        rw [if_neg hempty, String.toList_append, String.toList_ofList]
        exact longer
  | close => exact Grammar.append_mem_closerLine written hblanks

end Marker

namespace ScanState

variable (state : ScanState) (number : Nat) (marker : Marker) (blanks : List Char)

theorem step_followedBy :
    state.step (some (marker.followedBy blanks)) = state.step (some marker) := by
  cases marker <;> rfl

theorem place_emit?_followedBy :
    (state.emit? number (some (marker.followedBy blanks))).map Entry.place =
      (state.emit? number (some marker)).map Entry.place := by
  cases marker <;> rfl

end ScanState

open Classification in
/-- A region with blanks behind its description gives a row of the same kind, unless a rule
is sensitive to them. -/
theorem ScanState.kind_emit?_followedBy_iff (state : ScanState) (number : Nat) (marker : Marker)
    {blank : Char} {more : List Char} (spacing : Spacing (blank :: more)) :
    (state.emit? number (some (marker.followedBy (blank :: more)))).map Entry.kind =
        (state.emit? number (some marker)).map Entry.kind ↔
      ∀ tag description, marker = .openRegion tag description →
        ¬ Sensitive tag description blank := by
  cases marker with
  | specifier level => simp [Marker.followedBy]
  | openAccess level => simp [Marker.followedBy]
  | openRegion tag description =>
      have hkind : ∀ text, (state.emit? number (some (.openRegion tag text))).map Entry.kind =
          some (classify tag text).kind := fun _ => rfl
      have hmarker : (∀ other text, Marker.openRegion tag description = .openRegion other text →
          ¬ Sensitive other text blank) ↔ ¬ Sensitive tag description blank := by
        constructor
        · exact fun h => h tag description rfl
        · rintro settled _ _ ⟨⟩
          exact settled
      rw [hmarker, Marker.followedBy, hkind, hkind, Option.some_inj]
      by_cases hempty : description = ""
      · subst hempty
        rw [if_pos rfl]
        refine iff_of_true rfl ?_
        rintro (⟨_, listed⟩ | ⟨_, keyword, _⟩ | ⟨_, word, _⟩)
        · exact absurd listed (by decide)
        · exact absurd keyword (by decide)
        · exact absurd word (by decide)
      · rw [if_neg hempty]
        exact kind_classify_append_iff spacing
  | close => simp [Marker.followedBy]

/-- Two lines leave the scanner in the same state, and if they give a row, it stands in the
same place. -/
structure Scanner.ReadsAlike (scanner : Scanner) (line other : List Char) : Prop where
  next_eq : (scanner.feed other).1 = (scanner.feed line).1
  place_eq : (scanner.feed other).2.map Entry.place = (scanner.feed line).2.map Entry.place

/-- Spaces and tabs at the end of a marker line change neither what the scanner goes on with
nor where the row stands, and they change its kind exactly where the rule for an aliased tag
is sensitive to the first of them. -/
theorem marker_reads_alike_with_blanks (scanner : Scanner) {line : List Char} {marker : Marker}
    {blank : Char} {more : List Char} (written : Marker.Written line marker)
    (unbroken : Unbroken line) (spacing : Spacing (blank :: more)) :
    scanner.ReadsAlike line (line ++ blank :: more) ∧
      ((scanner.feed (line ++ blank :: more)).2.map Entry.kind =
          (scanner.feed line).2.map Entry.kind ↔
        ∀ tag description, marker = .openRegion tag description →
          ¬ Classification.Sensitive tag description blank) := by
  have hline := Marker.ofLine?_eq_some_iff.2 written
  have hlonger := Marker.ofLine?_eq_some_iff.2 (written.append_blanks unbroken.2 spacing)
  refine ⟨⟨?_, ?_⟩, ?_⟩
  · simp only [Scanner.feed, hline, hlonger, ScanState.step_followedBy]
  · simp only [Scanner.feed, hline, hlonger]
    apply ScanState.place_emit?_followedBy
  · simp only [Scanner.feed, hline, hlonger]
    exact ScanState.kind_emit?_followedBy_iff _ _ _ spacing

/-- A tab behind the second half of a compound tag, inside a block of its own. -/
theorem compound_tag_reads_alike_with_tab :
    ({ state := { depth := 1 }, line := 4 } : Scanner).ReadsAlike
        "#pragma region Object-like macros".toList
        ("#pragma region Object-like macros".toList ++ ['\t', ' ']) ∧
      (({ state := { depth := 1 }, line := 4 } : Scanner).feed
          ("#pragma region Object-like macros".toList ++ ['\t', ' '])).2.map Entry.kind ≠
        (({ state := { depth := 1 }, line := 4 } : Scanner).feed
          "#pragma region Object-like macros".toList).2.map Entry.kind := by
  have written : Marker.Written "#pragma region Object-like macros".toList
      (.openRegion "Object-like" "macros") := Marker.ofLine?_eq_some_iff.1 (by decide)
  obtain ⟨alike, hkind⟩ := marker_reads_alike_with_blanks { state := { depth := 1 }, line := 4 }
    written (by decide) (by decide : Spacing ['\t', ' '])
  refine ⟨alike, ?_⟩
  intro hsame
  apply hkind.1 hsame _ _ rfl
  exact .compound List.mem_cons_self (Or.inl rfl) rfl

/-- Blanks at the end are not always without effect on the kind: with a space behind it, the
name of a plain enumeration is taken for the keyword of a scoped one. -/
theorem not_marker_keeps_kind_with_blanks :
    ¬ ∀ (scanner : Scanner) (line : List Char) (marker : Marker) (blanks : List Char),
      Marker.Written line marker → Unbroken line → blanks ≠ [] → Spacing blanks →
        (scanner.feed (line ++ blanks)).1.state = (scanner.feed line).1.state ∧
          (scanner.feed (line ++ blanks)).2.map
              (fun entry => (entry.kind, entry.indent, entry.access)) =
            (scanner.feed line).2.map (fun entry => (entry.kind, entry.indent, entry.access)) := by
  intro h
  have written : Marker.Written "#pragma region enum class".toList
      (.openRegion "enum" "class") := Marker.ofLine?_eq_some_iff.1 (by decide)
  have hsame := (h {} _ _ [' '] written (by decide) (by decide) (by decide)).2
  exact absurd hsame (by decide)

end RegionOutline
