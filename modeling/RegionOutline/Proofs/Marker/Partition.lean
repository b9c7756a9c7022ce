import RegionOutline.Proofs.Classification
import RegionOutline.Proofs.Marker.Grammar
import RegionOutline.Scan.State

/-!
# Classes of lines

No line is in two of the classes of the grammar: a specifier begins with a letter and the
other two with `#`, and these differ in the word that follows. So it makes no difference in
which order the classes are tried, and the marker of a line is what the grammar says. The
main statement carries this over to the scanner: which lines give an entry, and which one.
-/

open scoped Computability

namespace RegionOutline

namespace Marker

open Text Grammar

variable {line : List Char}

theorem head?_skipBlanks_specifierLine {level : Access} (h : line ∈ specifierLine level) :
    (skipBlanks line).head? = some 'p' := by
  obtain ⟨lead, hlead, middle, _, trail, _, hline⟩ := mem_specifierLine.1 h
  have hstrip := stripKeyword_eq_some_iff.2 ⟨lead, hlead, hline⟩
  rw [stripStart?_eq_some_iff.1 hstrip]
  cases level <;> rfl

theorem head?_skipBlanks_afterPragma? {word : String} {rest : List Char}
    (h : afterPragma? word line = some rest) : (skipBlanks line).head? = some '#' := by
  rw [afterPragma?_eq, pragmaBody?] at h
  obtain ⟨body, hbody, _⟩ := Option.bind_eq_some_iff.1 h
  obtain ⟨after, hafter, _⟩ := Option.bind_eq_some_iff.1 hbody
  rw [stripStart?_eq_some_iff.1 hafter]
  rfl

theorem pragmaBody?_of_afterPragma? {word : String} {rest : List Char}
    (h : afterPragma? word line = some rest) : pragmaBody? line = some (word.toList ++ rest) := by
  rw [afterPragma?_eq] at h
  obtain ⟨body, hbody, hrest⟩ := Option.bind_eq_some_iff.1 h
  rw [hbody, stripStart?_eq_some_iff.1 hrest]

theorem afterPragma?_of_regionLine (h : line ∈ regionLine) :
    ∃ rest, afterPragma? "region" line = some rest := by
  obtain ⟨_, ⟨front, hfront, space, _, rfl⟩, c, more, _, rfl⟩ := mem_regionLine.1 h
  refine ⟨space ++ c :: more, (afterPragma?_eq_some_iff (by decide)).2 ⟨front, hfront, ?_⟩⟩
  exact List.append_assoc _ _ _

theorem afterPragma?_of_closerLine (h : line ∈ closerLine) :
    ∃ rest, afterPragma? "endregion" line = some rest := by
  obtain ⟨front, hfront, rest, _, rfl⟩ := h
  exact ⟨rest, (afterPragma?_eq_some_iff (by decide)).2 ⟨front, hfront, rfl⟩⟩

theorem afterPragma?_ne_some_of_specifierLine {level : Access} (h : line ∈ specifierLine level)
    (word : String) (rest : List Char) : afterPragma? word line ≠ some rest := by
  intro hrest
  have hfirst := head?_skipBlanks_afterPragma? hrest
  rw [head?_skipBlanks_specifierLine h] at hfirst
  exact absurd hfirst (by decide)

theorem not_regionLine_of_specifierLine {level : Access} (h : line ∈ specifierLine level) :
    line ∉ regionLine := by
  intro hregion
  obtain ⟨rest, hrest⟩ := afterPragma?_of_regionLine hregion
  exact afterPragma?_ne_some_of_specifierLine h _ rest hrest

theorem not_closerLine_of_specifierLine {level : Access} (h : line ∈ specifierLine level) :
    line ∉ closerLine := by
  intro hcloser
  obtain ⟨rest, hrest⟩ := afterPragma?_of_closerLine hcloser
  exact afterPragma?_ne_some_of_specifierLine h _ rest hrest

theorem not_closerLine_of_regionLine (h : line ∈ regionLine) : line ∉ closerLine := by
  intro hcloser
  obtain ⟨rest, hrest⟩ := afterPragma?_of_regionLine h
  obtain ⟨rest', hrest'⟩ := afterPragma?_of_closerLine hcloser
  have hbody := pragmaBody?_of_afterPragma? hrest
  rw [pragmaBody?_of_afterPragma? hrest'] at hbody
  -- Behind the same white space, the words differ in their first letters.
  have hfirst : some 'e' = some 'r' := congrArg List.head? (Option.some.inj hbody)
  exact absurd hfirst (by decide)

theorem specifier?_eq_none_iff : specifier? line = none ↔ ∀ level, line ∉ specifierLine level := by
  simp only [Option.eq_none_iff_forall_ne_some, ne_eq, specifier?_eq_some_iff]

theorem region?_eq_none_iff : region? line = none ↔ line ∉ regionLine := by
  rw [← isSome_region?_iff, Option.not_isSome_iff_eq_none]

theorem accessOfTag?_eq_none_iff {tag : List Char} :
    accessOfTag? tag = none ↔ ∀ level, ¬ Names level tag := by
  simp only [Option.eq_none_iff_forall_ne_some, ne_eq, accessOfTag?_eq_some_iff]

theorem regionLine_of_readsRegion {tag description : List Char}
    (h : ReadsRegion line tag description) : line ∈ regionLine := by
  rw [← isSome_region?_iff, region?_eq_some_iff.2 h]
  rfl

/-- What the grammar says of a line with the given marker. -/
def Written (line : List Char) : Marker → Prop
  | .specifier level => line ∈ specifierLine level
  | .openAccess level => OpensAccess level line
  | .openRegion tag description => OpensPlain tag.toList description.toList line
  | .close => line ∈ closerLine

theorem written_of_ofLine? {marker : Marker} (h : ofLine? line = some marker) :
    Written line marker := by
  unfold ofLine? at h
  split at h
  · rename_i level hlevel
    cases h
    exact specifier?_eq_some_iff.1 hlevel
  · split at h
    · rename_i tag description hregion
      have hreads := region?_eq_some_iff.1 hregion
      split at h
      · rename_i level hlevel
        cases h
        exact ⟨tag, description, hreads, accessOfTag?_eq_some_iff.1 hlevel⟩
      · rename_i hplain
        cases h
        rw [Written, String.toList_ofList, String.toList_ofList]
        exact ⟨hreads, accessOfTag?_eq_none_iff.1 hplain⟩
    · split at h
      · rename_i hclose
        cases h
        exact isClose_iff.1 hclose
      · cases h

theorem ofLine?_of_readsRegion {tag description : List Char}
    (h : ReadsRegion line tag description) :
    ofLine? line =
      some ((accessOfTag? tag).elim
        (.openRegion (String.ofList tag) (String.ofList description)) .openAccess) := by
  have hspecifier : specifier? line = none := specifier?_eq_none_iff.2 fun level hlevel =>
    not_regionLine_of_specifierLine hlevel (regionLine_of_readsRegion h)
  simp only [ofLine?, hspecifier, region?_eq_some_iff.2 h]
  cases accessOfTag? tag <;> rfl

/-- The marker of a line is what the grammar says. -/
theorem ofLine?_eq_some_iff {marker : Marker} :
    ofLine? line = some marker ↔ Written line marker := by
  refine ⟨written_of_ofLine?, ?_⟩
  intro written
  cases marker with
  | specifier level => rw [ofLine?, specifier?_eq_some_iff.2 written]
  | openAccess level =>
      obtain ⟨tag, description, hreads, hnames⟩ := written
      rw [ofLine?_of_readsRegion hreads, accessOfTag?_eq_some_iff.2 hnames]
      rfl
  | openRegion tag description =>
      obtain ⟨hreads, hplain⟩ := written
      rw [ofLine?_of_readsRegion hreads, accessOfTag?_eq_none_iff.2 hplain, Option.elim_none,
        String.ofList_toList, String.ofList_toList]
  | close =>
      have hspecifier : specifier? line = none := specifier?_eq_none_iff.2 fun level hlevel =>
        not_closerLine_of_specifierLine hlevel written
      have hregion : region? line = none := region?_eq_none_iff.2 fun hregion =>
        not_closerLine_of_regionLine hregion written
      simp only [ofLine?, hspecifier, hregion, isClose_iff.2 written, if_true]

/-- Every other line is in none of the classes. -/
theorem ofLine?_eq_none_iff :
    ofLine? line = none ↔
      (∀ level, line ∉ specifierLine level) ∧ line ∉ regionLine ∧ line ∉ closerLine := by
  constructor
  · intro hnone
    have hunwritten : ∀ marker, ¬ Written line marker := by
      intro marker hwritten
      rw [ofLine?_eq_some_iff.2 hwritten] at hnone
      cases hnone
    refine ⟨fun level => hunwritten (.specifier level), ?_, hunwritten .close⟩
    intro hregion
    obtain ⟨⟨tag, description⟩, hcaptures⟩ :=
      Option.isSome_iff_exists.1 (isSome_region?_iff.2 hregion)
    rw [ofLine?_of_readsRegion (region?_eq_some_iff.1 hcaptures)] at hnone
    cases hnone
  · rintro ⟨hspecifier, hregion, hcloser⟩
    have hclose : isClose line ≠ true := fun hclose => hcloser (isClose_iff.1 hclose)
    simp only [ofLine?, specifier?_eq_none_iff.2 hspecifier, region?_eq_none_iff.2 hregion,
      if_neg hclose]

theorem accessRegion_iff {level : Access} :
    (∃ tag description, region? line = some (tag, description) ∧ accessOfTag? tag = some level) ↔
      OpensAccess level line := by
  simp only [region?_eq_some_iff, accessOfTag?_eq_some_iff, OpensAccess]

end Marker

namespace ScanState

variable {state : ScanState} {number : Nat} {marker : Option Marker} {entry : Entry}

theorem map_kind_emit?_iff {level : Access} :
    (state.emit? number marker).map Entry.kind = some (.access level) ↔
      marker = some (.specifier level) ∨ marker = some (.openAccess level) := by
  match marker with
  | none => simp [emit?]
  | some (.specifier other) => simp [emit?, Entry.atDepth]
  | some (.openAccess other) => simp [emit?, Entry.atDepth]
  | some (.openRegion tag description) =>
      have hkind := (Classification.made_classify tag description).isAccess_kind
      constructor
      · intro hmade
        have heq : (classify tag description).kind = .access level := Option.some.inj hmade
        rw [heq] at hkind
        cases hkind
      · rintro (h | h) <;> cases h
  | some .close => simp [emit?]

/-- An access row carries the level of its kind and no text. -/
theorem access_row_of_emit? {level : Access} (made : state.emit? number marker = some entry)
    (hkind : entry.kind = .access level) : entry.text = "" ∧ entry.access = some level := by
  have hmade : (state.emit? number marker).map Entry.kind = some (.access level) := by
    rw [made, Option.map_some, hkind]
  rcases map_kind_emit?_iff.1 hmade with rfl | rfl <;> cases made <;> exact ⟨rfl, rfl⟩

theorem classified_emit?_iff :
    (state.emit? number marker = some entry ∧ entry.kind.isAccess = false) ↔
      ∃ tag description, marker = some (.openRegion tag description) ∧
        entry = .atDepth number (classify tag description).kind (classify tag description).text
          state.depth state.access := by
  constructor
  · rintro ⟨made, hkind⟩
    match marker with
    | none => cases made
    | some (.specifier level) => cases made; cases hkind
    | some (.openAccess level) => cases made; cases hkind
    | some (.openRegion tag description) =>
        exact ⟨tag, description, rfl, (Option.some.inj made).symm⟩
    | some .close => cases made
  · rintro ⟨tag, description, rfl, rfl⟩
    exact ⟨rfl, (Classification.made_classify tag description).isAccess_kind⟩

theorem emit?_eq_none_iff :
    state.emit? number marker = none ↔ marker = none ∨ marker = some .close := by
  match marker with
  | none => simp [emit?]
  | some (.specifier level) => simp [emit?]
  | some (.openAccess level) => simp [emit?]
  | some (.openRegion tag description) => simp [emit?]
  | some .close => simp [emit?]

end ScanState

open Marker Grammar

/-- A line is matched as the grammar says, and scanned accordingly. -/
structure FollowsGrammar (line : List Char) : Prop where
  specifier_iff : ∀ level, specifier? line = some level ↔ line ∈ specifierLine level
  closer_iff : isClose line = true ↔ line ∈ closerLine
  region_iff : (region? line).isSome = true ↔ line ∈ regionLine
  /-- Tag and description are cut out where the grammar says. -/
  captures_iff : ∀ tag description,
    region? line = some (tag, description) ↔ ReadsRegion line tag description
  accessRegion_iff : ∀ level,
    (∃ tag description, region? line = some (tag, description) ∧ accessOfTag? tag = some level) ↔
      OpensAccess level line
  /-- No line is in two classes. -/
  specifier_apart : ∀ level, line ∈ specifierLine level → line ∉ regionLine ∧ line ∉ closerLine
  region_apart : line ∈ regionLine → line ∉ closerLine
  marker_iff : ∀ marker, ofLine? line = some marker ↔ Written line marker
  ordinary_iff : ofLine? line = none ↔
    (∀ level, line ∉ specifierLine level) ∧ line ∉ regionLine ∧ line ∉ closerLine
  /-- A keyword in either case leads to its level, so no matched word is without one. -/
  keyword_level : ∀ (word : List Char) (level : Access),
    word.map Char.toLower = level.keyword.toList →
      Access.ofKeyword? (String.ofList word) = some level
  /-- Which lines give an access row, and of which level. -/
  access_entry_iff : ∀ (scanner : Scanner) level,
    (scanner.feed line).2.map Entry.kind = some (.access level) ↔
      line ∈ specifierLine level ∨ OpensAccess level line
  access_entry : ∀ (scanner : Scanner) level entry, (scanner.feed line).2 = some entry →
    entry.kind = .access level → entry.text = "" ∧ entry.access = some level
  /-- Any other row is the classified one of a plain region. -/
  classified_entry_iff : ∀ (scanner : Scanner) entry,
    ((scanner.feed line).2 = some entry ∧ entry.kind.isAccess = false) ↔
      ∃ tag description, OpensPlain tag.toList description.toList line ∧
        entry = .atDepth (scanner.line + 1) (classify tag description).kind
          (classify tag description).text scanner.state.depth scanner.state.access
  no_entry_iff : ∀ scanner : Scanner, (scanner.feed line).2 = none ↔
    (∀ level, line ∉ specifierLine level) ∧ line ∉ regionLine

theorem feed_eq_none_iff (scanner : Scanner) (line : List Char) :
    (scanner.feed line).2 = none ↔ (∀ level, line ∉ specifierLine level) ∧ line ∉ regionLine := by
  rw [Scanner.feed, ScanState.emit?_eq_none_iff, ofLine?_eq_none_iff, ofLine?_eq_some_iff]
  constructor
  · rintro (⟨hspecifier, hregion, _⟩ | hcloser)
    · exact ⟨hspecifier, hregion⟩
    · exact ⟨fun _ hspecifier => not_closerLine_of_specifierLine hspecifier hcloser,
        fun hregion => not_closerLine_of_regionLine hregion hcloser⟩
  · rintro ⟨hspecifier, hregion⟩
    by_cases hcloser : line ∈ closerLine
    · exact Or.inr hcloser
    · exact Or.inl ⟨hspecifier, hregion, hcloser⟩

/-- The matchers accept the grammar of marker lines and nothing else, on any line, and the
scanner makes its entries by it. -/
theorem marker_lines_follow_grammar (line : List Char) : FollowsGrammar line where
  specifier_iff _ := specifier?_eq_some_iff
  closer_iff := isClose_iff
  region_iff := isSome_region?_iff
  captures_iff _ _ := region?_eq_some_iff
  accessRegion_iff _ := accessRegion_iff
  specifier_apart _ h := ⟨not_regionLine_of_specifierLine h, not_closerLine_of_specifierLine h⟩
  region_apart := not_closerLine_of_regionLine
  marker_iff _ := ofLine?_eq_some_iff
  ordinary_iff := ofLine?_eq_none_iff
  keyword_level word level hword := by
    rw [Access.ofKeyword?_eq_some_iff, String.toList_ofList]
    exact hword
  access_entry_iff scanner level := by
    rw [Scanner.feed, ScanState.map_kind_emit?_iff, ofLine?_eq_some_iff, ofLine?_eq_some_iff]
    rfl
  access_entry _ _ _ := ScanState.access_row_of_emit?
  classified_entry_iff scanner entry := by
    rw [Scanner.feed, ScanState.classified_emit?_iff]
    simp only [ofLine?_eq_some_iff]
    rfl
  no_entry_iff scanner := feed_eq_none_iff scanner line

end RegionOutline
