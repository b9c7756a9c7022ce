import Mathlib.Computability.Language
import RegionOutline.Marker

/-!
# The grammar of marker lines

Marker lines as languages: what stands on a line, word by word, with white space in
between. White space is listed here by code point, and a word in either case is one
that becomes the keyword in lower case. The matchers cut a line from left to right and
never go back, and the main statements say that they still accept exactly these
languages, because no word begins with white space and no keyword begins another.
-/

open scoped Computability

namespace RegionOutline

namespace Grammar

/-- The code points with the Unicode property `White_Space`. -/
def whiteSpace : List Nat :=
  [0x0009, 0x000A, 0x000B, 0x000C, 0x000D, 0x0020, 0x0085, 0x00A0, 0x1680, 0x2000, 0x2001, 0x2002,
    0x2003, 0x2004, 0x2005, 0x2006, 0x2007, 0x2008, 0x2009, 0x200A, 0x2028, 0x2029, 0x202F, 0x205F,
    0x3000]

/-- A single character of a kind. -/
def oneOf (p : Char → Prop) : Language Char :=
  {run | ∃ c, p c ∧ run = [c]}

def space : Language Char := oneOf (·.toNat ∈ whiteSpace)

def visible : Language Char := oneOf (·.toNat ∉ whiteSpace)

/-- White space that must not be missing. -/
def gap : Language Char := space * space∗

/-- A bare specifier of a level. -/
def specifierLine (level : Access) : Language Char :=
  space∗ * {level.keyword.toList} * space∗ * {[':']} * space∗

/-- `#pragma` and a word. -/
def pragma (word : String) : Language Char :=
  space∗ * {"#pragma".toList} * gap * {word.toList}

/-- A line that closes a region. -/
def closerLine : Language Char := pragma "endregion" * space∗

/-- A region up to its tag. -/
def regionFront : Language Char := pragma "region" * gap

/-- A line that starts as a region does, with anything behind the first character of the
tag. -/
def regionLine : Language Char := regionFront * visible * ⊤

/-- A region line cut behind its tag and behind the white space that follows it. -/
structure RegionParts (line front tag between rest : List Char) : Prop where
  line_eq : line = front ++ (tag ++ (between ++ rest))
  front_mem : front ∈ regionFront
  tag_mem : tag ∈ visible * visible∗
  /-- The tag ends with the line or where white space begins. -/
  tag_maximal : ∀ c ∈ (between ++ rest).head?, c.toNat ∈ whiteSpace
  between_mem : between ∈ space∗
  /-- The white space behind it ends with the line or where something else begins. -/
  between_maximal : ∀ c ∈ rest.head?, c.toNat ∉ whiteSpace

/-- The text up to its first line feed. -/
structure FirstLine (first text : List Char) : Prop where
  unbroken : '\n' ∉ first
  text_eq : text = first ∨ ∃ more, text = first ++ '\n' :: more

/-- A region line with the given tag and description. -/
def ReadsRegion (line tag description : List Char) : Prop :=
  ∃ front between rest, RegionParts line front tag between rest ∧ FirstLine description rest

/-- The tag starts with the keyword of the level, in either case. -/
def Names (level : Access) (tag : List Char) : Prop :=
  ∃ word rest, tag = word ++ rest ∧ word.map Char.toLower = level.keyword.toList

/-- A region line of the access style. -/
def OpensAccess (level : Access) (line : List Char) : Prop :=
  ∃ tag description, ReadsRegion line tag description ∧ Names level tag

/-- A region line of the plain style, with its tag and description. -/
def OpensPlain (tag description line : List Char) : Prop :=
  ReadsRegion line tag description ∧ ∀ level, ¬ Names level tag

theorem isBlank_iff (c : Char) : Text.isBlank c = true ↔ c.toNat ∈ whiteSpace := by
  simp only [Text.isBlank, Text.blankRanges, whiteSpace, List.any_cons, List.any_nil,
    Bool.or_eq_true, Bool.and_eq_true, decide_eq_true_eq, List.mem_cons, List.not_mem_nil,
    Bool.or_false, or_false]
  omega

theorem isBlank_eq_false_iff (c : Char) : Text.isBlank c = false ↔ c.toNat ∉ whiteSpace := by
  rw [← isBlank_iff, Bool.not_eq_true]

theorem mem_kstar_oneOf {p : Char → Prop} {run : List Char} :
    run ∈ (oneOf p)∗ ↔ ∀ c ∈ run, p c := by
  rw [Language.mem_kstar]
  constructor
  · rintro ⟨parts, rfl, hparts⟩ c hc
    obtain ⟨part, hpart, hmem⟩ := List.mem_flatten.1 hc
    obtain ⟨d, hd, rfl⟩ := hparts part hpart
    obtain rfl : c = d := List.mem_singleton.1 hmem
    exact hd
  · intro hall
    refine ⟨run.map ([·]), (List.flatMap_singleton' run).symm, ?_⟩
    intro part hpart
    obtain ⟨c, hc, rfl⟩ := List.mem_map.1 hpart
    exact ⟨c, hall c hc, rfl⟩

theorem mem_oneOf_mul_kstar {p : Char → Prop} {run : List Char} :
    run ∈ oneOf p * (oneOf p)∗ ↔ run ≠ [] ∧ ∀ c ∈ run, p c := by
  rw [Language.mem_mul]
  constructor
  · rintro ⟨_, ⟨c, hc, rfl⟩, rest, hrest, rfl⟩
    refine ⟨List.cons_ne_nil _ _, ?_⟩
    intro d hd
    rcases List.mem_cons.1 hd with rfl | hd
    · exact hc
    · exact mem_kstar_oneOf.1 hrest d hd
  · rintro ⟨hne, hall⟩
    obtain ⟨c, rest, rfl⟩ := List.exists_cons_of_ne_nil hne
    refine ⟨[c], ⟨c, hall c List.mem_cons_self, rfl⟩, rest, ?_, rfl⟩
    exact mem_kstar_oneOf.2 fun d hd => hall d (List.mem_cons_of_mem c hd)

theorem mem_spaces {run : List Char} : run ∈ space∗ ↔ ∀ c ∈ run, Text.isBlank c = true := by
  simp only [space, mem_kstar_oneOf, isBlank_iff]

theorem mem_gap {run : List Char} :
    run ∈ gap ↔ run ≠ [] ∧ ∀ c ∈ run, Text.isBlank c = true := by
  simp only [gap, space, mem_oneOf_mul_kstar, isBlank_iff]

theorem mem_word {run : List Char} :
    run ∈ visible * visible∗ ↔ run ≠ [] ∧ ∀ c ∈ run, Text.isBlank c = false := by
  simp only [visible, mem_oneOf_mul_kstar, isBlank_eq_false_iff]

theorem mem_specifierLine {level : Access} {line : List Char} :
    line ∈ specifierLine level ↔ ∃ lead ∈ space∗, ∃ middle ∈ space∗, ∃ trail ∈ space∗,
      line = lead ++ (level.keyword.toList ++ (middle ++ ':' :: trail)) := by
  constructor
  · rintro ⟨_, ⟨_, ⟨_, ⟨lead, hlead, _, rfl, rfl⟩, middle, hmiddle, rfl⟩, _, rfl, rfl⟩, trail,
      htrail, rfl⟩
    exact ⟨lead, hlead, middle, hmiddle, trail, htrail, by simp⟩
  · rintro ⟨lead, hlead, middle, hmiddle, trail, htrail, rfl⟩
    exact ⟨_, ⟨_, ⟨_, ⟨lead, hlead, _, rfl, rfl⟩, middle, hmiddle, rfl⟩, _, rfl, rfl⟩, trail,
      htrail, by simp⟩

theorem mem_pragma {word : String} {front : List Char} :
    front ∈ pragma word ↔ ∃ lead ∈ space∗, ∃ middle ∈ gap,
      front = lead ++ ("#pragma".toList ++ (middle ++ word.toList)) := by
  constructor
  · rintro ⟨_, ⟨_, ⟨lead, hlead, _, rfl, rfl⟩, middle, hmiddle, rfl⟩, _, rfl, rfl⟩
    exact ⟨lead, hlead, middle, hmiddle, by simp⟩
  · rintro ⟨lead, hlead, middle, hmiddle, rfl⟩
    exact ⟨_, ⟨_, ⟨lead, hlead, _, rfl, rfl⟩, middle, hmiddle, rfl⟩, _, rfl, by simp⟩

theorem mem_regionLine {line : List Char} :
    line ∈ regionLine ↔ ∃ front ∈ regionFront, ∃ c more, Text.isBlank c = false ∧
      line = front ++ c :: more := by
  constructor
  · rintro ⟨_, ⟨front, hfront, _, ⟨c, hc, rfl⟩, rfl⟩, more, _, rfl⟩
    exact ⟨front, hfront, c, more, (isBlank_eq_false_iff c).2 hc, by simp⟩
  · rintro ⟨front, hfront, c, more, hc, rfl⟩
    exact ⟨_, ⟨front, hfront, _, ⟨c, (isBlank_eq_false_iff c).1 hc, rfl⟩, rfl⟩, more, trivial,
      by simp⟩

end Grammar

namespace Text

/-- A longest run of characters of a kind, and what follows it. -/
theorem takeWhile_dropWhile_iff {p : Char → Bool} {text run rest : List Char} :
    text.takeWhile p = run ∧ text.dropWhile p = rest ↔
      text = run ++ rest ∧ (∀ c ∈ run, p c = true) ∧ ∀ c ∈ rest.head?, p c = false := by
  constructor
  · rintro ⟨rfl, rfl⟩
    refine ⟨List.takeWhile_append_dropWhile.symm, ?_, ?_⟩
    · intro c hc
      exact List.all_eq_true.1 List.all_takeWhile c hc
    · intro c hc
      have hhead := List.head?_dropWhile_not p text
      rw [Option.mem_def.1 hc] at hhead
      exact hhead
  · rintro ⟨rfl, hrun, hrest⟩
    rw [List.takeWhile_append_of_pos hrun, List.dropWhile_append_of_pos hrun]
    cases rest with
    | nil => simp
    | cons c rest => simp [hrest c rfl]

/-- The text is empty or begins with something else than white space. -/
def Starts (text : List Char) : Prop :=
  ∀ c ∈ text.head?, isBlank c = false

theorem starts_cons_iff {c : Char} {rest : List Char} :
    Starts (c :: rest) ↔ isBlank c = false := by
  simp [Starts]

open Grammar

theorem skipBlanks_eq_iff {text rest : List Char} :
    skipBlanks text = rest ↔ (∃ run ∈ space∗, text = run ++ rest) ∧ Starts rest := by
  constructor
  · intro hskip
    obtain ⟨htext, hrun, hrest⟩ := takeWhile_dropWhile_iff.1 ⟨rfl, hskip⟩
    exact ⟨⟨_, mem_spaces.2 hrun, htext⟩, hrest⟩
  · rintro ⟨⟨run, hrun, htext⟩, hrest⟩
    exact (takeWhile_dropWhile_iff.2 ⟨htext, mem_spaces.1 hrun, hrest⟩).2

/-- A word and what follows it. -/
theorem takeWord_iff {text word after : List Char} :
    text.takeWhile (!isBlank ·) = word ∧ text.dropWhile (!isBlank ·) = after ↔
      text = word ++ after ∧ (∀ c ∈ word, isBlank c = false) ∧
        ∀ c ∈ after.head?, isBlank c = true := by
  rw [takeWhile_dropWhile_iff]
  simp only [Bool.not_eq_true', Bool.not_eq_false']

theorem skipSomeBlanks?_eq_some_iff {text rest : List Char} :
    skipSomeBlanks? text = some rest ↔ (∃ run ∈ gap, text = run ++ rest) ∧ Starts rest := by
  cases text with
  | nil => simp [skipSomeBlanks?, mem_gap]
  | cons c text =>
      constructor
      · intro hskip
        obtain ⟨hblank, hrest⟩ := Option.ite_none_right_eq_some.1 hskip
        obtain ⟨⟨run, hrun, rfl⟩, hstarts⟩ := skipBlanks_eq_iff.1 (Option.some.inj hrest)
        refine ⟨⟨c :: run, mem_gap.2 ⟨List.cons_ne_nil c run, ?_⟩, rfl⟩, hstarts⟩
        exact List.forall_mem_cons.2 ⟨hblank, mem_spaces.1 hrun⟩
      · rintro ⟨⟨run, hrun, htext⟩, hstarts⟩
        obtain ⟨hne, hall⟩ := mem_gap.1 hrun
        obtain ⟨d, run, rfl⟩ := List.exists_cons_of_ne_nil hne
        obtain ⟨rfl, htail⟩ := List.cons.inj htext
        obtain ⟨hblank, hblanks⟩ := List.forall_mem_cons.1 hall
        rw [skipSomeBlanks?, if_pos hblank,
          skipBlanks_eq_iff.2 ⟨⟨run, mem_spaces.2 hblanks, htail⟩, hstarts⟩]

theorem startsIgnoringCase_iff {word text : List Char} :
    startsIgnoringCase word text = true ↔ word.map Char.toLower <+: text.map Char.toLower := by
  induction word generalizing text with
  | nil => simp [startsIgnoringCase]
  | cons c word ih =>
      cases text with
      | nil => simp [startsIgnoringCase]
      | cons d text => simp [startsIgnoringCase, ih, List.cons_prefix_cons]

end Text

namespace Access

theorem mem_all (level : Access) : level ∈ all := by
  cases level <;> decide

/-- No keyword begins another. -/
theorem eq_of_keyword_begins {a b : Access} (h : a.keyword.toList <+: b.keyword.toList) :
    a = b := by
  revert h
  cases a <;> cases b <;> decide

/-- No text begins with two keywords. -/
theorem eq_of_prefixes {a b : Access} {text : List Char} (ha : a.keyword.toList <+: text)
    (hb : b.keyword.toList <+: text) : a = b := by
  rcases List.prefix_or_prefix_of_prefix ha hb with h | h
  · exact eq_of_keyword_begins h
  · exact (eq_of_keyword_begins h).symm

/-- A search among the levels finds the one that fits, if no two can. -/
theorem find?_eq_some_iff {p : Access → Bool} {level : Access}
    (unique : ∀ a b, p a = true → p b = true → a = b) :
    all.find? p = some level ↔ p level = true := by
  constructor
  · exact List.find?_some
  · intro hlevel
    obtain ⟨found, hfound⟩ := Option.isSome_iff_exists.1
      (List.find?_isSome.2 ⟨level, mem_all level, hlevel⟩)
    rw [hfound, unique found level (List.find?_some hfound) hlevel]

theorem map_toLower_keyword (level : Access) :
    level.keyword.toList.map Char.toLower = level.keyword.toList := by
  cases level <;> decide

/-- The level of a word that is a keyword in either case. -/
theorem ofKeyword?_eq_some_iff {word : String} {level : Access} :
    ofKeyword? word = some level ↔ word.toList.map Char.toLower = level.keyword.toList := by
  unfold ofKeyword? Text.equalIgnoringCase
  simp only [map_toLower_keyword]
  rw [find?_eq_some_iff]
  · rw [beq_iff_eq, eq_comm]
  · intro a b ha hb
    rw [beq_iff_eq] at ha hb
    apply eq_of_keyword_begins
    rw [ha, hb]

end Access

namespace Marker

open Text Grammar

/-- What follows `#pragma` and the white space behind it. -/
def pragmaBody? (line : List Char) : Option (List Char) :=
  (stripStart? "#pragma".toList (skipBlanks line)).bind skipSomeBlanks?

theorem afterPragma?_eq (word : String) (line : List Char) :
    afterPragma? word line = (pragmaBody? line).bind (stripStart? word.toList) := by
  unfold afterPragma? pragmaBody?
  cases stripStart? "#pragma".toList (skipBlanks line) <;> rfl

/-- A word that does not begin with white space is found behind any amount of it. -/
theorem afterPragma?_eq_some_iff {word : String} {line rest : List Char}
    (starts : word.toList.head?.any (!isBlank ·) = true) :
    afterPragma? word line = some rest ↔ ∃ front ∈ pragma word, line = front ++ rest := by
  have hstarts : Starts (word.toList ++ rest) := by
    obtain ⟨first, hfirst, hvisible⟩ := (Option.any_eq_true _ _).1 starts
    intro c hc
    rw [List.head?_append, hfirst] at hc
    obtain rfl : first = c := Option.some.inj hc
    simpa using hvisible
  simp only [afterPragma?_eq, pragmaBody?, Option.bind_eq_some_iff, stripStart?_eq_some_iff,
    skipBlanks_eq_iff, skipSomeBlanks?_eq_some_iff]
  constructor
  · rintro ⟨_, ⟨_, ⟨⟨lead, hlead, rfl⟩, _⟩, ⟨middle, hmiddle, rfl⟩, _⟩, rfl⟩
    exact ⟨_, mem_pragma.2 ⟨lead, hlead, middle, hmiddle, rfl⟩, by simp⟩
  · rintro ⟨front, hfront, rfl⟩
    obtain ⟨lead, hlead, middle, hmiddle, rfl⟩ := mem_pragma.1 hfront
    refine ⟨_, ⟨_, ⟨⟨lead, hlead, ?_⟩, ?_⟩, ⟨middle, hmiddle, rfl⟩, hstarts⟩, rfl⟩
    · simp
    · exact starts_cons_iff.2 (by decide)

theorem starts_keyword (level : Access) (rest : List Char) :
    Starts (level.keyword.toList ++ rest) := by
  have hfirst : level.keyword.toList = 'p' :: level.keyword.toList.tail := by
    cases level <;> rfl
  rw [hfirst]
  exact starts_cons_iff.2 (by decide)

theorem stripKeyword_eq_some_iff {level : Access} {line rest : List Char} :
    stripStart? level.keyword.toList (skipBlanks line) = some rest ↔
      ∃ lead ∈ space∗, line = lead ++ (level.keyword.toList ++ rest) := by
  rw [stripStart?_eq_some_iff, skipBlanks_eq_iff]
  exact and_iff_left (starts_keyword level rest)

theorem isSpecifier_iff {level : Access} {line : List Char} :
    isSpecifier line level = true ↔ line ∈ specifierLine level := by
  rw [mem_specifierLine, isSpecifier]
  constructor
  · intro h
    split at h
    · cases h
    · rename_i rest hstrip
      obtain ⟨lead, hlead, hline⟩ := stripKeyword_eq_some_iff.1 hstrip
      split at h
      · rename_i trail hcolon
        obtain ⟨⟨middle, hmiddle, hrest⟩, _⟩ := skipBlanks_eq_iff.1 hcolon
        refine ⟨lead, hlead, middle, hmiddle, trail, mem_spaces.2 (List.all_eq_true.1 h), ?_⟩
        rw [hline, hrest]
      · cases h
  · rintro ⟨lead, hlead, middle, hmiddle, trail, htrail, hline⟩
    have hcolon : skipBlanks (middle ++ ':' :: trail) = ':' :: trail :=
      skipBlanks_eq_iff.2 ⟨⟨middle, hmiddle, rfl⟩, starts_cons_iff.2 (by decide)⟩
    rw [stripKeyword_eq_some_iff.2 ⟨lead, hlead, hline⟩]
    simp only [hcolon]
    exact List.all_eq_true.2 (mem_spaces.1 htrail)

/-- A line is a bare specifier of at most one level. -/
theorem eq_of_mem_specifierLine {a b : Access} {line : List Char} (ha : line ∈ specifierLine a)
    (hb : line ∈ specifierLine b) : a = b := by
  have hbegins : ∀ {level}, line ∈ specifierLine level →
      level.keyword.toList <+: skipBlanks line := by
    intro level hmem
    obtain ⟨lead, hlead, middle, _, trail, _, hline⟩ := mem_specifierLine.1 hmem
    have hstrip := stripKeyword_eq_some_iff.2 ⟨lead, hlead, hline⟩
    exact ⟨_, (stripStart?_eq_some_iff.1 hstrip).symm⟩
  exact Access.eq_of_prefixes (hbegins ha) (hbegins hb)

theorem specifier?_eq_some_iff {level : Access} {line : List Char} :
    specifier? line = some level ↔ line ∈ specifierLine level := by
  rw [specifier?, Access.find?_eq_some_iff, isSpecifier_iff]
  intro a b ha hb
  exact eq_of_mem_specifierLine (isSpecifier_iff.1 ha) (isSpecifier_iff.1 hb)

theorem isClose_iff {line : List Char} : isClose line = true ↔ line ∈ closerLine := by
  have hafter : ∀ rest, afterPragma? "endregion" line = some rest ↔
      ∃ front ∈ pragma "endregion", line = front ++ rest :=
    fun rest => afterPragma?_eq_some_iff (by decide)
  unfold isClose
  constructor
  · intro h
    split at h
    · cases h
    · rename_i rest hrest
      obtain ⟨front, hfront, rfl⟩ := (hafter rest).1 hrest
      exact ⟨front, hfront, rest, mem_spaces.2 (List.all_eq_true.1 h), rfl⟩
  · rintro ⟨front, hfront, rest, hrest, rfl⟩
    rw [(hafter rest).2 ⟨front, hfront, rfl⟩]
    exact List.all_eq_true.2 (mem_spaces.1 hrest)

theorem takeWhile_eq_iff_firstLine {text first : List Char} :
    text.takeWhile (· != '\n') = first ↔ FirstLine first text := by
  constructor
  · intro hfirst
    obtain ⟨htext, hbefore, hafter⟩ := takeWhile_dropWhile_iff.1 ⟨hfirst, rfl⟩
    constructor
    · intro hmem
      exact absurd (hbefore _ hmem) (by simp)
    · cases hrest : text.dropWhile (· != '\n') with
      | nil => exact Or.inl (by rw [htext, hrest, List.append_nil])
      | cons c more =>
          have hbreak := hafter c (by rw [hrest]; rfl)
          obtain rfl : c = '\n' := by simpa using hbreak
          exact Or.inr ⟨more, by rw [← hrest, ← htext]⟩
  · rintro ⟨unbroken, htext⟩
    have hbefore : ∀ c ∈ first, (c != '\n') = true := by
      intro c hc
      exact bne_iff_ne.2 fun heq => unbroken (heq ▸ hc)
    rcases htext with rfl | ⟨more, rfl⟩
    · exact (takeWhile_dropWhile_iff.2 ⟨(List.append_nil _).symm, hbefore, by simp⟩).1
    · exact (takeWhile_dropWhile_iff.2 ⟨rfl, hbefore, by simp⟩).1

/-- The line from the tag of a region on. -/
def regionText? (line : List Char) : Option (List Char) :=
  (afterPragma? "region" line).bind skipSomeBlanks?

theorem regionText?_eq_some_iff {line text : List Char} :
    regionText? line = some text ↔ (∃ front ∈ regionFront, line = front ++ text) ∧ Starts text := by
  have hafter : ∀ rest, afterPragma? "region" line = some rest ↔
      ∃ front ∈ pragma "region", line = front ++ rest :=
    fun rest => afterPragma?_eq_some_iff (by decide)
  simp only [regionText?, Option.bind_eq_some_iff, hafter, skipSomeBlanks?_eq_some_iff]
  constructor
  · rintro ⟨_, ⟨front, hfront, rfl⟩, ⟨run, hrun, rfl⟩, hstarts⟩
    exact ⟨⟨front ++ run, ⟨front, hfront, run, hrun, rfl⟩, by simp⟩, hstarts⟩
  · rintro ⟨⟨_, ⟨front, hfront, run, hrun, rfl⟩, rfl⟩, hstarts⟩
    exact ⟨run ++ text, ⟨front, hfront, by simp⟩, ⟨run, hrun, rfl⟩, hstarts⟩

theorem region?_eq_some_iff_text {line tag description : List Char} :
    region? line = some (tag, description) ↔ ∃ text, regionText? line = some text ∧ text ≠ [] ∧
      text.takeWhile (!isBlank ·) = tag ∧
      (skipBlanks (text.dropWhile (!isBlank ·))).takeWhile (· != '\n') = description := by
  have hregion : region? line = (regionText? line).bind fun text =>
      if text = [] then none
      else some (text.takeWhile (!isBlank ·),
        (skipBlanks (text.dropWhile (!isBlank ·))).takeWhile (· != '\n')) := by
    unfold region? regionText?
    cases afterPragma? "region" line with
    | none => rfl
    | some rest =>
        rcases hskip : skipSomeBlanks? rest with _ | (_ | ⟨c, text⟩) <;> simp [hskip]
  rw [hregion, Option.bind_eq_some_iff]
  simp only [Option.ite_none_left_eq_some, Option.some.injEq, Prod.mk.injEq, ne_eq]

/-- The tag and the description of a region are those of the grammar. -/
theorem region?_eq_some_iff {line tag description : List Char} :
    region? line = some (tag, description) ↔ ReadsRegion line tag description := by
  rw [region?_eq_some_iff_text]
  constructor
  · rintro ⟨text, htext, hne, htag, hdescription⟩
    obtain ⟨⟨front, hfront, rfl⟩, hstarts⟩ := regionText?_eq_some_iff.1 htext
    obtain ⟨hsplit, hvisible, hstop⟩ := takeWord_iff.1 ⟨htag, rfl⟩
    obtain ⟨⟨between, hbetween, hafter⟩, hrest⟩ := skipBlanks_eq_iff.1
      (rfl : skipBlanks (text.dropWhile (!isBlank ·)) = _)
    -- The text begins with a visible character, so the tag has at least this one.
    have htagged : tag ≠ [] := by
      rintro rfl
      obtain ⟨c, more, rfl⟩ := List.exists_cons_of_ne_nil hne
      simp [starts_cons_iff.1 hstarts] at htag
    refine ⟨front, between, _, ?_, takeWhile_eq_iff_firstLine.1 hdescription⟩
    constructor
    · rw [← hafter, ← hsplit]
    · exact hfront
    · exact mem_word.2 ⟨htagged, hvisible⟩
    · intro c hc
      rw [← hafter] at hc
      exact (isBlank_iff c).1 (hstop c hc)
    · exact hbetween
    · intro c hc
      exact (isBlank_eq_false_iff c).1 (hrest c hc)
  · rintro ⟨front, between, rest, parts, hfirst⟩
    obtain ⟨htagged, hvisible⟩ := mem_word.1 parts.tag_mem
    have hstop : ∀ c ∈ (between ++ rest).head?, isBlank c = true := fun c hc =>
      (isBlank_iff c).2 (parts.tag_maximal c hc)
    obtain ⟨htag, hafter⟩ := takeWord_iff.2 ⟨rfl, hvisible, hstop⟩
    have hskip : skipBlanks (between ++ rest) = rest := by
      apply skipBlanks_eq_iff.2
      refine ⟨⟨between, parts.between_mem, rfl⟩, ?_⟩
      intro c hc
      exact (isBlank_eq_false_iff c).2 (parts.between_maximal c hc)
    refine ⟨tag ++ (between ++ rest), ?_, List.append_ne_nil_of_left_ne_nil htagged _, htag, ?_⟩
    · apply regionText?_eq_some_iff.2
      refine ⟨⟨front, parts.front_mem, parts.line_eq⟩, ?_⟩
      obtain ⟨c, more, rfl⟩ := List.exists_cons_of_ne_nil htagged
      exact starts_cons_iff.2 (hvisible c List.mem_cons_self)
    · rw [hafter, hskip]
      exact takeWhile_eq_iff_firstLine.2 hfirst

/-- A line is a region if it starts as one. -/
theorem isSome_region?_iff {line : List Char} :
    (region? line).isSome = true ↔ line ∈ regionLine := by
  rw [mem_regionLine, Option.isSome_iff_exists]
  constructor
  · rintro ⟨⟨tag, description⟩, hregion⟩
    obtain ⟨front, between, rest, parts, _⟩ := region?_eq_some_iff.1 hregion
    obtain ⟨htagged, hvisible⟩ := mem_word.1 parts.tag_mem
    obtain ⟨c, more, rfl⟩ := List.exists_cons_of_ne_nil htagged
    exact ⟨front, parts.front_mem, c, _, hvisible c List.mem_cons_self, parts.line_eq⟩
  · rintro ⟨front, hfront, c, more, hc, hline⟩
    have htext : regionText? line = some (c :: more) :=
      regionText?_eq_some_iff.2 ⟨⟨front, hfront, hline⟩, starts_cons_iff.2 hc⟩
    exact ⟨_, region?_eq_some_iff_text.2 ⟨_, htext, List.cons_ne_nil c more, rfl, rfl⟩⟩

theorem names_iff {level : Access} {tag : List Char} :
    Names level tag ↔ level.keyword.toList <+: tag.map Char.toLower := by
  constructor
  · rintro ⟨word, rest, rfl, hword⟩
    rw [List.map_append, hword]
    exact List.prefix_append _ _
  · rintro ⟨more, hmore⟩
    obtain ⟨word, rest, rfl, hword, _⟩ := List.map_eq_append_iff.1 hmore.symm
    exact ⟨word, rest, rfl, hword⟩

theorem accessOfTag?_eq_some_iff {level : Access} {tag : List Char} :
    accessOfTag? tag = some level ↔ Names level tag := by
  have hstarts : ∀ level : Access,
      startsIgnoringCase level.keyword.toList tag = true ↔ Names level tag := by
    intro level
    rw [startsIgnoringCase_iff, Access.map_toLower_keyword, names_iff]
  rw [accessOfTag?, Access.find?_eq_some_iff]
  · exact hstarts level
  · intro a b ha hb
    exact Access.eq_of_prefixes (names_iff.1 ((hstarts a).1 ha)) (names_iff.1 ((hstarts b).1 hb))

end Marker

end RegionOutline
