import RegionOutline.Yaml.Token

/-!
# Words

A word of letters, digits and underscores is read as it stands: none of its characters ends a
plain scalar, and none starts anything else. It goes on until a colon or the end of the line.
-/

namespace RegionOutline.Yaml

/-- Letters, digits and the underscore. -/
def isWordChar (c : Char) : Bool :=
  c.isAlphanum || c == '_'

/-- A character that stands for itself wherever it comes. -/
structure Plain (c : Char) : Prop where
  allowed : isAllowed c = true
  not_break : isBreak c = false
  not_blank : isBlank c = false
  not_indicator : isIndicator c = false
  ne_point : c ≠ '.'
  ne_return : c ≠ '\r'
  ascii : c.toNat < 0x80

theorem toNat_lt_of_isWordChar {c : Char} (h : isWordChar c = true) : c.toNat < 0x80 := by
  have below (last : Char) (hlast : last.toNat < 0x80) (hc : c.val ≤ last.val) : c.toNat < 0x80 :=
    Nat.lt_of_le_of_lt (UInt32.le_iff_toNat_le.1 hc) hlast
  have ranges : (c.isUpper || c.isLower || c.isDigit || c == '_') = true := h
  simp only [Bool.or_eq_true, beq_iff_eq] at ranges
  rcases ranges with ((hupper | hlower) | hdigit) | rfl
  · exact below 'Z' (by decide) (of_decide_eq_true hupper).2
  · exact below 'z' (by decide) (of_decide_eq_true (Bool.and_eq_true_iff.1 hlower).2)
  · exact below '9' (by decide) (of_decide_eq_true (Bool.and_eq_true_iff.1 hdigit).2)
  · decide

/-- Checked for each ASCII character. -/
theorem plain_of_isWordChar {c : Char} (h : isWordChar c = true) : Plain c := by
  have known : ∀ n < 0x80, isWordChar (Char.ofNat n) = true →
      isAllowed (Char.ofNat n) = true ∧ isBreak (Char.ofNat n) = false ∧
      isBlank (Char.ofNat n) = false ∧ isIndicator (Char.ofNat n) = false ∧
      Char.ofNat n ≠ '.' ∧ Char.ofNat n ≠ '\r' := by
    decide
  have ascii := toNat_lt_of_isWordChar h
  have facts := known c.toNat ascii
  rw [Char.ofNat_toNat] at facts
  obtain ⟨allowed, not_break, not_blank, not_indicator, ne_point, ne_return⟩ := facts h
  exact ⟨allowed, not_break, not_blank, not_indicator, ne_point, ne_return, ascii⟩

namespace Plain

variable {c d : Char}

theorem ne_indicator (plain : Plain c) (indicator : isIndicator d = true) : c ≠ d := by
  rintro rfl
  rw [plain.not_indicator] at indicator
  cases indicator

theorem ne_blank (plain : Plain c) (blank : isBlank d = true) : c ≠ d := by
  rintro rfl
  rw [plain.not_blank] at blank
  cases blank

theorem ne_other (plain : Plain c) (other : 0x80 ≤ d.toNat) : c ≠ d := by
  rintro rfl
  exact absurd plain.ascii (Nat.not_lt.2 other)

theorem utf8Size_eq (plain : Plain c) : c.utf8Size = 1 :=
  Char.utf8Size_eq_one_iff.2 (UInt32.le_iff_toNat_le.2 (Nat.le_of_lt_succ plain.ascii))

end Plain

/-- A word in its place. -/
structure Word (word : List Spot) : Prop where
  ne_nil : word ≠ []
  plain : ∀ spot ∈ word, Plain spot.char

theorem unifyBreaks_eq {text : List Char} (h : ∀ c ∈ text, c ≠ '\r' ∧ c ≠ '\x85') :
    unifyBreaks text = text := by
  fun_induction unifyBreaks text with
  | case1 => rfl
  | case2 rest ih => exact absurd rfl (h '\r' List.mem_cons_self).1
  | case3 c rest notBreak ih =>
      obtain ⟨first, others⟩ := List.forall_mem_cons.1 h
      rw [ih others, if_neg (not_or.2 first)]

section Places

variable {line column offset : Nat} {word rest : List Char}

theorem map_char_locate (line column offset : Nat) (text : List Char) :
    (locate line column offset text).map Spot.char = text := by
  induction text generalizing line column offset with
  | nil => rfl
  | cons c rest ih =>
      rw [locate, List.map_cons]
      split <;> rw [ih]

theorem length_locate (line column offset : Nat) (text : List Char) :
    (locate line column offset text).length = text.length := by
  rw [← List.length_map, map_char_locate]

/-- The first character stands where the text starts. -/
theorem exists_locate_cons (line column offset : Nat) {text : List Char} (ne_nil : text ≠ []) :
    ∃ (first : Spot) (others : List Spot), locate line column offset text = first :: others ∧
      first.line = line ∧ first.column = column ∧ first.offset = offset := by
  obtain ⟨c, rest, rfl⟩ := List.exists_cons_of_ne_nil ne_nil
  exact ⟨_, _, rfl, rfl, rfl, rfl⟩

/-- A character of one octet that does not end its line. -/
theorem locate_cons {c : Char} (not_break : isBreak c = false) (ascii : c.utf8Size = 1) :
    locate line column offset (c :: rest) =
      ⟨c, line, column, offset⟩ :: locate line (column + 1) (offset + 1) rest := by
  rw [locate, not_break, ascii]
  rfl

/-- What follows a word on its line. -/
theorem locate_append (plain : ∀ c ∈ word, Plain c) :
    locate line column offset (word ++ rest) =
      locate line column offset word ++
        locate line (column + word.length) (offset + word.length) rest := by
  induction word generalizing column offset with
  | nil => rfl
  | cons c word ih =>
      obtain ⟨first, others⟩ := List.forall_mem_cons.1 plain
      rw [List.cons_append, locate_cons first.not_break first.utf8Size_eq,
        locate_cons first.not_break first.utf8Size_eq, ih others, List.cons_append,
        List.length_cons, Nat.add_assoc, Nat.add_assoc, Nat.add_comm 1]

theorem word_locate (ne_nil : word ≠ []) (plain : ∀ c ∈ word, Plain c) :
    Word (locate line column offset word) where
  ne_nil := by
    intro h
    apply ne_nil
    rw [← map_char_locate line column offset word, h]
    rfl
  plain := by
    intro spot hspot
    apply plain
    rw [← map_char_locate line column offset word]
    exact List.mem_map_of_mem hspot

end Places

section Reading

variable {column : Nat} {spot : Spot} {word rest : List Spot}

theorem atGap_cons (plain : Plain spot.char) : atGap (spot :: rest) = false := by
  rw [atGap, plain.not_blank, plain.not_break]
  rfl

theorem atTriple_cons {c : Char} (h : spot.char ≠ c) : atTriple c (spot :: rest) = false := by
  unfold atTriple
  split
  · rename_i heq
    obtain rfl := (List.cons.inj heq).1
    simp [h]
  · rfl

theorem atDocumentMarker_cons (hdash : spot.char ≠ '-') (hpoint : spot.char ≠ '.') :
    atDocumentMarker (spot :: rest) = false := by
  rw [atDocumentMarker, atTriple_cons hdash, atTriple_cons hpoint]
  rfl

/-- A plain scalar does not go on here. -/
def Ends (rest : List Spot) : Prop :=
  plainRun? false rest = some ([], rest)

theorem ends_of_atGap (gap : atGap rest = true) : Ends rest := by
  cases rest with
  | nil => rfl
  | cons spot rest => rw [Ends, plainRun?, if_pos gap]

theorem ends_colon (colon : spot.char = ':') (gap : atGap rest = true) : Ends (spot :: rest) := by
  simp [Ends, plainRun?, colon, gap]

/-- The run of a word. -/
theorem plainRun?_word (plain : ∀ spot ∈ word, Plain spot.char) (ends : Ends rest) :
    plainRun? false (word ++ rest) = some (word.map Spot.char, rest) := by
  induction word with
  | nil => exact ends
  | cons spot word ih =>
      obtain ⟨first, others⟩ := List.forall_mem_cons.1 plain
      have hcolon : spot.char ≠ ':' := first.ne_indicator (by decide)
      rw [List.cons_append, plainRun?, atGap_cons first, ih others]
      simp [hcolon]

theorem Word.starts (word_word : Word word) (rest : List Spot) :
    (atDocumentMarker (word ++ rest) || startsWith '#' (word ++ rest)) = false := by
  obtain ⟨first, more, rfl⟩ := List.exists_cons_of_ne_nil word_word.ne_nil
  have plain := word_word.plain first List.mem_cons_self
  have hash : first.char ≠ '#' := plain.ne_indicator (by decide)
  rw [List.cons_append, atDocumentMarker_cons (plain.ne_indicator (by decide)) plain.ne_point]
  simp [startsWith, hash]

theorem Word.run_ne (word_word : Word word) : (word.map Spot.char).isEmpty = false := by
  simpa using word_word.ne_nil

theorem Word.exists_length (word_word : Word word) (rest : List Spot) :
    ∃ fuel, (word ++ rest).length = fuel + 1 := by
  obtain ⟨first, more, rfl⟩ := List.exists_cons_of_ne_nil word_word.ne_nil
  exact ⟨_, rfl⟩

theorem Gap.read?_cons (gap : Gap) (hblank : isBlank spot.char = false)
    (hbreak : isBreak spot.char = false) :
    Gap.read? column gap (spot :: rest) = some (gap, spot :: rest) := by
  rw [Gap.read?, hblank, hbreak]
  rfl

/-- Where a plain scalar does not go on, what was read of it is all. -/
theorem plainFrom?_ends (fuel : Nat) (text : List Char) (gap : Gap) (ends : Ends rest) :
    plainFrom? false column fuel text gap rest = some (text.reverse, gap.broken, rest) := by
  cases fuel with
  | zero => rfl
  | succ fuel =>
      rw [plainFrom?, ends]
      split
      · rfl
      · rfl

/-- A scalar of one word before a colon. -/
theorem plain?_colon (word_word : Word word) (colon : spot.char = ':') (gap : atGap rest = true) :
    plain? false column (word ++ spot :: rest) =
      some (word.map Spot.char, false, spot :: rest) := by
  have ends := ends_colon colon gap
  have read : Gap.read? column {} (spot :: rest) = some ({}, spot :: rest) :=
    Gap.read?_cons {} (by rw [colon]; decide) (by rw [colon]; decide)
  obtain ⟨fuel, hfuel⟩ := word_word.exists_length (spot :: rest)
  rw [plain?, hfuel, plainFrom?, word_word.starts, plainRun?_word word_word.plain ends]
  simp only [Bool.false_eq_true, if_false, Option.bind_eq_bind, Option.bind_some,
    word_word.run_ne, read, Bool.and_false, Bool.false_and, plainFrom?_ends _ _ _ ends]
  simp [Gap.fold]

/-- A scalar of one word at the end of a line, before a line that is no part of it. -/
theorem plain?_newline (word_word : Word word) (newline : spot.char = '\n')
    (next : ∀ first ∈ rest.head?, Plain first.char ∧ first.column < column) :
    plain? false column (word ++ spot :: rest) = some (word.map Spot.char, true, rest) := by
  have ends : Ends (spot :: rest) := ends_of_atGap (by rw [atGap, newline]; decide)
  have broken : Gap.read? column {} (spot :: rest) =
      Gap.read? column { broken := true, firstBreak := some '\n' } rest := by
    rw [Gap.read?, newline]
    rfl
  obtain ⟨fuel, hfuel⟩ := word_word.exists_length (spot :: rest)
  rw [plain?, hfuel, plainFrom?, word_word.starts, plainRun?_word word_word.plain ends]
  simp only [Bool.false_eq_true, if_false, Option.bind_eq_bind, Option.bind_some,
    word_word.run_ne, broken]
  cases rest with
  | nil => simp [Gap.read?, Gap.fold]
  | cons first rest =>
      obtain ⟨plain, outside⟩ := next first rfl
      simp [Gap.read?_cons _ plain.not_blank plain.not_break, Gap.fold, outside]

end Reading

end RegionOutline.Yaml
