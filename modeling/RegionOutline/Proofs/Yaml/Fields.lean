import RegionOutline.Proofs.Yaml.Words
import RegionOutline.Yaml.Node

/-!
# Fields

A mapping that is written with one field to a line, the key and the value both words, is read as
the mapping of these fields in their order.
-/

namespace RegionOutline.Yaml

/-- At least one character, and word characters only. -/
def IsWord (text : List Char) : Prop :=
  text ≠ [] ∧ ∀ c ∈ text, isWordChar c = true

/-- A key that is short enough for one, and its value. -/
structure Field where
  key : List Char
  value : List Char
  isWord_key : IsWord key
  isWord_value : IsWord value
  short : key.length ≤ Layout.keyLimit

namespace Field

/-- The line of a field. -/
def text (field : Field) : List Char :=
  field.key ++ ':' :: ' ' :: (field.value ++ ['\n'])

def tokens (field : Field) : List Token :=
  [.key, .scalar (String.ofList field.key) .plain,
    .value, .scalar (String.ofList field.value) .plain]

end Field

namespace Layout

/-- Before a line, after these tokens. A mapping may be open. -/
def atLine (tokens : List Token) (opened : Bool) : Layout where
  tokens := tokens.toArray
  blocks := if opened then [0] else []

/-- Between a key and its colon. -/
def afterKey (tokens : List Token) (opened : Bool) (first : Spot) (key : List Char) : Layout where
  tokens := (tokens ++ [Token.scalar (String.ofList key) .plain]).toArray
  blocks := if opened then [0] else []
  candidate := some {
    line := first.line
    offset := first.offset
    column := 0
    before := tokens.length
    required := opened }
  keyAllowed := false

/-- Between a colon and the value. -/
def afterColon (tokens : List Token) : Layout where
  tokens := tokens.toArray
  blocks := [0]
  keyAllowed := false

variable {fuel : Nat} {tokens : List Token} {opened : Bool} {first spot : Spot}
variable {word rest : List Spot}

theorem skipToToken_plain (allowed : Bool) (plain : Plain spot.char) :
    skipToToken false allowed false (spot :: rest) = (allowed, spot :: rest) := by
  have hspace : spot.char ≠ ' ' := plain.ne_blank (by decide)
  have htab : spot.char ≠ '\t' := plain.ne_blank (by decide)
  have hmark : spot.char ≠ '\uFEFF' := plain.ne_other (by decide)
  have hcomment : spot.char ≠ '#' := plain.ne_indicator (by decide)
  rw [skipToToken, plain.not_break]
  simp [hspace, htab, hmark, hcomment]

/-- A word is scanned as a scalar. -/
theorem token?_plain {layout saved : Layout} {text : List Char} {ended : Bool}
    {after : List Spot} (plain : Plain spot.char) (saves : layout.saveCandidate? spot = some saved)
    (read : plain? saved.inFlow saved.leastColumn (spot :: rest) = some (text, ended, after)) :
    layout.token? spot rest =
      some ((saved.allowKey ended).emit (.scalar (String.ofList text) .plain), after) := by
  have scalar : layout.scalarToken? spot rest =
      some ((saved.allowKey ended).emit (.scalar (String.ofList text) .plain), after) := by
    have hliteral : spot.char ≠ '|' := plain.ne_indicator (by decide)
    have hfolded : spot.char ≠ '>' := plain.ne_indicator (by decide)
    have hsingle : spot.char ≠ '\x27' := plain.ne_indicator (by decide)
    have hdouble : spot.char ≠ '"' := plain.ne_indicator (by decide)
    simp [scalarToken?, hliteral, hfolded, hsingle, hdouble, plain.not_indicator,
      plain.not_blank, saves, read]
  have hpercent : spot.char ≠ '%' := plain.ne_indicator (by decide)
  have hdash : spot.char ≠ '-' := plain.ne_indicator (by decide)
  have hquestion : spot.char ≠ '?' := plain.ne_indicator (by decide)
  have hcolon : spot.char ≠ ':' := plain.ne_indicator (by decide)
  rw [← scalar, token?, atTriple_cons hdash, atTriple_cons plain.ne_point]
  simp only [hpercent, Bool.false_eq_true, if_false, beq_iff_eq, Bool.and_eq_true, and_false]
  split
  case h_9 => simp [hdash, hquestion, hcolon]
  all_goals
    rename_i heq
    exact absurd heq (plain.ne_indicator (by decide))

/-- One token of a text. -/
theorem scan?_token {layout kept next : Layout} {allowed : Bool} {spots after : List Spot}
    (keep : (layout.allowKey allowed).dropStale? spot = some kept)
    (skip : skipToToken layout.inFlow layout.keyAllowed false spots = (allowed, spot :: rest))
    (token : (kept.closeBeyond spot.column).token? spot rest = some (next, after)) :
    scan? (fuel + 1) layout spots = scan? fuel next after := by
  simp [scan?, skip, keep, token]

theorem scan?_key (word_word : Word (first :: word)) (start : first.column = 0)
    (colon : spot.char = ':') (gap : atGap rest = true) :
    scan? (fuel + 1) (atLine tokens opened) (first :: word ++ spot :: rest) =
      scan? fuel (afterKey tokens opened first ((first :: word).map Spot.char)) (spot :: rest) := by
  have plain := word_word.plain first List.mem_cons_self
  have keep : ((atLine tokens opened).allowKey true).dropStale? first =
      some (atLine tokens opened) := rfl
  have closed : (atLine tokens opened).closeBeyond first.column = atLine tokens opened := by
    cases opened <;> simp [closeBeyond, atLine, inFlow, start]
  have saves : (atLine tokens opened).saveCandidate? first = some { atLine tokens opened with
      candidate := some {
        line := first.line
        offset := first.offset
        column := 0
        before := tokens.length
        required := opened } } := by
    cases opened <;> simp [saveCandidate?, dropCandidate?, atLine, inFlow, start]
  apply scan?_token keep (skipToToken_plain true plain)
  rw [closed, token?_plain plain saves (plain?_colon word_word colon gap)]
  simp [afterKey, atLine, allowKey, emit]

theorem scan?_colon {key : List Char} (colon : spot.char = ':') (gap : atGap rest = true)
    (sameLine : first.line = spot.line) (near : spot.offset ≤ first.offset + keyLimit) :
    scan? (fuel + 1) (afterKey tokens opened first key) (spot :: rest) =
      scan? fuel (afterColon (tokens ++ (if opened then [] else [.blockMappingStart]) ++
        [.key, .scalar (String.ofList key) .plain, .value])) rest := by
  have skip : skipToToken false false false (spot :: rest) = (false, spot :: rest) := by
    simp [skipToToken, colon, isBreak]
  have fresh (candidate : KeyCandidate) (hline : candidate.line = first.line)
      (hoffset : candidate.offset = first.offset) : isStale spot candidate = false := by
    simp only [isStale, Bool.or_eq_false_iff, decide_eq_false_iff_not]
    omega
  have keep : ((afterKey tokens opened first key).allowKey false).dropStale? spot =
      some (afterKey tokens opened first key) := by
    simp [dropStale?, afterKey, allowKey, fresh]
  have closed : (afterKey tokens opened first key).closeBeyond spot.column =
      afterKey tokens opened first key := by
    cases opened <;> simp [closeBeyond, afterKey, inFlow]
  apply scan?_token keep skip
  rw [closed]
  have token : (afterKey tokens opened first key).token? spot rest =
      ((afterKey tokens opened first key).value? spot).map (·, rest) := by
    have hdash : spot.char ≠ '-' := by rw [colon]; decide
    have hpoint : spot.char ≠ '.' := by rw [colon]; decide
    rw [token?, atTriple_cons hdash, atTriple_cons hpoint]
    simp [colon, gap]
    rfl
  rw [token]
  cases opened <;> simp [value?, afterKey, afterColon, opensAt, inFlow, insertAt, allowKey, emit]

theorem scan?_value (word_word : Word word) (blank : first.char = ' ') (newline : spot.char = '\n')
    (next : ∀ first ∈ rest.head?, Plain first.char ∧ first.column = 0) :
    scan? (fuel + 1) (afterColon tokens) (first :: (word ++ spot :: rest)) =
      scan? fuel (atLine (tokens ++ [.scalar (String.ofList (word.map Spot.char)) .plain]) true)
        rest := by
  obtain ⟨start, more, rfl⟩ := List.exists_cons_of_ne_nil word_word.ne_nil
  have plain := word_word.plain start List.mem_cons_self
  have keep : ((afterColon tokens).allowKey false).dropStale? start =
      some (afterColon tokens) := rfl
  have skip : skipToToken false false false (first :: (start :: more ++ spot :: rest)) =
      (false, start :: (more ++ spot :: rest)) := by
    rw [← skipToToken_plain false plain, skipToToken, blank]
    rfl
  have closed : (afterColon tokens).closeBeyond start.column = afterColon tokens := by
    simp [closeBeyond, afterColon, inFlow]
  have saves : (afterColon tokens).saveCandidate? start = some (afterColon tokens) := rfl
  have outside : ∀ first ∈ rest.head?, Plain first.char ∧ first.column < 1 := by
    intro first hfirst
    obtain ⟨plain, hcolumn⟩ := next first hfirst
    exact ⟨plain, hcolumn ▸ Nat.one_pos⟩
  have read : plain? false 1 (start :: (more ++ spot :: rest)) =
      some ((start :: more).map Spot.char, true, rest) := plain?_newline word_word newline outside
  apply scan?_token keep skip
  rw [closed, token?_plain plain saves read]
  simp [afterColon, atLine, allowKey, emit]

end Layout

namespace Field

theorem plain_key (field : Field) : ∀ c ∈ field.key, Plain c :=
  fun c hc => plain_of_isWordChar (field.isWord_key.2 c hc)

theorem plain_value (field : Field) : ∀ c ∈ field.value, Plain c :=
  fun c hc => plain_of_isWordChar (field.isWord_value.2 c hc)

/-- The line of a field in its places. -/
theorem locate_text (field : Field) (line offset : Nat) (rest : List Char) :
    ∃ after, locate line 0 offset (field.text ++ rest) =
      locate line 0 offset field.key ++
        ⟨':', line, field.key.length, offset + field.key.length⟩ ::
        ⟨' ', line, field.key.length + 1, offset + field.key.length + 1⟩ ::
        (locate line (field.key.length + 2) (offset + field.key.length + 2) field.value ++
          ⟨'\n', line, field.key.length + 2 + field.value.length,
            offset + field.key.length + 2 + field.value.length⟩ ::
          locate (line + 1) 0 after rest) := by
  have split : field.text ++ rest = field.key ++ ':' :: ' ' :: (field.value ++ '\n' :: rest) := by
    simp [text]
  refine ⟨offset + field.key.length + 2 + field.value.length + 1, ?_⟩
  rw [split, locate_append field.plain_key, Nat.zero_add, locate_cons rfl rfl, locate_cons rfl rfl,
    locate_append field.plain_value]
  rfl

/-- The line of a field is scanned in three steps, whatever tokens stand before it. -/
theorem scan?_text (field : Field) {fuel line offset : Nat} {before : List Token} {opened : Bool}
    {rest : List Char} (next : ∀ c ∈ rest.head?, Plain c) :
    ∃ after, Layout.scan? (fuel + 3) (Layout.atLine before opened)
        (locate line 0 offset (field.text ++ rest)) =
      Layout.scan? fuel
        (Layout.atLine (before ++ (if opened then [] else [.blockMappingStart]) ++ field.tokens)
          true)
        (locate (line + 1) 0 after rest) := by
  obtain ⟨after, placed⟩ := field.locate_text line offset rest
  obtain ⟨first, word, hkey, hline, hcolumn, hoffset⟩ :=
    exists_locate_cons line 0 offset field.isWord_key.1
  have key : Word (first :: word) := hkey ▸ word_locate field.isWord_key.1 field.plain_key
  have keyText : (first :: word).map Spot.char = field.key := by rw [← hkey, map_char_locate]
  have value : Word
      (locate line (field.key.length + 2) (offset + field.key.length + 2) field.value) :=
    word_locate field.isWord_value.1 field.plain_value
  have near : offset + field.key.length ≤ first.offset + Layout.keyLimit := by
    have short := field.short
    omega
  have later : ∀ spot ∈ (locate (line + 1) 0 after rest).head?,
      Plain spot.char ∧ spot.column = 0 := by
    cases rest with
    | nil => nofun
    | cons c rest =>
        rintro _ ⟨⟩
        exact ⟨next c rfl, rfl⟩
  refine ⟨after, ?_⟩
  rw [placed, hkey, Layout.scan?_key key hcolumn rfl rfl, keyText,
    Layout.scan?_colon rfl rfl hline near, Layout.scan?_value value rfl rfl later, map_char_locate]
  simp [Field.tokens]

theorem head?_flatMap_text (fields : List Field) :
    ∀ c ∈ (fields.flatMap text).head?, Plain c := by
  cases fields with
  | nil => nofun
  | cons field fields =>
      obtain ⟨c, key, hkey⟩ := List.exists_cons_of_ne_nil field.isWord_key.1
      have plain : Plain c := field.plain_key c (hkey ▸ List.mem_cons_self)
      rw [List.flatMap_cons, text, hkey]
      rintro _ ⟨⟩
      exact plain

/-- The lines of an open mapping up to the end of the text. -/
theorem scan?_flatMap_text (fields : List Field) {fuel line offset : Nat} {before : List Token}
    (enough : 3 * fields.length < fuel) :
    (Layout.scan? fuel (Layout.atLine before true)
        (locate line 0 offset (fields.flatMap text))).map (·.tokens.toList) =
      some (before ++ fields.flatMap tokens ++ [.blockEnd]) := by
  induction fields generalizing fuel line offset before with
  | nil =>
      -- One more step finds no token and closes the mapping.
      obtain ⟨fuel, rfl⟩ := Nat.exists_eq_add_one_of_ne_zero (Nat.ne_zero_of_lt enough)
      simp [Layout.scan?, Layout.atLine, Layout.closeAll, Layout.inFlow, Layout.dropCandidate?,
        locate, skipToToken]
  | cons field fields ih =>
      rw [List.length_cons] at enough
      obtain ⟨fuel, rfl⟩ := Nat.exists_eq_add_of_le' (show 3 ≤ fuel by omega)
      obtain ⟨after, scanned⟩ := field.scan?_text (head?_flatMap_text fields)
      rw [List.flatMap_cons, scanned, ih (by omega)]
      simp

theorem mem_text {field : Field} {c : Char} (h : c ∈ field.text) :
    Plain c ∨ c = ':' ∨ c = ' ' ∨ c = '\n' := by
  simp only [text, List.mem_append, List.mem_cons, List.not_mem_nil, or_false] at h
  rcases h with hkey | hcolon | hblank | hvalue | hnewline
  · exact .inl (field.plain_key c hkey)
  · exact .inr (.inl hcolon)
  · exact .inr (.inr (.inl hblank))
  · exact .inl (field.plain_value c hvalue)
  · exact .inr (.inr (.inr hnewline))

theorem mul_length_le_length_flatMap {α : Type} {size : Nat} {part : Field → List α}
    (least : ∀ field, size ≤ (part field).length) (fields : List Field) :
    size * fields.length ≤ (fields.flatMap part).length := by
  induction fields with
  | nil => exact Nat.le_refl 0
  | cons field fields ih =>
      have first := least field
      rw [List.flatMap_cons, List.length_append, List.length_cons, Nat.mul_succ]
      omega

theorem three_le_length_text (field : Field) : 3 ≤ field.text.length := by
  simp only [text, List.length_append, List.length_cons]
  omega

theorem spots?_flatMap_text (fields : List Field) :
    spots? (fields.flatMap text) = some (locate 0 0 0 (fields.flatMap text)) := by
  have kept : ∀ c ∈ fields.flatMap text, isAllowed c = true ∧ c ≠ '\r' ∧ c ≠ '\x85' := by
    intro c hc
    obtain ⟨field, -, hfield⟩ := List.mem_flatMap.1 hc
    rcases mem_text hfield with plain | rfl | rfl | rfl
    · exact ⟨plain.allowed, plain.ne_return, plain.ne_other (by decide)⟩
    all_goals decide
  rw [spots?, if_pos (List.all_eq_true.2 fun c hc => (kept c hc).1),
    unifyBreaks_eq fun c hc => (kept c hc).2]

theorem tokens?_flatMap_text {fields : List Field} (ne_nil : fields ≠ []) :
    tokens? (fields.flatMap text) =
      some (.blockMappingStart :: (fields.flatMap tokens ++ [.blockEnd])) := by
  have long := mul_length_le_length_flatMap three_le_length_text fields
  obtain ⟨field, fields, rfl⟩ := List.exists_cons_of_ne_nil ne_nil
  rw [List.length_cons] at long
  obtain ⟨fuel, hfuel⟩ : ∃ fuel, ((field :: fields).flatMap text).length + 1 = fuel + 3 :=
    Nat.exists_eq_add_of_le' (by omega)
  have enough : 3 * fields.length < fuel := by omega
  -- The first line opens the mapping, so it is scanned apart from the others.
  obtain ⟨after, scanned⟩ : ∃ after, Layout.scan? (fuel + 3) (Layout.atLine [] false)
      (locate 0 0 0 ((field :: fields).flatMap text)) =
        Layout.scan? fuel (Layout.atLine (.blockMappingStart :: field.tokens) true)
          (locate 1 0 after (fields.flatMap text)) :=
    field.scan?_text (head?_flatMap_text fields)
  calc tokens? ((field :: fields).flatMap text)
      = (Layout.scan? (fuel + 3) (Layout.atLine [] false)
          (locate 0 0 0 ((field :: fields).flatMap text))).map (·.tokens.toList) := by
        rw [tokens?, spots?_flatMap_text, ← hfuel, ← length_locate 0 0 0]
        exact Option.map_eq_bind.symm
    _ = some (.blockMappingStart :: ((field :: fields).flatMap tokens ++ [.blockEnd])) := by
        rw [scanned, scan?_flatMap_text fields enough]
        simp

/-- A key and its value, in the tree of a mapping. -/
def entry (field : Field) : Node × Node :=
  (.scalar ⟨String.ofList field.key, .plain, none⟩,
    .scalar ⟨String.ofList field.value, .plain, none⟩)

end Field

section Reading

variable {fuel : Nat} {cursor : Cursor} {rest : List Token}

/-- A scalar where a key or a value may stand. -/
theorem optional?_scalar (text : String) :
    optional? (fuel + 3) .value [.key, .value, .blockEnd]
        { cursor with tokens := .scalar text .plain :: rest } =
      some (.scalar ⟨text, .plain, none⟩, { cursor with tokens := rest }) := by
  simp [optional?, Cursor.startsIn, node?, content?, Cursor.properties?, Properties.scalar,
    Cursor.anchored]

/-- One field of a mapping. -/
theorem blockMapping?_tokens (field : Field) :
    blockMapping? (fuel + 4) { cursor with tokens := field.tokens ++ rest } =
      (blockMapping? (fuel + 3) { cursor with tokens := rest }).map
        (Prod.map (field.entry :: ·) id) := by
  rw [blockMapping?, Field.tokens]
  simp only [List.cons_append, List.nil_append, Cursor.skip, List.drop_succ_cons, List.drop_zero,
    optional?_scalar, Option.bind_eq_bind, Option.bind_some]
  exact Option.map_eq_bind.symm

theorem blockMapping?_fields (cursor : Cursor) (fields : List Field)
    (enough : fields.length + 3 ≤ fuel) :
    blockMapping? fuel
        { cursor with tokens := fields.flatMap Field.tokens ++ .blockEnd :: rest } =
      some (fields.map Field.entry, { cursor with tokens := rest }) := by
  induction fields generalizing fuel with
  | nil =>
      obtain ⟨fuel, rfl⟩ := Nat.exists_eq_add_of_le' enough
      rfl
  | cons field fields ih =>
      rw [List.length_cons] at enough
      obtain ⟨fuel, rfl⟩ := Nat.exists_eq_add_of_le' (show 4 ≤ fuel by omega)
      rw [List.flatMap_cons, List.append_assoc, blockMapping?_tokens, ih (by omega)]
      rfl

theorem document?_fields (fields : List Field) :
    document? (.blockMappingStart :: (fields.flatMap Field.tokens ++ [.blockEnd])) =
      some { root := .mapping (fields.map Field.entry) } := by
  have long : 4 * fields.length ≤ (fields.flatMap Field.tokens).length :=
    Field.mul_length_le_length_flatMap (fun _ => Nat.le_refl 4) fields
  have entries (fuel : Nat) (enough : fields.length + 3 ≤ fuel) :
      blockMapping? fuel { tokens := fields.flatMap Field.tokens ++ [.blockEnd] } =
        some (fields.map Field.entry, { tokens := [] }) :=
    blockMapping?_fields { tokens := [] } fields enough
  have read := entries (4 * ((fields.flatMap Field.tokens).length + 1 + 1) + 6) (by omega)
  simp [document?, directives?, node?, content?, Cursor.properties?, Cursor.anchored, isFinished,
    read, -List.length_flatMap]

end Reading

/-- A mapping that is written with one field to a line is read as the mapping of these fields. -/
theorem read?_fields {fields : List Field} (ne_nil : fields ≠ []) :
    read? (fields.flatMap Field.text) = some { root := .mapping (fields.map Field.entry) } := by
  rw [read?, Field.tokens?_flatMap_text ne_nil, Option.bind_some, document?_fields]

end RegionOutline.Yaml
