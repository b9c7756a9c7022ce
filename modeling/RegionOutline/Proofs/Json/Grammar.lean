import RegionOutline.Json.Reader
import RegionOutline.Proofs.Marker.Grammar

/-!
# The grammar of JSON

Which texts denote which values, as the standard has it: blanks may stand around the
structural characters, and a character of a string is spelled as itself, by a letter after a
backslash or by the four digits of each of its code units. The main statement says that the
reader takes every such text to the value that it denotes, so that a text denotes one value
at most.
-/

namespace RegionOutline.Json

variable {text rest before after more : List Char}

/-- Nothing but blanks, which may stand between tokens. -/
def Blank (text : List Char) : Prop :=
  ∀ c ∈ text, isSpace c = true

theorem blank_nil : Blank [] :=
  fun _ => nofun

/-! ## Numbers -/

structure Digits (text : List Char) : Prop where
  ne_nil : text ≠ []
  isDigit : ∀ c ∈ text, c.isDigit = true

inductive Whole : List Char → Prop
  | zero : Whole ['0']
  | run {text : List Char} (digits : Digits text) (first : text.head? ≠ some '0') : Whole text

inductive Fraction : List Char → Prop
  | absent : Fraction []
  | point {run : List Char} (digits : Digits run) : Fraction ('.' :: run)

inductive Exponent : List Char → Prop
  | absent : Exponent []
  | power {mark : Char} {sign run : List Char} (marked : mark = 'e' ∨ mark = 'E')
      (signed : sign ∈ [[], ['+'], ['-']]) (digits : Digits run) :
      Exponent (mark :: (sign ++ run))

/-- Digits that start with no zero but a zero alone, perhaps with a sign, a fraction and an
exponent. -/
inductive Numeral : List Char → Prop
  | parts {minus whole fraction exponent : List Char} (signed : minus ∈ [[], ['-']])
      (integral : Whole whole) (fractional : Fraction fraction) (scaled : Exponent exponent) :
      Numeral (minus ++ whole ++ fraction ++ exponent)

/-- A number that stands before this text ends there. -/
def EndsNumeral (text : List Char) : Prop :=
  ∀ c ∈ text.head?, c.isDigit = false ∧ c ≠ '.' ∧ c ≠ 'e' ∧ c ≠ 'E'

theorem ne_of_isDigit {c other : Char} (hc : c.isDigit = true) (hother : other.isDigit = false) :
    c ≠ other := by
  rintro rfl
  rw [hc] at hother
  cases hother

theorem digits?_append (digits : Digits text) (stop : ∀ c ∈ rest.head?, c.isDigit = false) :
    digits? (text ++ rest) = some (text, rest) := by
  obtain ⟨htake, hdrop⟩ := Text.takeWhile_dropWhile_iff.2 ⟨rfl, digits.isDigit, stop⟩
  simp [digits?, htake, hdrop, digits.ne_nil]

theorem whole?_append (whole : Whole text) (stop : ∀ c ∈ rest.head?, c.isDigit = false) :
    whole? (text ++ rest) = some (text, rest) := by
  cases whole with
  | zero =>
      have hdigit : (rest.head?.map Char.isDigit).getD false = false := by
        cases hrest : rest.head? with
        | none => rfl
        | some c => exact stop c hrest
      simp [whole?, hdigit]
  | run digits first =>
      rw [whole?, digits?_append digits stop]
      intro tail hzero
      apply first
      rw [← List.head?_append_of_ne_nil text digits.ne_nil, hzero]
      rfl

theorem Digits.head (digits : Digits text) : ∃ c tail, text = c :: tail ∧ c.isDigit = true := by
  obtain ⟨c, tail, rfl⟩ := List.exists_cons_of_ne_nil digits.ne_nil
  exact ⟨c, tail, rfl, digits.isDigit c List.mem_cons_self⟩

theorem fraction?_append (fraction : Fraction text)
    (stop : ∀ c ∈ rest.head?, c.isDigit = false ∧ c ≠ '.') :
    fraction? (text ++ rest) = some (text, rest) := by
  cases fraction with
  | absent =>
      apply fraction?.eq_2
      rintro tail rfl
      exact (stop '.' rfl).2 rfl
  | point digits =>
      rw [List.cons_append, fraction?, digits?_append digits fun c hc => (stop c hc).1]
      rfl

theorem exponent?_append (exponent : Exponent text) (stop : EndsNumeral rest) :
    exponent? (text ++ rest) = some (text, rest) := by
  cases exponent with
  | absent =>
      cases rest with
      | nil => rfl
      | cons c rest =>
          obtain ⟨_, _, hlower, hupper⟩ := stop c rfl
          simp [exponent?, hlower, hupper]
  | @power mark sign run marked signed digits =>
      obtain ⟨c, tail, rfl, hdigit⟩ := digits.head
      -- A digit is no sign, so the sign that is read is the one that was written.
      have hsign : ((sign ++ c :: tail ++ rest).takeWhile fun c => c == '+' || c == '-').take 1 =
          sign := by
        have hplus : c ≠ '+' := ne_of_isDigit hdigit rfl
        have hminus : c ≠ '-' := ne_of_isDigit hdigit rfl
        simp only [List.mem_cons, List.not_mem_nil, or_false] at signed
        rcases signed with rfl | rfl | rfl <;> simp [hplus, hminus]
      have hrest : (sign ++ c :: tail ++ rest).drop sign.length = c :: tail ++ rest := by
        rw [List.append_assoc, List.drop_left]
      rw [List.cons_append, exponent?, if_pos marked]
      simp only [hsign, hrest, digits?_append digits fun c hc => (stop c hc).1]
      rfl

theorem Whole.head (whole : Whole text) : ∃ c tail, text = c :: tail ∧ c.isDigit = true := by
  cases whole with
  | zero => exact ⟨'0', [], rfl, rfl⟩
  | run digits first => exact digits.head

theorem number?_append (numeral : Numeral text) (stop : EndsNumeral rest) :
    number? (text ++ rest) = some (text, rest) := by
  obtain ⟨signed, integral, fractional, scaled⟩ := numeral
  rename_i minus whole fraction exponent
  -- What each part is followed by cannot belong to it.
  have hscaled : ∀ c ∈ (exponent ++ rest).head?, c.isDigit = false ∧ c ≠ '.' := by
    cases scaled with
    | absent => exact fun c hc => ⟨(stop c hc).1, (stop c hc).2.1⟩
    | power marked signed digits =>
        rintro c hc
        cases hc
        rcases marked with rfl | rfl <;> decide
  have hfractional : ∀ c ∈ (fraction ++ (exponent ++ rest)).head?, c.isDigit = false := by
    cases fractional with
    | absent => exact fun c hc => (hscaled c hc).1
    | point digits =>
        rintro c hc
        cases hc
        rfl
  have hminus : ((minus ++ (whole ++ (fraction ++ (exponent ++ rest)))).takeWhile
      (· == '-')).take 1 = minus := by
    obtain ⟨c, tail, rfl, hdigit⟩ := integral.head
    have hne : c ≠ '-' := ne_of_isDigit hdigit rfl
    simp only [List.mem_cons, List.not_mem_nil, or_false] at signed
    rcases signed with rfl | rfl <;> simp [hne]
  simp only [List.append_assoc, number?, hminus, List.drop_left, whole?_append integral hfractional,
    fraction?_append fractional hscaled, exponent?_append scaled stop, Option.bind_eq_bind,
    Option.bind_some]
  rfl

/-! ## Strings -/

/-- How the characters of a string are spelled between its quotes. -/
inductive Spells : List Char → List Char → Prop
  | nil : Spells [] []
  | plain {c : Char} {chars text : List Char} (noQuote : c ≠ '"') (noBackslash : c ≠ '\\')
      (noControl : 0x20 ≤ c.toNat) (others : Spells chars text) : Spells (c :: chars) (c :: text)
  | short {letter c : Char} {chars text : List Char} (meant : shortEscape? letter = some c)
      (others : Spells chars text) : Spells (c :: chars) ('\\' :: letter :: text)
  | unit {a b c d : Char} {code : Nat} {chars text : List Char}
      (digits : Text.numeral? 16 [a, b, c, d] = some code)
      (high : isHighSurrogate code = false) (low : isLowSurrogate code = false)
      (others : Spells chars text) :
      Spells (Char.ofNat code :: chars) ('\\' :: 'u' :: a :: b :: c :: d :: text)
  | pair {a b c d e f g h : Char} {high low : Nat} {chars text : List Char}
      (first : Text.numeral? 16 [a, b, c, d] = some high)
      (second : Text.numeral? 16 [e, f, g, h] = some low)
      (isHigh : isHighSurrogate high = true) (isLow : isLowSurrogate low = true)
      (others : Spells chars text) :
      Spells (Char.ofNat (0x10000 + (high - 0xD800) * 0x400 + (low - 0xDC00)) :: chars)
        ('\\' :: 'u' :: a :: b :: c :: d :: '\\' :: 'u' :: e :: f :: g :: h :: text)

theorem joinPieces?_unit {code : Nat} (high : isHighSurrogate code = false)
    (low : isLowSurrogate code = false) (pieces : List Piece) :
    joinPieces? (.unit code :: pieces) = (joinPieces? pieces).map (Char.ofNat code :: ·) := by
  match pieces with
  | [] | .char _ :: _ => simp [joinPieces?, high, low]
  | .unit _ :: _ =>
      rw [joinPieces?]
      simp [high, low]

theorem pieces?_short {letter c : Char} (meant : shortEscape? letter = some c) :
    pieces? ('\\' :: letter :: text) =
      (pieces? text).bind fun (pieces, rest) => some (.char c :: pieces, rest) := by
  rw [pieces?, meant]
  · rfl
  · rintro _ _ _ _ _ rfl
    cases meant

theorem pieces?_unit {a b c d : Char} {code : Nat}
    (digits : Text.numeral? 16 [a, b, c, d] = some code) :
    pieces? ('\\' :: 'u' :: a :: b :: c :: d :: text) =
      (pieces? text).bind fun (pieces, rest) => some (.unit code :: pieces, rest) := by
  rw [pieces?, digits]
  rfl

theorem pieces?_plain {c : Char} (noQuote : c ≠ '"') (noBackslash : c ≠ '\\')
    (noControl : 0x20 ≤ c.toNat) :
    pieces? (c :: text) =
      (pieces? text).bind fun (pieces, rest) => some (.char c :: pieces, rest) := by
  rw [pieces?, if_neg (by simp [noBackslash, noControl])]
  · rfl
  · exact noQuote
  · rintro _ _ _ _ _ rfl
    exact absurd rfl noBackslash
  · rintro _ _ rfl
    exact absurd rfl noBackslash

theorem pieces?_of_spells {chars : List Char} (spells : Spells chars text) (rest : List Char) :
    ∃ pieces, pieces? (text ++ '"' :: rest) = some (pieces, rest) ∧
      joinPieces? pieces = some chars := by
  induction spells with
  | nil => exact ⟨[], rfl, rfl⟩
  | plain noQuote noBackslash noControl others ih =>
      obtain ⟨pieces, hpieces, hjoin⟩ := ih
      refine ⟨.char _ :: pieces, ?_, by rw [joinPieces?, hjoin]; rfl⟩
      rw [List.cons_append, pieces?_plain noQuote noBackslash noControl, hpieces]
      rfl
  | short meant others ih =>
      obtain ⟨pieces, hpieces, hjoin⟩ := ih
      refine ⟨.char _ :: pieces, ?_, by rw [joinPieces?, hjoin]; rfl⟩
      rw [List.cons_append, List.cons_append, pieces?_short meant, hpieces]
      rfl
  | unit digits high low others ih =>
      obtain ⟨pieces, hpieces, hjoin⟩ := ih
      refine ⟨.unit _ :: pieces, ?_, by rw [joinPieces?_unit high low, hjoin]; rfl⟩
      simp only [List.cons_append]
      rw [pieces?_unit digits, hpieces]
      rfl
  | @pair _ _ _ _ _ _ _ _ high low _ _ first second isHigh isLow others ih =>
      obtain ⟨pieces, hpieces, hjoin⟩ := ih
      refine ⟨.unit high :: .unit low :: pieces, ?_, ?_⟩
      · simp only [List.cons_append]
        rw [pieces?_unit first, pieces?_unit second, hpieces]
        rfl
      · rw [joinPieces?, if_pos ⟨isHigh, isLow⟩, hjoin]
        rfl

theorem string?_of_spells {chars : List Char} (spells : Spells chars text) (rest : List Char) :
    string? (text ++ '"' :: rest) = some (some (String.ofList chars), rest) := by
  obtain ⟨pieces, hpieces, hjoin⟩ := pieces?_of_spells spells rest
  simp [string?, hpieces, hjoin]

/-! ## Values -/

mutual

/-- A value is denoted by a text. -/
inductive Denotes : Value → List Char → Prop
  | null : Denotes .null ['n', 'u', 'l', 'l']
  | boolTrue : Denotes (.bool true) ['t', 'r', 'u', 'e']
  | boolFalse : Denotes (.bool false) ['f', 'a', 'l', 's', 'e']
  | number {text : List Char} (numeral : Numeral text) : Denotes (.number text) text
  | string {chars text : List Char} (spells : Spells chars text) :
      Denotes (.string (some (String.ofList chars))) ('"' :: (text ++ ['"']))
  | emptyArray {between : List Char} (blank : Blank between) :
      Denotes (.array []) ('[' :: (between ++ [']']))
  | array {item : Value} {items : List Value} {before text more after : List Char}
      (opening : Blank before) (first : Denotes item text) (others : FurtherItems items more)
      (closing : Blank after) :
      Denotes (.array (item :: items)) ('[' :: (before ++ (text ++ (more ++ (after ++ [']'])))))
  | emptyObject {between : List Char} (blank : Blank between) :
      Denotes (.object []) ('{' :: (between ++ ['}']))
  | object {entry : Option String × Value} {members : List (Option String × Value)}
      {before text more after : List Char} (opening : Blank before)
      (first : IsMember entry text) (others : FurtherMembers members more)
      (closing : Blank after) :
      Denotes (.object (entry :: members)) ('{' :: (before ++ (text ++ (more ++ (after ++ ['}'])))))

/-- Items of an array behind the first. -/
inductive FurtherItems : List Value → List Char → Prop
  | nil : FurtherItems [] []
  | cons {item : Value} {items : List Value} {before after text more : List Char}
      (opening : Blank before) (closing : Blank after) (first : Denotes item text)
      (others : FurtherItems items more) :
      FurtherItems (item :: items) (before ++ (',' :: (after ++ (text ++ more))))

/-- A key, a colon and a value. -/
inductive IsMember : Option String × Value → List Char → Prop
  | pair {chars key : List Char} {value : Value} {before after text : List Char}
      (spells : Spells chars key) (opening : Blank before) (closing : Blank after)
      (denotes : Denotes value text) :
      IsMember (some (String.ofList chars), value)
        ('"' :: (key ++ ('"' :: (before ++ (':' :: (after ++ text))))))

/-- Members of an object behind the first. -/
inductive FurtherMembers : List (Option String × Value) → List Char → Prop
  | nil : FurtherMembers [] []
  | cons {entry : Option String × Value} {members : List (Option String × Value)}
      {before after text more : List Char} (opening : Blank before) (closing : Blank after)
      (first : IsMember entry text) (others : FurtherMembers members more) :
      FurtherMembers (entry :: members) (before ++ (',' :: (after ++ (text ++ more))))

end

theorem skipSpace_append (blank : Blank before) (text : List Char) :
    skipSpace (before ++ text) = skipSpace text :=
  List.dropWhile_append_of_pos blank

theorem skipSpace_cons {c : Char} (h : isSpace c = false) (text : List Char) :
    skipSpace (c :: text) = c :: text :=
  List.dropWhile_cons_of_neg (by simp [h])

theorem colon?_append (blank : Blank before) (text : List Char) :
    colon? (before ++ ':' :: text) = some text := by
  rw [colon?, skipSpace_append blank, skipSpace_cons rfl]
  rfl

theorem value?_append (fuel : Nat) (blank : Blank before) (text : List Char) :
    value? fuel (before ++ text) = value? fuel text := by
  cases fuel with
  | zero => rfl
  | succ fuel => rw [value?, value?, skipSpace_append blank]

theorem member?_append (fuel : Nat) (blank : Blank before) (text : List Char) :
    member? fuel (before ++ text) = member? fuel text := by
  cases fuel with
  | zero => rfl
  | succ fuel => rw [member?, member?, skipSpace_append blank]

theorem endsNumeral_of_blank (blank : Blank text) : EndsNumeral text := by
  intro c hc
  have hspace : isSpace c = true := blank c (List.mem_of_mem_head? hc)
  simp only [isSpace, Bool.or_eq_true, beq_iff_eq] at hspace
  rcases hspace with ((rfl | rfl) | rfl) | rfl <;> decide

/-- No number goes on behind blanks and a structural character. -/
theorem endsNumeral_append (blank : Blank before) {c : Char} (structural : c ∈ [',', ']', '}'])
    (text : List Char) : EndsNumeral (before ++ c :: text) := by
  cases before with
  | nil =>
      intro first hfirst
      cases hfirst
      simp only [List.mem_cons, List.not_mem_nil, or_false] at structural
      rcases structural with rfl | rfl | rfl <;> decide
  | cons space more =>
      intro first hfirst
      exact endsNumeral_of_blank blank first hfirst

theorem FurtherItems.ends {items : List Value} (further : FurtherItems items more)
    (closing : Blank after) (rest : List Char) :
    EndsNumeral (more ++ (after ++ ']' :: rest)) := by
  cases further with
  | nil => exact endsNumeral_append closing (by simp) rest
  | cons opening _ _ _ =>
      rw [List.append_assoc]
      exact endsNumeral_append opening (by simp) _

theorem FurtherMembers.ends {members : List (Option String × Value)}
    (further : FurtherMembers members more) (closing : Blank after) (rest : List Char) :
    EndsNumeral (more ++ (after ++ '}' :: rest)) := by
  cases further with
  | nil => exact endsNumeral_append closing (by simp) rest
  | cons opening _ _ _ =>
      rw [List.append_assoc]
      exact endsNumeral_append opening (by simp) _

/-- A numeral begins with a digit or with its sign. -/
theorem Numeral.head (numeral : Numeral text) :
    ∃ c tail, text = c :: tail ∧ (c = '-' ∨ c.isDigit = true) := by
  obtain ⟨signed, integral, fractional, scaled⟩ := numeral
  obtain ⟨c, tail, rfl, hdigit⟩ := integral.head
  simp only [List.mem_cons, List.not_mem_nil, or_false] at signed
  rcases signed with rfl | rfl
  · exact ⟨c, _, rfl, Or.inr hdigit⟩
  · exact ⟨'-', _, rfl, Or.inl rfl⟩

/-- What a numeral begins with, no other token begins with. -/
theorem ne_of_numeral {c other : Char} (hc : c = '-' ∨ c.isDigit = true)
    (hother : ¬ (other = '-' ∨ other.isDigit = true)) : c ≠ other := by
  rintro rfl
  exact hother hc

theorem isSpace_eq_false_of_numeral {c : Char} (hc : c = '-' ∨ c.isDigit = true) :
    isSpace c = false := by
  simp only [isSpace, Bool.or_eq_false_iff, beq_eq_false_iff_ne]
  exact ⟨⟨⟨ne_of_numeral hc (by decide), ne_of_numeral hc (by decide)⟩,
    ne_of_numeral hc (by decide)⟩, ne_of_numeral hc (by decide)⟩

/-- What a value begins with is no blank and closes nothing. -/
theorem Denotes.head {value : Value} (denotes : Denotes value text) :
    ∃ c tail, text = c :: tail ∧ isSpace c = false ∧ c ≠ ']' := by
  cases denotes with
  | number numeral =>
      obtain ⟨c, tail, htext, hc⟩ := numeral.head
      exact ⟨c, tail, htext, isSpace_eq_false_of_numeral hc, ne_of_numeral hc (by decide)⟩
  | _ => exact ⟨_, _, rfl, by decide, by decide⟩

/-! ## Reading -/

theorem value?_of_numeral (numeral : Numeral text) (ends : EndsNumeral rest) (fuel : Nat) :
    value? (fuel + 1) (text ++ rest) = some (.number text, rest) := by
  obtain ⟨c, tail, rfl, hc⟩ := numeral.head
  have hnumber := number?_append numeral ends
  rw [List.cons_append] at hnumber ⊢
  rw [value?, skipSpace_cons (isSpace_eq_false_of_numeral hc)]
  -- The reader goes by the first character, and none of the others fits a numeral.
  split
  case h_7 => rw [hnumber]; rfl
  all_goals
    rename_i heq
    exact absurd (List.cons.inj heq).1 (ne_of_numeral hc (by decide))

theorem value?_emptyArray (blank : Blank before) (rest : List Char) (fuel : Nat) :
    value? (fuel + 1) ('[' :: (before ++ ']' :: rest)) = some (.array [], rest) := by
  rw [value?, skipSpace_cons rfl]
  simp only [skipSpace_append blank, skipSpace_cons (c := ']') rfl]

theorem value?_array {item : Value} {items : List Value} {c : Char} {tail inner : List Char}
    {fuel : Nat} (blank : Blank before) (visible : isSpace c = false) (noClose : c ≠ ']')
    (first : value? fuel (c :: tail) = some (item, inner))
    (others : items? fuel inner = some (items, rest)) :
    value? (fuel + 1) ('[' :: (before ++ c :: tail)) = some (.array (item :: items), rest) := by
  rw [value?, skipSpace_cons rfl]
  simp only [skipSpace_append blank, skipSpace_cons visible]
  split
  · rename_i heq
    exact absurd (List.cons.inj heq).1 noClose
  · simp [first, others]

theorem value?_emptyObject (blank : Blank before) (rest : List Char) (fuel : Nat) :
    value? (fuel + 1) ('{' :: (before ++ '}' :: rest)) = some (.object [], rest) := by
  rw [value?, skipSpace_cons rfl]
  simp only [skipSpace_append blank, skipSpace_cons (c := '}') rfl]

theorem value?_object {entry : Option String × Value} {members : List (Option String × Value)}
    {tail inner : List Char} {fuel : Nat} (blank : Blank before)
    (first : member? fuel ('"' :: tail) = some (entry, inner))
    (others : members? fuel inner = some (members, rest)) :
    value? (fuel + 1) ('{' :: (before ++ '"' :: tail)) =
      some (.object (entry :: members), rest) := by
  rw [value?, skipSpace_cons rfl]
  simp only [skipSpace_append blank, skipSpace_cons (c := '"') rfl]
  simp [first, others]

theorem IsMember.head {entry : Option String × Value} (member : IsMember entry text) :
    ∃ tail, text = '"' :: tail := by
  cases member
  exact ⟨_, rfl⟩

mutual

/-- A value is read off the text that denotes it, in which every token takes up fuel for one
step at most. -/
theorem value?_of_denotes (fuel : Nat) {value : Value} {text rest : List Char}
    (denotes : Denotes value text) (enough : text.length ≤ fuel) (ends : EndsNumeral rest) :
    value? fuel (text ++ rest) = some (value, rest) := by
  match fuel with
  | 0 =>
      obtain ⟨c, tail, rfl, _⟩ := denotes.head
      cases enough
  | fuel + 1 =>
      cases denotes with
      | null | boolTrue | boolFalse => rfl
      | number numeral => exact value?_of_numeral numeral ends fuel
      | string spells =>
          rw [List.cons_append, List.append_assoc, List.singleton_append, value?,
            skipSpace_cons rfl]
          simp [string?_of_spells spells]
      | emptyArray blank =>
          rw [List.cons_append, List.append_assoc, List.singleton_append]
          exact value?_emptyArray blank rest fuel
      | array opening first others closing =>
          simp only [List.length_cons, List.length_append] at enough
          have hfirst := value?_of_denotes fuel first (by omega) (others.ends closing rest)
          have hothers := items?_of_furtherItems fuel others closing (by omega) rest
          obtain ⟨c, tail, rfl, visible, noClose⟩ := first.head
          simp only [List.cons_append, List.append_assoc, List.nil_append] at hfirst ⊢
          exact value?_array opening visible noClose hfirst hothers
      | emptyObject blank =>
          rw [List.cons_append, List.append_assoc, List.singleton_append]
          exact value?_emptyObject blank rest fuel
      | object opening first others closing =>
          simp only [List.length_cons, List.length_append] at enough
          have hfirst := member?_of_isMember fuel first (by omega) (others.ends closing rest)
          have hothers := members?_of_furtherMembers fuel others closing (by omega) rest
          obtain ⟨tail, rfl⟩ := first.head
          simp only [List.cons_append, List.append_assoc, List.nil_append] at hfirst ⊢
          exact value?_object opening hfirst hothers

theorem items?_of_furtherItems (fuel : Nat) {items : List Value} {more after : List Char}
    (further : FurtherItems items more) (closing : Blank after) (enough : more.length < fuel)
    (rest : List Char) : items? fuel (more ++ (after ++ ']' :: rest)) = some (items, rest) := by
  match fuel with
  | 0 => cases enough
  | fuel + 1 =>
      cases further with
      | nil => rw [items?, List.nil_append, skipSpace_append closing, skipSpace_cons rfl]; rfl
      | cons opening separating first others =>
          simp only [List.length_cons, List.length_append] at enough
          have hfirst := value?_of_denotes fuel first (by omega) (others.ends closing rest)
          have hothers := items?_of_furtherItems fuel others closing (by omega) rest
          simp only [List.cons_append, List.append_assoc]
          rw [items?, skipSpace_append opening, skipSpace_cons rfl]
          simp [value?_append fuel separating, hfirst, hothers]

theorem member?_of_isMember (fuel : Nat) {entry : Option String × Value} {text rest : List Char}
    (member : IsMember entry text) (enough : text.length ≤ fuel) (ends : EndsNumeral rest) :
    member? fuel (text ++ rest) = some (entry, rest) := by
  match fuel with
  | 0 =>
      obtain ⟨tail, rfl⟩ := member.head
      cases enough
  | fuel + 1 =>
      cases member with
      | pair spells opening closing denotes =>
          simp only [List.length_cons, List.length_append] at enough
          have hvalue := value?_of_denotes fuel denotes (by omega) ends
          simp only [List.cons_append, List.append_assoc]
          rw [member?, skipSpace_cons rfl]
          simp [string?_of_spells spells, colon?_append opening, value?_append fuel closing, hvalue]

theorem members?_of_furtherMembers (fuel : Nat) {members : List (Option String × Value)}
    {more after : List Char} (further : FurtherMembers members more)
    (closing : Blank after) (enough : more.length < fuel) (rest : List Char) :
    members? fuel (more ++ (after ++ '}' :: rest)) = some (members, rest) := by
  match fuel with
  | 0 => cases enough
  | fuel + 1 =>
      cases further with
      | nil => rw [members?, List.nil_append, skipSpace_append closing, skipSpace_cons rfl]; rfl
      | cons opening separating first others =>
          simp only [List.length_cons, List.length_append] at enough
          have hfirst := member?_of_isMember fuel first (by omega) (others.ends closing rest)
          have hothers := members?_of_furtherMembers fuel others closing (by omega) rest
          simp only [List.cons_append, List.append_assoc]
          rw [members?, skipSpace_append opening, skipSpace_cons rfl]
          simp [member?_append fuel separating, hfirst, hothers]

end

/-- The reader takes a text to the value that it denotes. -/
theorem read?_of_denotes {value : Value} (opening : Blank before) (denotes : Denotes value text)
    (closing : Blank after) : read? (before ++ (text ++ after)) = some value := by
  have hskip : skipSpace after = [] := by
    rw [← List.append_nil after]
    exact skipSpace_append closing []
  have enough : text.length ≤ 2 * (before ++ (text ++ after)).length + 2 := by
    simp only [List.length_append]
    omega
  rw [read?, value?_append _ opening,
    value?_of_denotes _ denotes enough (endsNumeral_of_blank closing)]
  simp [hskip]

/-- No text is ambiguous. -/
theorem Denotes.unique {value other : Value} (denotes : Denotes value text)
    (also : Denotes other text) : value = other := by
  apply Option.some.inj
  rw [← read?_of_denotes blank_nil denotes blank_nil, read?_of_denotes blank_nil also blank_nil]

end RegionOutline.Json
