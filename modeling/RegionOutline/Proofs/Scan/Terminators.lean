import RegionOutline.Proofs.Scan.WellFormed

/-!
# Line terminators

Cutting a text into source lines loses nothing but the choice between the three
terminators: the lines joined by LF are the text with LF for every terminator. So two
texts that differ in their terminators only have the same outline. A text that ends with
a whole terminator can be cut apart from what follows it, and then its outline is the
first part of the outline of both.
-/

namespace RegionOutline

namespace Text

/-- What ends a source line. -/
inductive Terminator where
  | lf
  | cr
  | crlf

namespace Terminator

def chars : Terminator → List Char
  | .lf => ['\n']
  | .cr => ['\r']
  | .crlf => ['\r', '\n']

/-- The terminator does not go on in the rest of the text: a CR before an LF is only the
first half of one. -/
def Whole (terminator : Terminator) (rest : List Char) : Prop :=
  terminator = .cr → rest.head? ≠ some '\n'

end Terminator

/-- The text ends with a terminator. -/
def EndsLine (text : List Char) : Prop :=
  text.getLast? = some '\r' ∨ text.getLast? = some '\n'

instance (text : List Char) : Decidable (EndsLine text) :=
  inferInstanceAs (Decidable (_ ∨ _))

/-- The text with LF for every CRLF and for every CR alone. -/
def withNewlines : List Char → List Char
  | [] => []
  | '\r' :: '\n' :: rest => '\n' :: withNewlines rest
  | c :: rest => (if c = '\r' then '\n' else c) :: withNewlines rest

/-- The text with the terminator for every LF. -/
def Terminator.forNewlines (terminator : Terminator) (text : List Char) : List Char :=
  text.flatMap fun c => if c = '\n' then terminator.chars else [c]

/-- The text with the same terminator at the end of every line. -/
def withTerminator (terminator : Terminator) (text : List Char) : List Char :=
  terminator.forNewlines (withNewlines text)

/-- The second text begins on a line of its own: the first one is empty or ends with a
terminator, and no CRLF is made of the two. -/
structure Separate (first second : List Char) : Prop where
  closed : first = [] ∨ EndsLine first
  whole : ¬ (first.getLast? = some '\r' ∧ second.head? = some '\n')

/-- To read on from a part of a line is to come to the end of the text, to a terminator
that stands whole before the rest, or to another character. -/
theorem reading_induction {motive : List Char → List Char → Prop}
    (done : ∀ current, motive current [])
    (ends : ∀ current terminator rest, Terminator.Whole terminator rest →
      motive [] rest → motive current (terminator.chars ++ rest))
    (reads : ∀ current c rest, c ≠ '\r' → c ≠ '\n' →
      motive (c :: current) rest → motive current (c :: rest))
    (current text : List Char) : motive current text := by
  induction current, text using sourceLinesFrom.induct with
  | case1 => exact done []
  | case2 current _ => exact done current
  | case3 current rest ih => exact ends current .crlf rest (by simp [Terminator.Whole]) ih
  | case4 current c rest single hends ih =>
      cases hends with
      | inl hnewline =>
          subst hnewline
          exact ends current .lf rest (by simp [Terminator.Whole]) ih
      | inr hreturn =>
          subst hreturn
          refine ends current .cr rest ?_ ih
          intro _ hhead
          obtain ⟨more, hmore⟩ := List.head?_eq_some_iff.1 hhead
          exact single more rfl hmore
  | case5 current c rest _ hinside ih =>
      obtain ⟨hnewline, hreturn⟩ := not_or.1 hinside
      exact reads current c rest hreturn hnewline ih

section Reading

variable {current rest : List Char} {terminator : Terminator} {c : Char}

/-- A whole CR is not taken for a CRLF. -/
theorem Terminator.Whole.not_newline (whole : Terminator.cr.Whole rest) (more : List Char) :
    rest ≠ '\n' :: more := by
  rintro rfl
  exact whole rfl rfl

theorem sourceLinesFrom_ends (whole : terminator.Whole rest) :
    sourceLinesFrom current (terminator.chars ++ rest) = current.reverse :: sourceLines rest := by
  cases terminator with
  | lf =>
      change sourceLinesFrom current ('\n' :: rest) = _
      rw [sourceLinesFrom, if_pos (Or.inl rfl), sourceLines]
      simp
  | cr =>
      change sourceLinesFrom current ('\r' :: rest) = _
      rw [sourceLinesFrom, if_pos (Or.inr rfl), sourceLines]
      exact fun more _ => whole.not_newline more
  | crlf =>
      change sourceLinesFrom current ('\r' :: '\n' :: rest) = _
      rw [sourceLinesFrom, sourceLines]

theorem sourceLinesFrom_reads (hreturn : c ≠ '\r') (hnewline : c ≠ '\n') :
    sourceLinesFrom current (c :: rest) = sourceLinesFrom (c :: current) rest := by
  rw [sourceLinesFrom, if_neg (not_or.2 ⟨hnewline, hreturn⟩)]
  exact fun _ heq => absurd heq hreturn

theorem withNewlines_ends (whole : terminator.Whole rest) :
    withNewlines (terminator.chars ++ rest) = '\n' :: withNewlines rest := by
  cases terminator with
  | lf =>
      change withNewlines ('\n' :: rest) = _
      rw [withNewlines, if_neg (by decide)]
      simp
  | cr =>
      change withNewlines ('\r' :: rest) = _
      rw [withNewlines, if_pos rfl]
      exact fun more _ => whole.not_newline more
  | crlf =>
      change withNewlines ('\r' :: '\n' :: rest) = _
      rw [withNewlines]

theorem withNewlines_reads (hreturn : c ≠ '\r') :
    withNewlines (c :: rest) = c :: withNewlines rest := by
  rw [withNewlines, if_neg hreturn]
  exact fun _ heq => absurd heq hreturn

theorem endsLine_append (hrest : rest ≠ []) (front : List Char) :
    EndsLine (front ++ rest) ↔ EndsLine rest := by
  rw [EndsLine, List.getLast?_append_of_ne_nil front hrest, EndsLine]

theorem endsLine_cons (hreturn : c ≠ '\r') (hnewline : c ≠ '\n') :
    EndsLine (c :: rest) ↔ EndsLine rest := by
  cases rest with
  | nil => simp [EndsLine, hreturn, hnewline]
  | cons next more => exact endsLine_append (List.cons_ne_nil next more) [c]

theorem endsLine_chars (terminator : Terminator) : EndsLine terminator.chars := by
  cases terminator <;> decide

theorem Unbroken.of_cons {line : List Char} (unbroken : Unbroken (c :: line)) :
    c ≠ '\r' ∧ c ≠ '\n' ∧ Unbroken line := by
  obtain ⟨hreturn, hnewline⟩ := unbroken
  simp only [List.mem_cons, not_or] at hreturn hnewline
  exact ⟨fun h => hreturn.1 h.symm, fun h => hnewline.1 h.symm, hreturn.2, hnewline.2⟩

theorem sourceLinesFrom_unbroken {line : List Char} (unbroken : Unbroken line) :
    sourceLinesFrom current (line ++ rest) = sourceLinesFrom (line.reverse ++ current) rest := by
  induction line generalizing current with
  | nil => rfl
  | cons c line ih =>
      obtain ⟨hreturn, hnewline, unbroken⟩ := unbroken.of_cons
      rw [List.cons_append, sourceLinesFrom_reads hreturn hnewline, ih unbroken]
      simp

/-- A line is cut off at the terminator behind it. -/
theorem sourceLines_line {line : List Char} (unbroken : Unbroken line)
    (whole : terminator.Whole rest) :
    sourceLines (line ++ (terminator.chars ++ rest)) = line :: sourceLines rest := by
  rw [sourceLines, sourceLinesFrom_unbroken unbroken, sourceLinesFrom_ends whole]
  simp

end Reading

theorem sourceLinesFrom_ne_nil {current text : List Char} (h : current ≠ [] ∨ text ≠ []) :
    sourceLinesFrom current text ≠ [] := by
  induction current, text using reading_induction with
  | done current =>
      have hcurrent : current ≠ [] := h.resolve_right (fun hne => hne rfl)
      rw [sourceLinesFrom]
      · exact List.cons_ne_nil _ _
      · exact hcurrent
  | ends current terminator rest whole ih =>
      rw [sourceLinesFrom_ends whole]
      exact List.cons_ne_nil _ _
  | reads current c rest hreturn hnewline ih =>
      rw [sourceLinesFrom_reads hreturn hnewline]
      exact ih (Or.inl (List.cons_ne_nil c current))

/-- Nothing of the text is lost in its lines. -/
theorem intercalate_sourceLinesFrom (current text : List Char) :
    ['\n'].intercalate (sourceLinesFrom current text) ++ (if EndsLine text then ['\n'] else []) =
      current.reverse ++ withNewlines text := by
  induction current, text using reading_induction with
  | done current =>
      cases current with
      | nil => rfl
      | cons c current => simp [sourceLinesFrom, EndsLine, withNewlines]
  | ends current terminator rest whole ih =>
      rw [sourceLinesFrom_ends whole, withNewlines_ends whole]
      by_cases hrest : rest = []
      · subst hrest
        rw [List.append_nil, if_pos (endsLine_chars terminator)]
        simp [sourceLines, sourceLinesFrom, withNewlines]
      · have hlines : sourceLines rest ≠ [] := sourceLinesFrom_ne_nil (Or.inr hrest)
        rw [List.intercalate_cons_of_ne_nil hlines, List.append_assoc, List.append_assoc]
        simp only [endsLine_append hrest]
        exact congrArg (fun later => current.reverse ++ '\n' :: later) ih
  | reads current c rest hreturn hnewline ih =>
      rw [sourceLinesFrom_reads hreturn hnewline, withNewlines_reads hreturn]
      simp only [endsLine_cons hreturn hnewline]
      simpa using ih

/-- The lines are those of the text with LF for every terminator. -/
theorem sourceLinesFrom_withNewlines (current text : List Char) :
    sourceLinesFrom current (withNewlines text) = sourceLinesFrom current text := by
  induction current, text using reading_induction with
  | done current => rfl
  | ends current terminator rest whole ih =>
      have hnewline : Terminator.lf.Whole (withNewlines rest) := by simp [Terminator.Whole]
      rw [withNewlines_ends whole, sourceLinesFrom_ends whole]
      calc sourceLinesFrom current ('\n' :: withNewlines rest)
          = current.reverse :: sourceLines (withNewlines rest) := sourceLinesFrom_ends hnewline
        _ = current.reverse :: sourceLines rest := congrArg (current.reverse :: ·) ih
  | reads current c rest hreturn hnewline ih =>
      rw [withNewlines_reads hreturn, sourceLinesFrom_reads hreturn hnewline,
        sourceLinesFrom_reads hreturn hnewline, ih]

/-- Texts that differ in their terminators only have the same lines. -/
theorem sourceLines_eq_of_withNewlines_eq {text other : List Char}
    (h : withNewlines other = withNewlines text) : sourceLines other = sourceLines text := by
  calc sourceLines other = sourceLines (withNewlines other) :=
        (sourceLinesFrom_withNewlines [] other).symm
    _ = sourceLines (withNewlines text) := by rw [h]
    _ = sourceLines text := sourceLinesFrom_withNewlines [] text

section Rewriting

variable {terminator : Terminator} {c : Char} {rest text : List Char}

theorem return_not_mem_withNewlines (text : List Char) : '\r' ∉ withNewlines text := by
  fun_induction withNewlines text with
  | case1 => exact List.not_mem_nil
  | case2 rest ih => exact List.not_mem_cons_of_ne_of_not_mem (by decide) ih
  | case3 c rest _ ih =>
      apply List.not_mem_cons_of_ne_of_not_mem _ ih
      split
      · decide
      · rename_i hreturn
        exact Ne.symm hreturn

theorem forNewlines_newline :
    terminator.forNewlines ('\n' :: rest) = terminator.chars ++ terminator.forNewlines rest := by
  rw [Terminator.forNewlines, List.flatMap_cons, if_pos rfl]
  rfl

theorem forNewlines_cons (hnewline : c ≠ '\n') :
    terminator.forNewlines (c :: rest) = c :: terminator.forNewlines rest := by
  rw [Terminator.forNewlines, List.flatMap_cons, if_neg hnewline]
  rfl

/-- Where CR stands for LF, no LF is left that could follow it. -/
theorem whole_forNewlines (terminator : Terminator) (text : List Char) :
    terminator.Whole (terminator.forNewlines text) := by
  rintro rfl
  cases text with
  | nil => simp [Terminator.forNewlines]
  | cons c rest =>
      by_cases hnewline : c = '\n'
      · subst hnewline
        rw [forNewlines_newline]
        simp [Terminator.chars]
      · rw [forNewlines_cons hnewline]
        simpa using hnewline

theorem withNewlines_forNewlines (hreturn : '\r' ∉ text) :
    withNewlines (terminator.forNewlines text) = text := by
  induction text with
  | nil => rfl
  | cons c rest ih =>
      have hrest : '\r' ∉ rest := fun hmem => hreturn (List.mem_cons_of_mem c hmem)
      by_cases hnewline : c = '\n'
      · subst hnewline
        rw [forNewlines_newline, withNewlines_ends (whole_forNewlines terminator rest), ih hrest]
      · have hc : c ≠ '\r' := fun heq => hreturn (heq ▸ List.mem_cons_self)
        rw [forNewlines_cons hnewline, withNewlines_reads hc, ih hrest]

theorem withNewlines_withTerminator (terminator : Terminator) (text : List Char) :
    withNewlines (withTerminator terminator text) = withNewlines text :=
  withNewlines_forNewlines (return_not_mem_withNewlines text)

end Rewriting

/-- Reading on from a part of a line, a text that ends with a whole terminator is done
before the next one begins. -/
theorem sourceLinesFrom_append {current first second : List Char}
    (closed : (current = [] ∧ first = []) ∨ EndsLine first)
    (whole : ¬ (first.getLast? = some '\r' ∧ second.head? = some '\n')) :
    sourceLinesFrom current (first ++ second) =
      sourceLinesFrom current first ++ sourceLines second := by
  induction current, first using reading_induction with
  | done current =>
      obtain ⟨rfl, _⟩ := closed.resolve_right (by decide)
      rfl
  | ends current terminator rest standing ih =>
      have hclosed : (([] : List Char) = [] ∧ rest = []) ∨ EndsLine rest := by
        by_cases hrest : rest = []
        · exact Or.inl ⟨rfl, hrest⟩
        · apply Or.inr
          apply (endsLine_append hrest terminator.chars).1
          exact closed.resolve_left (fun h => hrest (List.append_eq_nil_iff.1 h.2).2)
      have hwhole : ¬ (rest.getLast? = some '\r' ∧ second.head? = some '\n') := by
        rintro ⟨hlast, hhead⟩
        apply whole
        rw [List.getLast?_append, hlast]
        exact ⟨rfl, hhead⟩
      -- A CR at the very end of the first text is the case that `whole` is for.
      have hstanding : terminator.Whole (rest ++ second) := by
        rintro rfl
        cases rest with
        | nil => exact fun hhead => whole ⟨rfl, hhead⟩
        | cons next more => exact standing rfl
      rw [List.append_assoc, sourceLinesFrom_ends hstanding, sourceLinesFrom_ends standing,
        List.cons_append]
      exact congrArg (current.reverse :: ·) (ih hclosed hwhole)
  | reads current c rest hreturn hnewline ih =>
      have hends : EndsLine rest :=
        (endsLine_cons hreturn hnewline).1 (closed.resolve_left (fun h => List.cons_ne_nil _ _ h.2))
      rw [List.cons_append, sourceLinesFrom_reads hreturn hnewline,
        sourceLinesFrom_reads hreturn hnewline]
      apply ih (Or.inr hends)
      rintro ⟨hlast, hhead⟩
      apply whole
      rw [List.getLast?_cons, hlast]
      exact ⟨rfl, hhead⟩

/-- A text that begins on a line of its own has its own lines. -/
theorem sourceLines_append {first second : List Char} (separate : Separate first second) :
    sourceLines (first ++ second) = sourceLines first ++ sourceLines second :=
  sourceLinesFrom_append (separate.closed.imp_left fun h => ⟨rfl, h⟩) separate.whole

end Text

open Text

/-- The lines keep all of a text but its choice of terminators, and its outline depends on
nothing else. -/
structure LosslessLines (text : String) : Prop where
  unbroken : ∀ line ∈ sourceLines text.toList, '\r' ∉ line ∧ '\n' ∉ line
  /-- Joined by LF, and with one at the end where the text has a terminator there, the
  lines are the text but for the choice of terminators. -/
  joined : ['\n'].intercalate (sourceLines text.toList) ++
    (if EndsLine text.toList then ['\n'] else []) = withNewlines text.toList
  /-- What begins on a line of its own has its own lines. -/
  append : ∀ rest : String, Separate text.toList rest.toList →
    sourceLines (text ++ rest).toList = sourceLines text.toList ++ sourceLines rest.toList
  /-- A text with other terminators, mixed in any way, has the same outline. -/
  any_terminators : ∀ other : String, withNewlines other.toList = withNewlines text.toList →
    scan other = scan text
  /-- So has the text with one of them throughout. -/
  one_terminator : ∀ terminator : Terminator,
    scan (String.ofList (withTerminator terminator text.toList)) = scan text
  /-- What follows on lines of its own leaves the outline so far as it is. -/
  scan_append : ∀ rest : String, Separate text.toList rest.toList →
    scan text <+: scan (text ++ rest)

theorem scan_eq_of_withNewlines_eq {text other : String}
    (h : withNewlines other.toList = withNewlines text.toList) : scan other = scan text := by
  rw [scan, sourceLines_eq_of_withNewlines_eq h, scan]

theorem scan_prefix_of_separate {text rest : String}
    (separate : Separate text.toList rest.toList) : scan text <+: scan (text ++ rest) := by
  rw [scan, scan, String.toList_append, sourceLines_append separate, Scanner.entries_append]
  exact List.prefix_append _ _

/-- Cutting any text into source lines loses nothing but the choice of terminators. -/
theorem source_lines_lossless (text : String) : LosslessLines text where
  unbroken _ h := unbroken_of_mem_sourceLines h
  joined := intercalate_sourceLinesFrom [] text.toList
  append rest separate := by
    rw [String.toList_append]
    exact sourceLines_append separate
  any_terminators _ h := scan_eq_of_withNewlines_eq h
  one_terminator terminator := by
    apply scan_eq_of_withNewlines_eq
    rw [String.toList_ofList]
    exact withNewlines_withTerminator terminator text.toList
  scan_append _ separate := scan_prefix_of_separate separate

end RegionOutline
