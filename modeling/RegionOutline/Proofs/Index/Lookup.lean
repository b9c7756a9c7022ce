import RegionOutline.Index

/-!
# Looking up entries

What an index answers, told by the entries that it holds, and what each change of an
index does to the answers. Looking up a line finds the one entry of that line. A list
in any order is stored so that the last entry of a line is the one that is found: the
sort leaves entries of one line in their order, and the last of each run is kept.
-/

namespace RegionOutline

namespace Index

variable {index other : Index} {entries : List Entry} {line position : Nat}

@[ext] theorem ext_entries (h : index.entries = other.entries) : index = other := by
  cases index
  cases other
  cases h
  rfl

section Order

variable {entry next : Entry}

/-- Positions are in the order of their lines. -/
theorem position_lt_iff (sorted : entries.Pairwise Entry.Before) {first second : Nat}
    (hfirst : entries[first]? = some entry) (hsecond : entries[second]? = some next) :
    first < second ↔ entry.line < next.line := by
  obtain ⟨hinside, rfl⟩ := List.getElem?_eq_some_iff.1 hfirst
  obtain ⟨hnext, rfl⟩ := List.getElem?_eq_some_iff.1 hsecond
  have ordered := List.pairwise_iff_getElem.1 sorted
  constructor
  · intro hlt
    exact ordered first second hinside hnext hlt
  · intro hline
    apply Nat.lt_of_not_le
    intro hle
    cases Nat.lt_or_eq_of_le hle with
    | inl hgt => exact Nat.lt_asymm hline (ordered second first hnext hinside hgt)
    | inr heq =>
        subst heq
        exact Nat.lt_irrefl _ hline

/-- There is one position to a line. -/
theorem position_eq_of_line_eq (sorted : entries.Pairwise Entry.Before) {first second : Nat}
    (hfirst : entries[first]? = some entry) (hsecond : entries[second]? = some next)
    (h : entry.line = next.line) : first = second := by
  have hforth := position_lt_iff sorted hfirst hsecond
  have hback := position_lt_iff sorted hsecond hfirst
  omega

/-- There is one entry to a line. -/
theorem eq_of_line_eq (sorted : entries.Pairwise Entry.Before) (hentry : entry ∈ entries)
    (hnext : next ∈ entries) (h : entry.line = next.line) : entry = next := by
  obtain ⟨first, hfirst⟩ := List.mem_iff_getElem?.1 hentry
  obtain ⟨second, hsecond⟩ := List.mem_iff_getElem?.1 hnext
  obtain rfl := position_eq_of_line_eq sorted hfirst hsecond h
  exact Option.some.inj (hfirst.symm.trans hsecond)

end Order

section Answers

variable {entry : Entry}

theorem line_of_atLine? (h : index.atLine? line = some entry) : entry.line = line := by
  have hfound := List.find?_some h
  exact beq_iff_eq.1 hfound

/-- Looking up a line finds the entry that starts there. -/
theorem atLine?_eq_some_iff :
    index.atLine? line = some entry ↔ entry ∈ index.entries ∧ entry.line = line := by
  constructor
  · intro h
    exact ⟨List.mem_of_find?_eq_some h, line_of_atLine? h⟩
  · rintro ⟨hmem, hline⟩
    cases hfound : index.atLine? line with
    | none =>
        have hmiss := List.find?_eq_none.1 hfound entry hmem
        exact absurd (beq_iff_eq.2 hline) hmiss
    | some found =>
        have hsame : found.line = entry.line := (line_of_atLine? hfound).trans hline.symm
        rw [eq_of_line_eq index.sorted (List.mem_of_find?_eq_some hfound) hmem hsame]

/-- The position of a line is the one where its entry stands. -/
theorem position?_eq_some_iff :
    index.position? line = some position ↔
      ∃ entry, index.entries[position]? = some entry ∧ entry.line = line := by
  constructor
  · intro h
    obtain ⟨hinside, hline, _⟩ := List.findIdx?_eq_some_iff_getElem.1 h
    exact ⟨_, List.getElem?_eq_getElem hinside, beq_iff_eq.1 hline⟩
  · rintro ⟨entry, hentry, hline⟩
    obtain ⟨hinside, rfl⟩ := List.getElem?_eq_some_iff.1 hentry
    apply List.findIdx?_eq_some_iff_getElem.2
    refine ⟨hinside, beq_iff_eq.2 hline, ?_⟩
    intro earlier hearlier hsame
    have hother : index.entries[earlier]? = some _ :=
      List.getElem?_eq_getElem (Nat.lt_trans hearlier hinside)
    have heq := position_eq_of_line_eq index.sorted hother hentry
      ((beq_iff_eq.1 hsame).trans hline.symm)
    omega

/-- The position of the last entry at or before a line; none where every entry lies
beyond it. -/
def LastUpTo (entries : List Entry) (line : Nat) : Option Nat → Prop
  | none => ∀ entry ∈ entries, line < entry.line
  | some position =>
      (∃ entry, entries[position]? = some entry ∧ entry.line ≤ line) ∧
        ∀ later next, position < later → entries[later]? = some next → line < next.line

/-- The entries at or before a line are the first ones. -/
theorem lt_length_takeWhile_iff (line : Nat) (sorted : entries.Pairwise Entry.Before)
    (h : entries[position]? = some entry) :
    position < (entries.takeWhile (·.line ≤ line)).length ↔ entry.line ≤ line := by
  induction entries generalizing position with
  | nil => simp at h
  | cons first rest ih =>
      by_cases hfirst : first.line ≤ line
      · rw [List.takeWhile_cons_of_pos (by simpa using hfirst)]
        cases position with
        | zero =>
            cases h
            simpa using hfirst
        | succ position =>
            have hrest := ih sorted.of_cons h
            rw [List.length_cons, ← hrest]
            omega
      · rw [List.takeWhile_cons_of_neg (by simpa using hfirst)]
        have hle : first.line ≤ entry.line := by
          cases List.mem_cons.1 (List.mem_of_getElem? h) with
          | inl heq => exact Nat.le_of_eq (congrArg Entry.line heq.symm)
          | inr hmem => exact Nat.le_of_lt (List.rel_of_pairwise_cons sorted hmem)
        simp only [List.length_nil]
        omega

theorem lastUpTo_nearest? (index : Index) (line : Nat) :
    LastUpTo index.entries line (index.nearest? line) := by
  have hle := (List.takeWhile_prefix (l := index.entries) (·.line ≤ line)).length_le
  unfold nearest?
  cases hcount : (index.entries.takeWhile (·.line ≤ line)).length with
  | zero =>
      intro entry hentry
      obtain ⟨position, hposition⟩ := List.mem_iff_getElem?.1 hentry
      have hiff := lt_length_takeWhile_iff line index.sorted hposition
      omega
  | succ count =>
      have hinside : count < index.entries.length := by omega
      constructor
      · have hlast := List.getElem?_eq_getElem hinside
        refine ⟨_, hlast, (lt_length_takeWhile_iff line index.sorted hlast).1 ?_⟩
        omega
      · intro later next hlater hnext
        have hiff := lt_length_takeWhile_iff line index.sorted hnext
        omega

theorem LastUpTo.unique {row another : Option Nat} (h : LastUpTo entries line row)
    (hanother : LastUpTo entries line another) : row = another := by
  match row, another with
  | none, none => rfl
  | none, some position =>
      obtain ⟨⟨entry, hentry, hle⟩, _⟩ := hanother
      exact absurd (h entry (List.mem_of_getElem? hentry)) (Nat.not_lt.2 hle)
  | some position, none =>
      obtain ⟨⟨entry, hentry, hle⟩, _⟩ := h
      exact absurd (hanother entry (List.mem_of_getElem? hentry)) (Nat.not_lt.2 hle)
  | some first, some second =>
      obtain ⟨⟨entry, hentry, hle⟩, hlater⟩ := h
      obtain ⟨⟨next, hnext, hnextLe⟩, hnextLater⟩ := hanother
      congr 1
      apply Nat.le_antisymm
      · apply Nat.le_of_not_lt
        intro hlt
        exact absurd (hnextLater first entry hlt hentry) (Nat.not_lt.2 hle)
      · apply Nat.le_of_not_lt
        intro hlt
        exact absurd (hlater second next hlt hnext) (Nat.not_lt.2 hnextLe)

/-- The nearest row to a line is the last one at or before it. -/
theorem nearest?_eq_iff (index : Index) (line : Nat) (row : Option Nat) :
    index.nearest? line = row ↔ LastUpTo index.entries line row := by
  constructor
  · rintro rfl
    exact index.lastUpTo_nearest? line
  · intro h
    exact (index.lastUpTo_nearest? line).unique h

/-- Exact lookup finds a row at its own line. -/
theorem position?_of_standing (standing : index.entries[position]? = some entry) :
    index.position? entry.line = some position :=
  position?_eq_some_iff.2 ⟨entry, standing, rfl⟩

/-- So does the lookup of the nearest row. -/
theorem nearest?_of_standing (standing : index.entries[position]? = some entry) :
    index.nearest? entry.line = some position := by
  apply (nearest?_eq_iff index entry.line (some position)).2
  refine ⟨⟨entry, standing, Nat.le_refl _⟩, ?_⟩
  intro later next hlater hnext
  exact (position_lt_iff index.sorted standing hnext).1 hlater

end Answers

section Changes

variable {entry : Entry}

theorem find?_insertSorted (entry : Entry) (entries : List Entry) (line : Nat) :
    (insertSorted entry entries).find? (·.line == line) =
      if entry.line = line then some entry else entries.find? (·.line == line) := by
  induction entries with
  | nil =>
      by_cases hline : entry.line = line
      · simp [insertSorted, hline]
      · simp [insertSorted, hline]
  | cons first rest ih =>
      unfold insertSorted
      split
      · by_cases hline : entry.line = line
        · simp [hline]
        · simp [hline]
      · split
        · rename_i heq
          by_cases hline : entry.line = line
          · simp [hline]
          · simp [hline, ← heq]
        · rename_i hne
          by_cases hfirst : first.line = line
          · have hline : entry.line ≠ line := by omega
            simp [hfirst, hline]
          · simp [hfirst, ih]

/-- An entry takes the place of the one at its line. -/
theorem atLine?_insert (index : Index) (entry : Entry) (line : Nat) :
    (index.insert entry).atLine? line =
      if entry.line = line then some entry else index.atLine? line :=
  find?_insertSorted entry index.entries line

/-- The index without the entry at a line. -/
def erase (index : Index) (line : Nat) : Index :=
  ⟨index.entries.filter (·.line != line), index.sorted.filter _⟩

/-- Taking out the entry at a position of this line leaves the entries of other
lines. -/
theorem eraseIdx_eq_filter (sorted : entries.Pairwise Entry.Before)
    (h : entries[position]? = some entry) :
    entries.eraseIdx position = entries.filter (·.line != entry.line) := by
  induction entries generalizing position with
  | nil => simp at h
  | cons first rest ih =>
      have beyond : ∀ other ∈ rest, first.line < other.line :=
        fun other hother => List.rel_of_pairwise_cons sorted hother
      cases position with
      | zero =>
          cases h
          have hrest : rest.filter (·.line != entry.line) = rest := by
            apply List.filter_eq_self.2
            intro other hother
            have hlt := beyond other hother
            simp only [bne_iff_ne]
            omega
          simp [hrest]
      | succ position =>
          have hlt := beyond entry (List.mem_of_getElem? h)
          have hkept : (first.line != entry.line) = true := by
            simp only [bne_iff_ne]
            omega
          rw [List.eraseIdx_cons_succ, ih sorted.of_cons h, List.filter_cons, if_pos hkept]

/-- What is taken out is what looking up the line finds. -/
theorem remove_eq (index : Index) (line : Nat) :
    index.remove line = (index.erase line, index.atLine? line) := by
  cases hposition : index.position? line with
  | none =>
      have hmiss : ∀ entry ∈ index.entries, (entry.line == line) = false := by
        intro entry hentry
        exact List.findIdx?_eq_none_iff.1 hposition entry hentry
      have hfind : index.atLine? line = none := by
        apply List.find?_eq_none.2
        intro entry hentry
        simp [hmiss entry hentry]
      have hkept : index.erase line = index := by
        apply ext_entries
        apply List.filter_eq_self.2
        intro entry hentry
        simp only [bne, hmiss entry hentry, Bool.not_false]
      simp only [remove, hposition, hfind, hkept]
  | some position =>
      obtain ⟨entry, hentry, rfl⟩ := position?_eq_some_iff.1 hposition
      have hfind : index.atLine? entry.line = some entry :=
        atLine?_eq_some_iff.2 ⟨List.mem_of_getElem? hentry, rfl⟩
      simp only [remove, hposition, hfind, get?, hentry]
      congr 1
      apply ext_entries
      exact eraseIdx_eq_filter index.sorted hentry

/-- Taking out an entry touches no other line. -/
theorem atLine?_erase (index : Index) (gone line : Nat) :
    (index.erase gone).atLine? line = if gone = line then none else index.atLine? line := by
  unfold atLine? erase
  rw [List.find?_filter]
  by_cases hgone : gone = line
  · subst hgone
    simp
  · rw [if_neg hgone]
    congr 1
    funext entry
    by_cases hline : entry.line = line
    · simp [hline, Ne.symm hgone]
    · simp [hline]

end Changes

section Replacement

/-- The last entry of a line in a list in any order. -/
def lastAt (entries : List Entry) (line : Nat) : Option Entry :=
  (entries.filter (·.line == line)).getLast?

/-- Sorting leaves the entries of one line in their order. -/
theorem filter_mergeSort (entries : List Entry) (line : Nat) :
    (entries.mergeSort fun a b => decide (a.line ≤ b.line)).filter (·.line == line) =
      entries.filter (·.line == line) := by
  have hperm := (entries.mergeSort_perm fun a b => decide (a.line ≤ b.line)).filter
    (·.line == line)
  have hrun : (entries.filter (·.line == line)).Pairwise
      fun a b => decide (a.line ≤ b.line) = true := by
    apply List.pairwise_of_forall_mem_list
    intro first hfirst second hsecond
    have hline := beq_iff_eq.1 (List.mem_filter.1 hfirst).2
    have hsame := beq_iff_eq.1 (List.mem_filter.1 hsecond).2
    simp only [decide_eq_true_eq]
    omega
  have hsublist := List.sublist_mergeSort
    (fun a b c => by simp only [decide_eq_true_eq]; omega)
    (fun a b => by simp only [Bool.or_eq_true, decide_eq_true_eq]; omega)
    hrun List.filter_sublist
  have hkept := hsublist.filter (·.line == line)
  rw [List.filter_filter] at hkept
  symm
  apply List.Sublist.eq_of_length ?_ hperm.length_eq.symm
  simpa using hkept

/-- Of each run of one line, the last entry is found. -/
theorem find?_lastOfRuns (ordered : entries.Pairwise fun a b => a.line ≤ b.line) (line : Nat) :
    (lastOfRuns entries).find? (·.line == line) = lastAt entries line := by
  fun_induction lastOfRuns entries with
  | case1 => rfl
  | case2 entry =>
      by_cases hline : entry.line = line
      · simp [lastAt, hline]
      · simp [lastAt, hline]
  | case3 entry next rest heq ih =>
      rw [ih ordered.of_cons]
      by_cases hline : entry.line = line
      · have hnext : next.line = line := heq.symm.trans hline
        simp [lastAt, hline, hnext]
      · simp [lastAt, hline]
  | case4 entry next rest hne ih =>
      by_cases hline : entry.line = line
      · have hnone : (next :: rest).filter (·.line == line) = [] := by
          apply List.filter_eq_nil_iff.2
          intro other hother
          have hle : entry.line ≤ next.line := List.rel_of_pairwise_cons ordered List.mem_cons_self
          have hbeyond : next.line ≤ other.line := by
            cases List.mem_cons.1 hother with
            | inl heq => exact Nat.le_of_eq (congrArg Entry.line heq.symm)
            | inr hmem => exact List.rel_of_pairwise_cons ordered.of_cons hmem
          simp only [beq_iff_eq]
          omega
        simp [lastAt, hline, hnone]
      · have hskip : lastAt (entry :: next :: rest) line = lastAt (next :: rest) line := by
          simp [lastAt, hline]
        rw [hskip, ← ih ordered.of_cons]
        simp [hline]

/-- A list in line order has runs of one entry only. -/
theorem lastOfRuns_eq_self (sorted : entries.Pairwise Entry.Before) :
    lastOfRuns entries = entries := by
  fun_induction lastOfRuns entries with
  | case1 => rfl
  | case2 entry => rfl
  | case3 entry next rest heq ih =>
      have hlt : entry.line < next.line := List.rel_of_pairwise_cons sorted List.mem_cons_self
      omega
  | case4 entry next rest hne ih => rw [ih sorted.of_cons]

/-- Of the entries of one line, the last of the list is found. -/
theorem atLine?_ofEntries (entries : List Entry) (line : Nat) :
    (ofEntries entries).atLine? line = lastAt entries line := by
  unfold ofEntries
  split
  · rename_i hascending
    have sorted := pairwise_of_ascending hascending
    have hfind := find?_lastOfRuns (sorted.imp Nat.le_of_lt) line
    rwa [lastOfRuns_eq_self sorted] at hfind
  · have hfind := find?_lastOfRuns (pairwise_mergeSort_line entries) line
    rwa [lastAt, filter_mergeSort] at hfind

end Replacement

end Index

end RegionOutline
