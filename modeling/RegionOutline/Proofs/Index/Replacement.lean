import Mathlib.Data.List.Destutter
import RegionOutline.Proofs.Index.FiniteMap

/-!
# Replacing all rows

An index that takes over a whole list is the index that takes its entries one after the
other. A list in line order is taken as it is. Any other list is sorted, and the last
entry of each run of one line is kept, which is the first of the run when the sorted list
is read backwards. All that matters of the sort is that it is stable.
-/

namespace RegionOutline

/-- Two entries are on different lines. -/
def Entry.Apart (a b : Entry) : Prop := a.line ≠ b.line

instance : DecidableRel Entry.Apart :=
  fun a b => inferInstanceAs (Decidable (¬ a.line = b.line))

namespace Index

/-- A sort by line that leaves the entries of one line in their order. -/
structure StableSort where
  sort : List Entry → List Entry
  ordered : ∀ entries, (sort entries).Pairwise fun entry later => entry.line ≤ later.line
  stable : ∀ entries line,
    (sort entries).filter (·.line == line) = entries.filter (·.line == line)

namespace StableSort

/-- Sorting by merging is stable. -/
def merging : StableSort where
  sort entries := entries.mergeSort fun a b => decide (a.line ≤ b.line)
  ordered := pairwise_mergeSort_line
  stable := filter_mergeSort

instance : Inhabited StableSort := ⟨merging⟩

/-- Sort, turn around, keep the first of each run of one line, and turn around again. -/
def rows (sorting : StableSort) (entries : List Entry) : List Entry :=
  ((sorting.sort entries).reverse.destutter Entry.Apart).reverse

end StableSort

section Runs

variable (before : List Entry) (kept next entry : Entry)

/-- Whether the last entry is kept depends on the one before it, whichever entry of that
line was kept. -/
theorem destutter'_concat :
    (before ++ [next, entry]).destutter' Entry.Apart kept =
      (before ++ [next]).destutter' Entry.Apart kept ++
        if Entry.Apart next entry then [entry] else [] := by
  induction before generalizing kept with
  | nil =>
      by_cases hkept : Entry.Apart kept next
      · by_cases hentry : Entry.Apart next entry
        · simp [hkept, hentry]
        · simp [hkept, hentry]
      -- The entry before the last was dropped, and the kept one stands for its line.
      · have hsame : Entry.Apart kept entry ↔ Entry.Apart next entry := by
          unfold Entry.Apart
          rw [not_not.1 hkept]
        by_cases hentry : Entry.Apart next entry
        · simp [hkept, hsame, hentry]
        · simp [hkept, hsame, hentry]
  | cons first rest ih =>
      by_cases hfirst : Entry.Apart kept first
      · simp only [List.cons_append, List.destutter'_cons_pos _ hfirst, ih]
      · simp only [List.cons_append, List.destutter'_cons_neg _ hfirst, ih]

theorem destutter_concat :
    (before ++ [next, entry]).destutter Entry.Apart =
      (before ++ [next]).destutter Entry.Apart ++
        if Entry.Apart next entry then [entry] else [] := by
  cases before with
  | nil =>
      by_cases hentry : Entry.Apart next entry
      · simp [hentry]
      · simp [hentry]
  | cons first rest => exact destutter'_concat rest first next entry

/-- The last of each run is the first one backwards. -/
theorem lastOfRuns_eq (entries : List Entry) :
    lastOfRuns entries = (entries.reverse.destutter Entry.Apart).reverse := by
  fun_induction lastOfRuns entries with
  | case1 => rfl
  | case2 entry => rfl
  | case3 entry next rest heq ih =>
      have hsame : ¬ Entry.Apart next entry := not_not.2 heq.symm
      rw [ih]
      simp [destutter_concat, hsame]
  | case4 entry next rest hne ih =>
      have hapart : Entry.Apart next entry := Ne.symm hne
      rw [ih]
      simp [destutter_concat, hapart]

end Runs

section Agreement

variable {index other : Index} {map : LineMap}

/-- There is one index to a map. -/
theorem Agrees.eq_of_agrees (agrees : index.Agrees map) (also : other.Agrees map) :
    index = other := by
  apply ext_entries
  apply List.ext_getElem?
  intro position
  exact (agrees.denotes.get_eq position).trans (also.denotes.get_eq position).symm

theorem Agrees.foldl_insert (agrees : index.Agrees map) (entries : List Entry) :
    (entries.foldl insert index).Agrees (entries.foldl LineMap.store map) := by
  induction entries generalizing index map with
  | nil => exact agrees
  | cons entry rest ih => exact ih (agrees.perform (.insert entry)).2

theorem agrees_ofEntries (entries : List Entry) :
    (ofEntries entries).Agrees (entries.foldl LineMap.store ∅) :=
  (agrees_empty.perform (.replaceAll entries)).2

end Agreement

/-- A sorted list in which each line has its last entry is the one that is stored. -/
theorem StableSort.rows_eq (sorting : StableSort) (entries : List Entry) :
    sorting.rows entries = (ofEntries entries).entries := by
  -- Both lists are rows of an index, and an index is told by what it finds.
  have sorted := pairwise_lastOfRuns (sorting.ordered entries)
  have agrees : (Index.mk _ sorted).Agrees (entries.foldl LineMap.store ∅) := by
    intro line
    calc (lastOfRuns (sorting.sort entries)).find? (·.line == line)
        = lastAt (sorting.sort entries) line := find?_lastOfRuns (sorting.ordered entries) line
      _ = lastAt entries line := by rw [lastAt, sorting.stable, lastAt]
      _ = (ofEntries entries).atLine? line := (atLine?_ofEntries entries line).symm
      _ = (entries.foldl LineMap.store ∅).lookup line := agrees_ofEntries entries line
  rw [rows, ← lastOfRuns_eq]
  exact congrArg Index.entries (agrees.eq_of_agrees (agrees_ofEntries entries))

/-- All that an index holds comes from the list, and it is what any way of storing the
list gives. -/
structure Holds (index : Index) (entries : List Entry) : Prop where
  /-- The entries inserted one after the other into nothing. -/
  inserted : index = entries.foldl insert .empty
  /-- Of each line, the last entry of the list. -/
  last_wins : ∀ line, index.atLine? line = lastAt entries line
  /-- A list in line order as it is. -/
  in_order : ascending entries = true → index.entries = entries
  /-- A list in any order, also one in line order, by way of a stable sort. -/
  sorted : ∀ sorting : StableSort, index.entries = sorting.rows entries

/-- Whatever an index held before, replacing all of its rows is inserting the new ones
one after the other. -/
theorem replaced_as_inserted (index : Index) (entries : List Entry) :
    (index.perform (.replaceAll entries)).1.Holds entries where
  inserted := (agrees_ofEntries entries).eq_of_agrees (agrees_empty.foldl_insert entries)
  last_wins := atLine?_ofEntries entries
  in_order hascending := by
    change (ofEntries entries).entries = entries
    rw [ofEntries, dif_pos hascending]
  sorted sorting := (sorting.rows_eq entries).symm

end Index

end RegionOutline
