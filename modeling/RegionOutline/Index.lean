import RegionOutline.Entry

/-! # The outline index

Entries in strictly increasing line order, at most one to a line. The order is
part of the type, so rows come in document order and the nearest entry at or
before a line is the last one that does not lie beyond it. -/

namespace RegionOutline

/-- One entry starts before another. -/
def Entry.Before (a b : Entry) : Prop := a.line < b.line

instance : DecidableRel Entry.Before :=
  fun a b => inferInstanceAs (Decidable (a.line < b.line))

structure Index where
  entries : List Entry
  sorted : entries.Pairwise Entry.Before
  deriving DecidableEq

namespace Index

/-- Put an entry at its place, over the one at the same line. -/
def insertSorted (entry : Entry) : List Entry → List Entry
  | [] => [entry]
  | other :: rest =>
      if entry.line < other.line then entry :: other :: rest
      else if entry.line = other.line then entry :: rest
      else other :: insertSorted entry rest

/-- Keep the last of each run of entries with one line. -/
def lastOfRuns : List Entry → List Entry
  | [] => []
  | [entry] => [entry]
  | entry :: next :: rest =>
      if entry.line = next.line then lastOfRuns (next :: rest)
      else entry :: lastOfRuns (next :: rest)

/-- Whether each entry starts before its successor. -/
def ascending : List Entry → Bool
  | [] => true
  | [_] => true
  | entry :: next :: rest => entry.line < next.line && ascending (next :: rest)

theorem eq_or_mem_of_mem_insertSorted {entry other : Entry} {entries : List Entry}
    (h : other ∈ insertSorted entry entries) : other = entry ∨ other ∈ entries := by
  induction entries with
  | nil => simpa [insertSorted] using h
  | cons first rest ih =>
      unfold insertSorted at h
      split at h
      · simpa using h
      · split at h
        · rcases List.mem_cons.1 h with h | h
          · exact Or.inl h
          · exact Or.inr (List.mem_cons_of_mem _ h)
        · rcases List.mem_cons.1 h with h | h
          · exact Or.inr (h ▸ List.mem_cons_self)
          · exact (ih h).imp id (List.mem_cons_of_mem _)

theorem pairwise_insertSorted {entry : Entry} {entries : List Entry}
    (h : entries.Pairwise Entry.Before) : (insertSorted entry entries).Pairwise Entry.Before := by
  induction entries with
  | nil => simp [insertSorted]
  | cons first rest ih =>
      have hrest := (List.pairwise_cons.1 h).1
      unfold insertSorted
      split
      · rename_i hlt
        refine List.pairwise_cons.2 ⟨fun other hother => ?_, h⟩
        rcases List.mem_cons.1 hother with rfl | hother
        · exact hlt
        · exact Nat.lt_trans hlt (hrest other hother)
      · split
        · rename_i heq
          refine List.pairwise_cons.2 ⟨fun other hother => ?_, h.of_cons⟩
          exact Nat.lt_of_le_of_lt (Nat.le_of_eq heq) (hrest other hother)
        · refine List.pairwise_cons.2 ⟨fun other hother => ?_, ih h.of_cons⟩
          rcases eq_or_mem_of_mem_insertSorted hother with rfl | hother
          · simp only [Entry.Before]; omega
          · exact hrest other hother

theorem pairwise_of_ascending : ∀ {entries : List Entry}, ascending entries = true →
    entries.Pairwise Entry.Before
  | [], _ => List.Pairwise.nil
  | [_], _ => List.pairwise_singleton _ _
  | entry :: next :: rest, h => by
      simp only [ascending, Bool.and_eq_true, decide_eq_true_eq] at h
      have hnext := pairwise_of_ascending h.2
      refine List.pairwise_cons.2 ⟨fun other hother => ?_, hnext⟩
      rcases List.mem_cons.1 hother with rfl | hother
      · exact h.1
      · exact Nat.lt_trans h.1 (List.rel_of_pairwise_cons hnext hother)

theorem mem_of_mem_lastOfRuns {entry : Entry} : ∀ {entries : List Entry},
    entry ∈ lastOfRuns entries → entry ∈ entries
  | [], h => h
  | [_], h => h
  | first :: next :: rest, h => by
      unfold lastOfRuns at h
      split at h
      · exact List.mem_cons_of_mem _ (mem_of_mem_lastOfRuns h)
      · rcases List.mem_cons.1 h with h | h
        · exact h ▸ List.mem_cons_self
        · exact List.mem_cons_of_mem _ (mem_of_mem_lastOfRuns h)

theorem pairwise_lastOfRuns : ∀ {entries : List Entry},
    entries.Pairwise (fun a b => a.line ≤ b.line) → (lastOfRuns entries).Pairwise Entry.Before
  | [], _ => List.Pairwise.nil
  | [_], _ => List.pairwise_singleton _ _
  | entry :: next :: rest, h => by
      unfold lastOfRuns
      split
      · exact pairwise_lastOfRuns h.of_cons
      · rename_i hne
        refine List.pairwise_cons.2 ⟨fun other hother => ?_, pairwise_lastOfRuns h.of_cons⟩
        have hnext : entry.line ≤ next.line := List.rel_of_pairwise_cons h List.mem_cons_self
        have hother := mem_of_mem_lastOfRuns hother
        rcases List.mem_cons.1 hother with rfl | hother
        · simp only [Entry.Before]; omega
        · have : next.line ≤ other.line := List.rel_of_pairwise_cons h.of_cons hother
          simp only [Entry.Before]; omega

theorem pairwise_mergeSort_line (entries : List Entry) :
    (entries.mergeSort fun a b => decide (a.line ≤ b.line)).Pairwise
      (fun a b => a.line ≤ b.line) := by
  have h := @List.pairwise_mergeSort Entry (fun a b => decide (a.line ≤ b.line))
    (fun a b c => by simp only [decide_eq_true_eq]; omega)
    (fun a b => by simp only [Bool.or_eq_true, decide_eq_true_eq]; omega) entries
  exact h.imp (fun hab => by simpa using hab)

/-- The index without entries. -/
def empty : Index := ⟨[], List.Pairwise.nil⟩

instance : Inhabited Index := ⟨empty⟩

def size (index : Index) : Nat := index.entries.length

def isEmpty (index : Index) : Bool := index.entries.isEmpty

def insert (index : Index) (entry : Entry) : Index :=
  ⟨insertSorted entry index.entries, pairwise_insertSorted index.sorted⟩

/-- The index of a list of entries in any order; of two at one line the later
stays. A list that is already in order is taken as it is. -/
def ofEntries (entries : List Entry) : Index :=
  if h : ascending entries = true then ⟨entries, pairwise_of_ascending h⟩
  else
    ⟨lastOfRuns (entries.mergeSort fun a b => decide (a.line ≤ b.line)),
      pairwise_lastOfRuns (pairwise_mergeSort_line entries)⟩

/-- The entry that starts exactly at a line. -/
def atLine? (index : Index) (line : Nat) : Option Entry :=
  index.entries.find? (·.line == line)

/-- The position of the entry that starts exactly at a line. -/
def position? (index : Index) (line : Nat) : Option Nat :=
  index.entries.findIdx? (·.line == line)

/-- The entry at a position in line order. -/
def get? (index : Index) (position : Nat) : Option Entry :=
  index.entries[position]?

/-- Take out the entry at a line, if there is one, and tell which it was. -/
def remove (index : Index) (line : Nat) : Index × Option Entry :=
  match index.position? line with
  | none => (index, none)
  | some position =>
      (⟨index.entries.eraseIdx position, index.sorted.sublist (List.eraseIdx_sublist _ _)⟩,
        index.get? position)

/-- The position of the last entry at or before a line. -/
def nearest? (index : Index) (line : Nat) : Option Nat :=
  match (index.entries.takeWhile (·.line ≤ line)).length with
  | 0 => none
  | count + 1 => some count

/-- The last entry at or before a line. -/
def atOrBefore? (index : Index) (line : Nat) : Option Entry :=
  (index.nearest? line).bind index.get?

end Index

/-- The first row to show so that the given row has a number of rows above it.
Without a row the view starts at the top. -/
def windowStart (row : Option Nat) (above : Nat) : Nat :=
  match row with
  | none => 0
  | some row => row - above

end RegionOutline
