import RegionOutline.Index
import RegionOutline.Proofs.Scan.Nesting

/-!
# Entries of a run

Where the entries of a list of lines come from: those of a first part stand in
front of those of the rest, later lines make later entries, and moving the
scanner down the document moves its entries along. An outline is therefore in
line order as it is, and the index takes it over unchanged.
-/

namespace RegionOutline

/-- The same entry a number of lines further down. -/
def Entry.shift (count : Nat) (entry : Entry) : Entry :=
  { entry with line := entry.line + count }

namespace ScanState

theorem line_of_emit? {state : ScanState} {number : Nat} {marker : Option Marker} {entry : Entry}
    (h : state.emit? number marker = some entry) : entry.line = number := by
  match marker with
  | none => cases h
  | some (.specifier level) => cases h; rfl
  | some (.openAccess level) => cases h; rfl
  | some (.openRegion tag description) => cases h; rfl
  | some .close => cases h

theorem emit?_add (state : ScanState) (number count : Nat) (marker : Option Marker) :
    state.emit? (number + count) marker = (state.emit? number marker).map (Entry.shift count) := by
  match marker with
  | none => rfl
  | some (.specifier level) => rfl
  | some (.openAccess level) => rfl
  | some (.openRegion tag description) => rfl
  | some .close => rfl

end ScanState

namespace Scanner

@[simp] theorem entries_nil (scanner : Scanner) : scanner.entries [] = [] := rfl

theorem entries_cons (scanner : Scanner) (line : List Char) (rest : List (List Char)) :
    scanner.entries (line :: rest) =
      (scanner.feed line).2.toList ++ (scanner.feed line).1.entries rest := by
  rw [entries]
  split
  · rename_i next hfeed
    simp [hfeed]
  · rename_i next entry hfeed
    simp [hfeed]

theorem entries_append (scanner : Scanner) (first second : List (List Char)) :
    scanner.entries (first ++ second) =
      scanner.entries first ++ (scanner.feedAll first).entries second := by
  induction first generalizing scanner with
  | nil => rfl
  | cons line rest ih =>
      rw [List.cons_append, entries_cons, ih, entries_cons, List.append_assoc]
      rfl

/-- A scanner further down makes the same entries further down. -/
theorem entries_shift (state : ScanState) (number count : Nat) (lines : List (List Char)) :
    (Scanner.mk state (number + count)).entries lines =
      ((Scanner.mk state number).entries lines).map (Entry.shift count) := by
  induction lines generalizing state number with
  | nil => rfl
  | cons line rest ih =>
      have hnumber : number + count + 1 = number + 1 + count := by omega
      rw [entries_cons, entries_cons, List.map_append]
      simp only [feed, hnumber, ih, ScanState.emit?_add]
      rw [Option.toList_map]

/-- Entries start after the lines that were read before. -/
theorem line_lt_of_mem_entries {scanner : Scanner} {lines : List (List Char)} {entry : Entry}
    (h : entry ∈ scanner.entries lines) : scanner.line < entry.line := by
  induction lines generalizing scanner with
  | nil => simp at h
  | cons line rest ih =>
      rw [entries_cons] at h
      rcases List.mem_append.1 h with h | h
      · have hline := ScanState.line_of_emit? (Option.mem_toList.1 h)
        omega
      · have hlt : scanner.line + 1 < entry.line := ih h
        omega

theorem pairwise_entries (scanner : Scanner) (lines : List (List Char)) :
    (scanner.entries lines).Pairwise Entry.Before := by
  induction lines generalizing scanner with
  | nil => exact List.Pairwise.nil
  | cons line rest ih =>
      rw [entries_cons]
      refine List.pairwise_append.2 ⟨?_, ih _, ?_⟩
      · cases (scanner.feed line).2 <;> simp
      · intro entry hentry other hother
        have hline := ScanState.line_of_emit? (Option.mem_toList.1 hentry)
        have hlt : scanner.line + 1 < other.line := line_lt_of_mem_entries hother
        change entry.line < other.line
        omega

end Scanner

theorem pairwise_scan (text : String) : (scan text).Pairwise Entry.Before :=
  Scanner.pairwise_entries _ _

namespace Index

theorem ascending_of_pairwise {entries : List Entry} (h : entries.Pairwise Entry.Before) :
    ascending entries = true := by
  fun_induction ascending entries with
  | case1 => rfl
  | case2 entry => rfl
  | case3 entry next rest ih =>
      have hlt : entry.line < next.line := List.rel_of_pairwise_cons h List.mem_cons_self
      rw [ih h.of_cons]
      simpa using hlt

/-- The index takes a list in line order over as it is. -/
theorem entries_ofEntries {entries : List Entry} (h : entries.Pairwise Entry.Before) :
    (ofEntries entries).entries = entries := by
  rw [ofEntries, dif_pos (ascending_of_pairwise h)]

end Index

end RegionOutline
