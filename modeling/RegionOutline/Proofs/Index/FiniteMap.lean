import Mathlib.Data.Finmap
import Mathlib.Data.Finset.Sort
import RegionOutline.Proofs.Index.Lookup

/-!
# The index as a finite map

An index stands for a finite map from lines to entries. Whatever is done to it, in any
order and with any entries, it stands for the map that the same operations make of the
empty one, and it gives back the same entries on the way. Its rows are the entries of
the map in the order of their lines.
-/

namespace RegionOutline

/-- A finite map from lines to entries. -/
abbrev LineMap := Finmap fun _ : Nat => Entry

namespace Index

/-- What can be done to an index. -/
inductive Operation where
  | insert (entry : Entry)
  | remove (line : Nat)
  | clear
  | replaceAll (entries : List Entry)

/-- Do one operation after the other, and collect what each of them gives back. -/
def Operation.run {σ : Type} (step : σ → Operation → σ × Option Entry) :
    σ → List Operation → σ × List (Option Entry)
  | state, [] => (state, [])
  | state, operation :: rest =>
      let stepped := step state operation
      let later := run step stepped.1 rest
      (later.1, stepped.2 :: later.2)

/-- The index after an operation, and the entry that is given back. -/
def perform (index : Index) : Operation → Index × Option Entry
  | .insert entry => (index.insert entry, none)
  | .remove line => index.remove line
  | .clear => (.empty, none)
  | .replaceAll entries => (.ofEntries entries, none)

end Index

namespace LineMap

/-- Put an entry at its line, over the one that is there. -/
def store (map : LineMap) (entry : Entry) : LineMap :=
  map.insert entry.line entry

/-- The map after an operation, and the entry that is given back. -/
def perform (map : LineMap) : Index.Operation → LineMap × Option Entry
  | .insert entry => (map.store entry, none)
  | .remove line => (map.erase line, map.lookup line)
  | .clear => (∅, none)
  | .replaceAll entries => (entries.foldl store ∅, none)

theorem lookup_store (map : LineMap) (entry : Entry) (line : Nat) :
    (map.store entry).lookup line = if entry.line = line then some entry else map.lookup line := by
  by_cases hline : entry.line = line
  · subst hline
    rw [if_pos rfl]
    exact Finmap.lookup_insert map
  · rw [if_neg hline]
    exact Finmap.lookup_insert_of_ne map (Ne.symm hline)

/-- Of the entries of one line, the last one stored stays. -/
theorem lookup_foldl_store (map : LineMap) (entries : List Entry) (line : Nat) :
    (entries.foldl store map).lookup line =
      (Index.lastAt entries line).or (map.lookup line) := by
  induction entries generalizing map with
  | nil => rfl
  | cons entry rest ih =>
      rw [List.foldl_cons, ih, lookup_store]
      by_cases hline : entry.line = line
      · simp [Index.lastAt, hline, List.getLast?_cons]
      · simp [Index.lastAt, hline]

end LineMap

namespace Index

variable {index : Index} {map : LineMap}

/-- The index finds at each line what the map has there. -/
def Agrees (index : Index) (map : LineMap) : Prop :=
  ∀ line, index.atLine? line = map.lookup line

theorem agrees_empty : Agrees .empty ∅ := by
  intro line
  rfl

/-- An operation gives the same entry back and leaves the two in agreement. -/
theorem Agrees.perform (agrees : index.Agrees map) (operation : Operation) :
    (index.perform operation).2 = (map.perform operation).2 ∧
      (index.perform operation).1.Agrees (map.perform operation).1 := by
  cases operation with
  | insert entry =>
      refine ⟨rfl, ?_⟩
      intro line
      change (index.insert entry).atLine? line = (map.store entry).lookup line
      rw [atLine?_insert, LineMap.lookup_store, agrees line]
  | remove gone =>
      change (index.remove gone).2 = map.lookup gone ∧ (index.remove gone).1.Agrees (map.erase gone)
      rw [remove_eq]
      refine ⟨agrees gone, ?_⟩
      intro line
      rw [atLine?_erase]
      by_cases hgone : gone = line
      · subst hgone
        rw [if_pos rfl, Finmap.lookup_erase]
      · rw [if_neg hgone, Finmap.lookup_erase_ne (Ne.symm hgone), agrees line]
  | clear => exact ⟨rfl, agrees_empty⟩
  | replaceAll entries =>
      refine ⟨rfl, ?_⟩
      intro line
      change (ofEntries entries).atLine? line = (entries.foldl LineMap.store ∅).lookup line
      rw [atLine?_ofEntries, LineMap.lookup_foldl_store, Finmap.lookup_empty, Option.or_none]

theorem Agrees.run (agrees : index.Agrees map) (operations : List Operation) :
    (Operation.run Index.perform index operations).2 =
        (Operation.run LineMap.perform map operations).2 ∧
      (Operation.run Index.perform index operations).1.Agrees
        (Operation.run LineMap.perform map operations).1 := by
  induction operations generalizing index map with
  | nil => exact ⟨rfl, agrees⟩
  | cons operation rest ih =>
      obtain ⟨hgiven, stepped⟩ := agrees.perform operation
      obtain ⟨hlater, ended⟩ := ih stepped
      exact ⟨congrArg₂ List.cons hgiven hlater, ended⟩

/-- The index stands for the map. -/
structure Denotes (index : Index) (map : LineMap) : Prop where
  /-- Line numbers strictly increase from row to row. -/
  increasing : (index.entries.map Entry.line).Pairwise (· < ·)
  /-- Looking up a line finds what the map has there. -/
  atLine_eq : ∀ line, index.atLine? line = map.lookup line
  /-- A line has the position that it has among the lines of the map. -/
  position_iff : ∀ line position, index.position? line = some position ↔
    (map.keys.sort (· ≤ ·))[position]? = some line
  /-- A row is the entry of the line at its position. -/
  get_eq : ∀ position, index.get? position =
    (map.keys.sort (· ≤ ·))[position]?.bind fun line => map.lookup line

theorem lines_increasing (index : Index) : (index.entries.map Entry.line).Pairwise (· < ·) :=
  List.pairwise_map.2 index.sorted

/-- The lines of the rows are those of the map, in order. -/
theorem Agrees.lines_eq (agrees : index.Agrees map) :
    map.keys.sort (· ≤ ·) = index.entries.map Entry.line := by
  have increasing := index.lines_increasing
  have hkeys : map.keys = (index.entries.map Entry.line).toFinset := by
    ext line
    rw [Finmap.mem_keys, Finmap.mem_iff, List.mem_toFinset, List.mem_map]
    constructor
    · rintro ⟨entry, hentry⟩
      exact ⟨entry, atLine?_eq_some_iff.1 ((agrees line).trans hentry)⟩
    · rintro ⟨entry, hentry⟩
      exact ⟨entry, (agrees line).symm.trans (atLine?_eq_some_iff.2 hentry)⟩
  rw [hkeys]
  apply (List.toFinset_sort _ (increasing.imp Nat.ne_of_lt)).2
  exact increasing.imp Nat.le_of_lt

theorem Agrees.denotes (agrees : index.Agrees map) : index.Denotes map where
  increasing := index.lines_increasing
  atLine_eq := agrees
  position_iff := by
    intro line position
    rw [agrees.lines_eq, List.getElem?_map, Option.map_eq_some_iff]
    exact position?_eq_some_iff
  get_eq := by
    intro position
    rw [agrees.lines_eq, List.getElem?_map, get?]
    cases hentry : index.entries[position]? with
    | none => rfl
    | some entry =>
        have hfind : index.atLine? entry.line = some entry :=
          atLine?_eq_some_iff.2 ⟨List.mem_of_getElem? hentry, rfl⟩
        exact hfind.symm.trans (agrees entry.line)

/-- Whatever is done to an empty index, it stands for the finite map that the same
operations make of the empty one, and gives back the same entries. -/
theorem refines_finite_map (operations : List Operation) :
    (Operation.run Index.perform .empty operations).2 =
        (Operation.run LineMap.perform ∅ operations).2 ∧
      (Operation.run Index.perform .empty operations).1.Denotes
        (Operation.run LineMap.perform ∅ operations).1 := by
  obtain ⟨hgiven, agrees⟩ := agrees_empty.run operations
  exact ⟨hgiven, agrees.denotes⟩

end Index

end RegionOutline
