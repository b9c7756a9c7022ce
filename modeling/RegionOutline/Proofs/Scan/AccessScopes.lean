import RegionOutline.Proofs.Scan.Depth

/-!
# Access levels and their blocks

A level is in force exactly while an access block is open. The invariant behind
it says this of every block on the stack at once: the level outside a block is
absent exactly if no further block encloses it. Leaving any number of blocks
therefore needs no case of its own, and the root of the implicit block never
outlives its scope.
-/

namespace RegionOutline

namespace ScanState

/-- A level is in force over a stack exactly if the stack is not empty, and the
same holds outside each of its blocks. -/
def LevelsFit : Option Access → List AccessScope → Prop
  | access, [] => access = none
  | access, scope :: outer => access.isSome = true ∧ LevelsFit scope.restore outer

theorem LevelsFit.access_eq_none_iff {access : Option Access} {scopes : List AccessScope}
    (fit : LevelsFit access scopes) : access = none ↔ scopes = [] := by
  cases scopes with
  | nil => exact ⟨fun _ => rfl, fun _ => fit⟩
  | cons scope outer =>
      constructor
      · rintro rfl
        cases fit.1
      · intro hnil
        cases hnil

/-- The outermost block restores no level. -/
theorem LevelsFit.restore_getLast? {access : Option Access} {scopes : List AccessScope}
    (fit : LevelsFit access scopes) : ∀ scope ∈ scopes.getLast?, scope.restore = none := by
  induction scopes generalizing access with
  | nil => simp
  | cons first outer ih =>
      intro scope hlast
      cases outer with
      | nil =>
          obtain rfl : first = scope := by simpa using hlast
          exact fit.2
      | cons second rest =>
          rw [List.getLast?_cons_cons] at hlast
          exact ih fit.2 scope hlast

/-- Every other block restores one. -/
theorem LevelsFit.restore_dropLast {access : Option Access} {scopes : List AccessScope}
    (fit : LevelsFit access scopes) : ∀ scope ∈ scopes.dropLast, scope.restore ≠ none := by
  induction scopes generalizing access with
  | nil => simp
  | cons first outer ih =>
      intro scope hscope
      cases outer with
      | nil => simp at hscope
      | cons second rest =>
          rw [List.dropLast_cons_cons] at hscope
          rcases List.mem_cons.1 hscope with rfl | hscope
          · intro hnone
            have hempty := fit.2.access_eq_none_iff.1 hnone
            cases hempty
          · exact ih fit.2 scope hscope

/-- However many blocks are left, the level restored last fits what remains. -/
theorem LevelsFit.leaveScopes {access : Option Access} {scopes : List AccessScope}
    (fit : LevelsFit access scopes) (depth : Int) :
    LevelsFit (leaveScopes depth scopes access).2 (leaveScopes depth scopes access).1 := by
  fun_induction ScanState.leaveScopes depth scopes access with
  | case1 access => exact fit
  | case2 scope scopes access h => exact fit
  | case3 scope scopes access h ih => exact ih fit.2

/-- A block below the given depth is not left. -/
theorem mem_leaveScopes_of_lt {depth : Int} {scopes : List AccessScope} {scope : AccessScope}
    (access : Option Access) (hscope : scope ∈ scopes) (hlt : scope.depth < depth) :
    scope ∈ (leaveScopes depth scopes access).1 := by
  fun_induction leaveScopes depth scopes access with
  | case1 access => exact hscope
  | case2 first scopes access h => exact hscope
  | case3 first scopes access h ih =>
      rcases List.mem_cons.1 hscope with rfl | hscope
      · exact absurd hlt h
      · exact ih hscope

/-- In a descending stack no two blocks have one depth. -/
theorem countP_depth_eq_one {scopes : List AccessScope} {scope : AccessScope}
    (descending : scopes.Pairwise fun inner outer => outer.depth < inner.depth)
    (hscope : scope ∈ scopes) :
    scopes.countP (fun other => other.depth = scope.depth) = 1 := by
  induction scopes with
  | nil => simp at hscope
  | cons first outer ih =>
      have hbelow := (List.pairwise_cons.1 descending).1
      rw [List.countP_cons]
      rcases List.mem_cons.1 hscope with rfl | hscope
      · have houter : outer.countP (fun other => other.depth = scope.depth) = 0 := by
          rw [List.countP_eq_zero]
          intro other hother heq
          have hlt := hbelow other hother
          have hsame : other.depth = scope.depth := by simpa using heq
          omega
        simp [houter]
      · have hlt := hbelow scope hscope
        have hne : ¬ first.depth = scope.depth := by omega
        rw [ih descending.of_cons hscope]
        simp [hne]

/-- The stack is nested, its levels fit, and the implicit block has a scope of
its own on it. -/
structure WellScoped (state : ScanState) : Prop where
  nested : state.Nested
  levels : LevelsFit state.access state.scopes
  rooted : ∀ root ∈ state.implicitRoot, ∃ scope ∈ state.scopes, scope.depth = root

theorem wellScoped_initial : ({} : ScanState).WellScoped :=
  ⟨nested_initial, rfl, by simp⟩

/-- Going back to a depth above the implicit root keeps the block of that root. -/
theorem WellScoped.returnTo {state : ScanState} (well : state.WellScoped) {depth : Int}
    (hroot : ∀ root ∈ state.implicitRoot, root < depth) : (state.returnTo depth).WellScoped where
  nested := well.nested.returnTo hroot
  levels := well.levels.leaveScopes depth
  rooted := by
    intro root hmem
    obtain ⟨scope, hscope, rfl⟩ := well.rooted root hmem
    exact ⟨scope, mem_leaveScopes_of_lt _ hscope (hroot _ hmem), rfl⟩

theorem WellScoped.closeRegion {state : ScanState} (well : state.WellScoped) :
    state.closeRegion.WellScoped := by
  unfold ScanState.closeRegion
  split
  · -- The closer ends the implicit block as well, so no root has to be kept.
    have rootless : { state with implicitRoot := none }.WellScoped :=
      ⟨⟨well.nested.descending, well.nested.scope_lt, by simp⟩, well.levels, by simp⟩
    exact rootless.returnTo (by simp)
  · rename_i hopen
    apply well.returnTo
    intro root hmem
    have hlt := well.nested.root_lt root hmem
    have hne : root ≠ state.depth - 1 := by
      rintro rfl
      exact hopen hmem
    omega

/-- One line keeps levels and blocks together, whatever it is. -/
theorem WellScoped.step {state : ScanState} (well : state.WellScoped) (marker : Option Marker) :
    (state.step marker).WellScoped := by
  have hnested := well.nested.step marker
  match marker with
  | none => exact well
  | some (.specifier level) =>
      refine ⟨hnested, ?_, ?_⟩
      · cases hroot : state.implicitRoot with
        | none =>
            simp only [ScanState.step, specify, hroot]
            exact ⟨rfl, well.levels⟩
        | some root =>
            -- The level changes inside a block that is open already.
            simp only [ScanState.step, specify, hroot]
            obtain ⟨scope, hscope, _⟩ := well.rooted root hroot
            cases hscopes : state.scopes with
            | nil => simp [hscopes] at hscope
            | cons first outer =>
                have hlevels := well.levels
                rw [hscopes] at hlevels
                exact ⟨rfl, hlevels.2⟩
      · cases hroot : state.implicitRoot with
        | none =>
            simp only [ScanState.step, specify, hroot]
            intro root hmem
            cases hmem
            exact ⟨_, List.mem_cons_self, rfl⟩
        | some root =>
            simp only [ScanState.step, specify, hroot]
            intro other hmem
            exact well.rooted other (hroot ▸ hmem)
  | some (.openAccess level) =>
      refine ⟨hnested, ⟨rfl, well.levels⟩, ?_⟩
      intro root hmem
      obtain ⟨scope, hscope, hdepth⟩ := well.rooted root hmem
      exact ⟨scope, List.mem_cons_of_mem _ hscope, hdepth⟩
  | some (.openRegion tag description) => exact ⟨hnested, well.levels, well.rooted⟩
  | some .close => exact well.closeRegion

theorem WellScoped.read {state : ScanState} (well : state.WellScoped) (lines : List (List Char)) :
    (state.read lines).WellScoped := by
  induction lines generalizing state with
  | nil => exact well
  | cons line rest ih => exact ih (well.step _)

/-- Only a plain region takes its level from the state; the others bring one. -/
theorem access_of_emit? {state : ScanState} {number : Nat} {marker : Option Marker}
    {entry : Entry} (h : state.emit? number marker = some entry) :
    entry.access = none ↔
      (∃ tag description, marker = some (.openRegion tag description)) ∧ state.access = none := by
  match marker with
  | none => cases h
  | some (.specifier level) => cases h; simp [Entry.atDepth]
  | some (.openAccess level) => cases h; simp [Entry.atDepth]
  | some (.openRegion tag description) => cases h; simp [Entry.atDepth]
  | some .close => cases h

end ScanState

namespace Scan

theorem wellScoped_stateAfter (lines : List (List Char)) : (stateAfter lines).WellScoped := by
  rw [stateAfter_eq_read]
  exact ScanState.wellScoped_initial.read lines

/-- How the open access blocks, the level in force and the implicit root of a
scanner that has read the lines hang together. -/
structure AccessKept (lines : List (List Char)) : Prop where
  /-- From the outermost block to the innermost. -/
  ascending : ((stateAfter lines).scopes.reverse.map AccessScope.depth).Pairwise (· < ·)
  scope_lt : ∀ scope ∈ (stateAfter lines).scopes, scope.depth < (stateAfter lines).depth
  outermost_restores : ∀ scope ∈ (stateAfter lines).scopes.getLast?, scope.restore = none
  inner_restores : ∀ scope ∈ (stateAfter lines).scopes.dropLast, scope.restore ≠ none
  access_none_iff : (stateAfter lines).access = none ↔ (stateAfter lines).scopes = []
  root_scope : ∀ root, (stateAfter lines).implicitRoot = some root →
    root < (stateAfter lines).depth ∧
      (stateAfter lines).scopes.countP (fun scope => scope.depth = root) = 1
  /-- The entry that a next line makes has no level exactly if the line opens a
  plain region outside every access block. -/
  entry_access : ∀ line entry, ((({} : Scanner).feedAll lines).feed line).2 = some entry →
    (entry.access = none ↔
      (∃ tag description, Marker.ofLine? line = some (.openRegion tag description)) ∧
        (stateAfter lines).scopes = [])

/-- On any lines, balanced or not, a level is in force exactly while an access
block is open, and every open block knows the level outside it. -/
theorem access_follows_blocks (lines : List (List Char)) : AccessKept lines := by
  have well := wellScoped_stateAfter lines
  constructor
  · rw [List.pairwise_map, List.pairwise_reverse]
    exact well.nested.descending
  · exact well.nested.scope_lt
  · exact well.levels.restore_getLast?
  · exact well.levels.restore_dropLast
  · exact well.levels.access_eq_none_iff
  · intro root hroot
    obtain ⟨scope, hscope, rfl⟩ := well.rooted root hroot
    exact ⟨well.nested.root_lt _ hroot,
      ScanState.countP_depth_eq_one well.nested.descending hscope⟩
  · intro line entry hentry
    rw [ScanState.access_of_emit? hentry]
    exact and_congr_right fun _ => well.levels.access_eq_none_iff

end Scan

end RegionOutline
