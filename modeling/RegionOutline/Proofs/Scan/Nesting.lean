import RegionOutline.Scan

/-!
# Nesting of access blocks

The scanner over a list of lines is the step function folded over their
markers, and its line number counts them. Along every such run the open access
blocks lie strictly below one another and below the current depth, and so does
the root of the implicit block.
-/

namespace RegionOutline

namespace ScanState

/-- The state after a list of lines. -/
def read (state : ScanState) (lines : List (List Char)) : ScanState :=
  lines.foldl (fun state line => state.step (Marker.ofLine? line)) state

@[simp] theorem read_nil (state : ScanState) : state.read [] = state := rfl

@[simp] theorem read_cons (state : ScanState) (line : List Char) (lines : List (List Char)) :
    state.read (line :: lines) = (state.step (Marker.ofLine? line)).read lines := rfl

@[simp] theorem read_append (state : ScanState) (first second : List (List Char)) :
    state.read (first ++ second) = (state.read first).read second := by
  simp [read]

end ScanState

namespace Scanner

theorem feedAll_eq (scanner : Scanner) (lines : List (List Char)) :
    scanner.feedAll lines = ⟨scanner.state.read lines, scanner.line + lines.length⟩ := by
  induction lines generalizing scanner with
  | nil => rfl
  | cons line rest ih =>
      change (scanner.feed line).1.feedAll rest = _
      rw [ih]
      simp only [feed, ScanState.read_cons, List.length_cons, Scanner.mk.injEq, true_and]
      omega

@[simp] theorem feedAll_state (scanner : Scanner) (lines : List (List Char)) :
    (scanner.feedAll lines).state = scanner.state.read lines := by
  rw [feedAll_eq]

end Scanner

namespace ScanState

/-- The open access blocks lie strictly below one another, the innermost first,
and every one of them and the implicit root lie below the current depth. -/
structure Nested (state : ScanState) : Prop where
  descending : state.scopes.Pairwise fun inner outer => outer.depth < inner.depth
  scope_lt : ∀ scope ∈ state.scopes, scope.depth < state.depth
  root_lt : ∀ root ∈ state.implicitRoot, root < state.depth

theorem nested_initial : ({} : ScanState).Nested :=
  ⟨List.Pairwise.nil, by simp, by simp⟩

/-- Nothing is left where all blocks lie below the given depth. -/
theorem leaveScopes_of_lt {depth : Int} {scopes : List AccessScope} (access : Option Access)
    (h : ∀ scope ∈ scopes, scope.depth < depth) :
    leaveScopes depth scopes access = (scopes, access) := by
  cases scopes with
  | nil => rfl
  | cons scope rest =>
      rw [leaveScopes, if_pos (h scope List.mem_cons_self)]

/-- A block at the given depth or deeper is left, whatever level it had. -/
theorem leaveScopes_cons_of_le {depth bottom : Int} (restore : Option Access)
    (scopes : List AccessScope) (access : Option Access) (h : depth ≤ bottom) :
    leaveScopes depth (⟨bottom, restore⟩ :: scopes) access = leaveScopes depth scopes restore := by
  rw [leaveScopes, if_neg (Int.not_lt.2 h)]

theorem leaveScopes_suffix (depth : Int) (scopes : List AccessScope) (access : Option Access) :
    (leaveScopes depth scopes access).1 <:+ scopes := by
  fun_induction leaveScopes depth scopes access with
  | case1 access => exact List.suffix_rfl
  | case2 scope scopes access h => exact List.suffix_rfl
  | case3 scope scopes access h ih => exact ih.trans (List.suffix_cons scope scopes)

/-- In a descending stack only blocks below the given depth stay. -/
theorem depth_lt_of_mem_leaveScopes {depth : Int} {scopes : List AccessScope}
    (access : Option Access)
    (descending : scopes.Pairwise fun inner outer => outer.depth < inner.depth) :
    ∀ scope ∈ (leaveScopes depth scopes access).1, scope.depth < depth := by
  fun_induction leaveScopes depth scopes access with
  | case1 access => simp
  | case2 scope scopes access h =>
      intro other hother
      rcases List.mem_cons.1 hother with rfl | hother
      · exact h
      · exact Int.lt_trans (List.rel_of_pairwise_cons descending hother) h
  | case3 scope scopes access h ih => exact ih descending.of_cons

theorem Nested.withAccess {state : ScanState} (nested : state.Nested) (access : Option Access) :
    { state with access := access }.Nested :=
  ⟨nested.descending, nested.scope_lt, nested.root_lt⟩

theorem Nested.enter {state : ScanState} (nested : state.Nested) (level : Access)
    {root : Option Int} (hroot : ∀ k ∈ root, k < state.depth + 1) :
    { state.enter level with implicitRoot := root, depth := state.depth + 1 }.Nested where
  descending := List.pairwise_cons.2 ⟨nested.scope_lt, nested.descending⟩
  scope_lt := by
    intro scope hscope
    rcases List.mem_cons.1 hscope with rfl | hscope
    · exact Int.lt_succ state.depth
    · exact Int.lt_trans (nested.scope_lt scope hscope) (Int.lt_succ state.depth)
  root_lt := hroot

theorem Nested.returnTo {state : ScanState} (nested : state.Nested) {depth : Int}
    (hroot : ∀ k ∈ state.implicitRoot, k < depth) : (state.returnTo depth).Nested where
  descending := nested.descending.sublist (leaveScopes_suffix _ _ _).sublist
  scope_lt := depth_lt_of_mem_leaveScopes _ nested.descending
  root_lt := hroot

theorem Nested.closeRegion {state : ScanState} (nested : state.Nested) :
    state.closeRegion.Nested := by
  unfold ScanState.closeRegion
  split
  · have rootless : { state with implicitRoot := none }.Nested :=
      ⟨nested.descending, nested.scope_lt, by simp⟩
    exact rootless.returnTo (by simp)
  · rename_i hroot
    apply nested.returnTo
    intro k hk
    have hlt := nested.root_lt k hk
    have hne : k ≠ state.depth - 1 := by
      rintro rfl
      exact hroot hk
    omega

/-- One line keeps the nesting, whatever it is. -/
theorem Nested.step {state : ScanState} (nested : state.Nested) (marker : Option Marker) :
    (state.step marker).Nested := by
  match marker with
  | none => exact nested
  | some (.specifier level) =>
      cases hroot : state.implicitRoot with
      | none =>
          simp only [ScanState.step, specify, hroot]
          apply nested.enter level
          intro k hk
          cases hk
          exact Int.lt_succ state.depth
      | some root =>
          simp only [ScanState.step, specify, hroot]
          rw [← hroot]
          exact nested.withAccess _
  | some (.openAccess level) =>
      apply nested.enter level
      intro k hk
      exact Int.lt_trans (nested.root_lt k hk) (Int.lt_succ state.depth)
  | some (.openRegion tag description) =>
      refine ⟨nested.descending, ?_, ?_⟩
      · intro scope hscope
        exact Int.lt_trans (nested.scope_lt scope hscope) (Int.lt_succ state.depth)
      · intro k hk
        exact Int.lt_trans (nested.root_lt k hk) (Int.lt_succ state.depth)
  | some .close => exact nested.closeRegion

theorem Nested.read {state : ScanState} (nested : state.Nested) (lines : List (List Char)) :
    (state.read lines).Nested := by
  induction lines generalizing state with
  | nil => exact nested
  | cons line rest ih => exact ih (nested.step _)

/-- Every state that a scanner reaches is nested. -/
theorem nested_read_initial (lines : List (List Char)) : (({} : ScanState).read lines).Nested :=
  nested_initial.read lines

end ScanState

end RegionOutline
