import RegionOutline.Proofs.Scan.Depth
import RegionOutline.Proofs.Scan.Entries

/-!
# Balanced blocks

A balanced block is a region opener, a body of ordinary lines, bare specifiers
and balanced blocks, and a region closer. Outside every implicit block such a
block leaves no trace in the scanner, so it can be put in without touching what
comes later but for its line numbers. Inside an implicit block only the access
level can change, and exactly the specifiers that no access region encloses
change it.
-/

namespace RegionOutline

/-- A line that opens a region. -/
structure Opener where
  line : List Char
  marker : Marker
  marked : Marker.ofLine? line = some marker
  opens : marker.isOpener = true

/-- A line that closes a region. -/
structure Closer where
  line : List Char
  marked : Marker.ofLine? line = some .close

/-- Ordinary lines, bare specifiers and balanced blocks one after the other. -/
inductive Body where
  | done
  | ordinary (line : List Char) (unmarked : Marker.ofLine? line = none) (rest : Body)
  | specifier (line : List Char) (level : Access)
      (marked : Marker.ofLine? line = some (.specifier level)) (rest : Body)
  | block (opener : Opener) (inner : Body) (closer : Closer) (rest : Body)

/-- A balanced block of lines. -/
structure Block where
  opener : Opener
  body : Body
  closer : Closer

/-- Whether the region is of the access style. -/
def Opener.isAccess (opener : Opener) : Bool :=
  match opener.marker with
  | .openAccess _ => true
  | _ => false

namespace Body

def lines : Body → List (List Char)
  | done => []
  | ordinary line _ rest => line :: rest.lines
  | specifier line _ _ rest => line :: rest.lines
  | block opener inner closer rest => opener.line :: (inner.lines ++ closer.line :: rest.lines)

/-- Whether every specifier lies within a block. -/
def isSelfContained : Body → Bool
  | done => true
  | ordinary _ _ rest => rest.isSelfContained
  | specifier _ _ _ _ => false
  | block _ _ _ rest => rest.isSelfContained

/-- The level of the last specifier that lies in no access region of the body. -/
def leak : Body → Option Access
  | done => none
  | ordinary _ _ rest => rest.leak
  | specifier _ level _ rest => rest.leak.or (some level)
  | block opener inner _ rest => rest.leak.or (if opener.isAccess then none else inner.leak)

end Body

namespace Block

def lines (block : Block) : List (List Char) :=
  block.opener.line :: (block.body.lines ++ [block.closer.line])

/-- The block as a body of its own. -/
def toBody (block : Block) : Body := .block block.opener block.body block.closer .done

/-- The level of the last specifier that lies in no access region, the block
itself included. -/
def leak (block : Block) : Option Access :=
  if block.opener.isAccess then none else block.body.leak

@[simp] theorem lines_toBody (block : Block) : block.toBody.lines = block.lines := rfl

end Block

namespace ScanState

/-- An opener enters an access level or none, and goes one level deeper. -/
theorem step_opener (opener : Opener) :
    (∃ level, opener.isAccess = true ∧ ∀ state : ScanState,
      state.step (some opener.marker) = { state.enter level with depth := state.depth + 1 }) ∨
    (opener.isAccess = false ∧ ∀ state : ScanState,
      state.step (some opener.marker) = { state with depth := state.depth + 1 }) := by
  obtain ⟨line, marker, marked, opens⟩ := opener
  match marker, opens with
  | .openAccess level, _ => exact Or.inl ⟨level, rfl, fun _ => rfl⟩
  | .openRegion tag description, _ => exact Or.inr ⟨rfl, fun _ => rfl⟩

theorem access_step_plain {opener : Opener} (h : opener.isAccess = false) (state : ScanState) :
    (state.step (some opener.marker)).access = state.access := by
  rcases step_opener opener with ⟨level, hstyle, _⟩ | ⟨_, hstep⟩
  · rw [h] at hstyle
    cases hstyle
  · rw [hstep]

theorem implicitRoot_step_opener (state : ScanState) (opener : Opener) :
    (state.step (some opener.marker)).implicitRoot = state.implicitRoot := by
  rcases step_opener opener with ⟨level, _, hstep⟩ | ⟨_, hstep⟩
  · rw [hstep]
    rfl
  · rw [hstep]

/-- Closing a region that was just opened takes back all but the level that a
plain region let through. -/
theorem closeRegion_opened {state : ScanState} (nested : state.Nested) (opener : Opener)
    (access : Option Access) :
    { state.step (some opener.marker) with access := access }.closeRegion =
      { state with access := if opener.isAccess then state.access else access } := by
  have hroot : state.implicitRoot ≠ some state.depth := by
    intro heq
    exact Int.lt_irrefl _ (nested.root_lt _ heq)
  have hdepth : state.depth + 1 - 1 = state.depth := by omega
  rcases step_opener opener with ⟨level, hstyle, hstep⟩ | ⟨hstyle, hstep⟩
  · have hleave : leaveScopes state.depth (⟨state.depth, state.access⟩ :: state.scopes) access =
        (state.scopes, state.access) := by
      rw [leaveScopes_cons_of_le _ _ _ (Int.le_refl _)]
      exact leaveScopes_of_lt _ nested.scope_lt
    simp only [hstep, enter, closeRegion, if_neg hroot, returnTo, hdepth, hleave, hstyle, if_true]
  · have hleave : leaveScopes state.depth state.scopes access = (state.scopes, access) :=
      leaveScopes_of_lt _ nested.scope_lt
    simp only [hstep, closeRegion, if_neg hroot, returnTo, hdepth, hleave, hstyle,
      Bool.false_eq_true, if_false]

/-- Closing a region in which a specifier opened an implicit block takes back
both. -/
theorem closeRegion_specified {state : ScanState} (nested : state.Nested)
    (hroot : state.implicitRoot = none) (opener : Opener) (level : Access) :
    ((state.step (some opener.marker)).specify level).closeRegion = state := by
  have hbottom : state.depth + 1 + 1 - 1 = state.depth + 1 := by omega
  have hdepth : state.depth + 1 + 1 - 2 = state.depth := by omega
  have hdeeper : state.depth ≤ state.depth + 1 := by omega
  rcases step_opener opener with ⟨outer, _, hstep⟩ | ⟨_, hstep⟩
  · have hleave : leaveScopes state.depth
        (⟨state.depth + 1, some outer⟩ :: ⟨state.depth, state.access⟩ :: state.scopes)
        (some level) = (state.scopes, state.access) := by
      rw [leaveScopes_cons_of_le _ _ _ hdeeper, leaveScopes_cons_of_le _ _ _ (Int.le_refl _)]
      exact leaveScopes_of_lt _ nested.scope_lt
    simp only [hstep, enter, specify, hroot, closeRegion, hbottom, if_true, returnTo, hdepth,
      hleave]
    rw [← hroot]
  · have hleave : leaveScopes state.depth (⟨state.depth + 1, state.access⟩ :: state.scopes)
        (some level) = (state.scopes, state.access) := by
      rw [leaveScopes_cons_of_le _ _ _ hdeeper]
      exact leaveScopes_of_lt _ nested.scope_lt
    simp only [hstep, enter, specify, hroot, closeRegion, hbottom, if_true, returnTo, hdepth,
      hleave]
    rw [← hroot]

/-- Inside an implicit block a body changes nothing but the access level, which
becomes the one that leaks from it. -/
theorem read_inside (body : Body) {state : ScanState} (nested : state.Nested)
    (inside : state.implicitRoot.isSome = true) :
    state.read body.lines = { state with access := body.leak.or state.access } := by
  induction body generalizing state with
  | done => rfl
  | ordinary line unmarked rest ih =>
      rw [Body.lines, read_cons, unmarked]
      exact ih nested inside
  | specifier line level marked rest ih =>
      have hstep : state.step (some (.specifier level)) = { state with access := some level } := by
        obtain ⟨root, hroot⟩ := Option.isSome_iff_exists.1 inside
        simp only [step, specify, hroot]
      rw [Body.lines, read_cons, marked, hstep, ih (nested.withAccess (some level)) inside]
      simp [Body.leak]
  | block opener inner closer rest ihInner ihRest =>
      have hopened := nested.step (some opener.marker)
      have hinside : (state.step (some opener.marker)).implicitRoot.isSome = true := by
        rw [implicitRoot_step_opener]
        exact inside
      rw [Body.lines, read_cons, opener.marked, read_append, ihInner hopened hinside, read_cons,
        closer.marked]
      change (closeRegion _).read rest.lines = _
      rw [closeRegion_opened nested]
      cases hstyle : opener.isAccess with
      | true =>
          have hrest := ihRest (nested.withAccess state.access) inside
          simpa [Body.leak, hstyle] using hrest
      | false =>
          have hrest := ihRest (nested.withAccess (inner.leak.or state.access)) inside
          simpa [Body.leak, hstyle, access_step_plain hstyle, Option.or_assoc] using hrest

/-- Outside every implicit block a body changes nothing, unless it has a
specifier of its own, which opens one. -/
theorem read_outside (body : Body) {state : ScanState} (nested : state.Nested)
    (outside : state.implicitRoot = none) :
    ∃ level, state.read body.lines = if body.isSelfContained then state else state.specify level := by
  induction body generalizing state with
  | done => exact ⟨.pub, rfl⟩
  | ordinary line unmarked rest ih =>
      rw [Body.lines, read_cons, unmarked]
      exact ih nested outside
  | specifier line level marked rest ih =>
      have hnested := nested.step (some (.specifier level))
      have hinside : (state.step (some (.specifier level))).implicitRoot.isSome = true := by
        simp only [step, specify, outside, Option.isSome_some]
      refine ⟨rest.leak.getD level, ?_⟩
      rw [Body.lines, read_cons, marked, read_inside rest hnested hinside]
      cases rest.leak <;>
        simp [step, specify, enter, outside, Body.isSelfContained]
  | block opener inner closer rest ihInner ihRest =>
      have hopened := nested.step (some opener.marker)
      have houtside : (state.step (some opener.marker)).implicitRoot = none := by
        rw [implicitRoot_step_opener]
        exact outside
      obtain ⟨level, hinner⟩ := ihInner hopened houtside
      have hclosed : ((state.step (some opener.marker)).read inner.lines).closeRegion = state := by
        rw [hinner]
        split
        · -- Without a specifier of its own the region ends as it began.
          have hplain := closeRegion_opened nested opener (state.step (some opener.marker)).access
          rw [hplain]
          cases hstyle : opener.isAccess with
          | true => rfl
          | false => simp [access_step_plain hstyle]
        · exact closeRegion_specified nested outside opener level
      rw [Body.lines, read_cons, opener.marked, read_append, read_cons, closer.marked]
      change ∃ level, (closeRegion _).read rest.lines = _
      rw [hclosed]
      exact ihRest nested outside

/-- A body without specifiers of its own leaves no trace. -/
theorem read_selfContained {body : Body} {state : ScanState} (nested : state.Nested)
    (outside : state.implicitRoot = none) (contained : body.isSelfContained = true) :
    state.read body.lines = state := by
  obtain ⟨level, hread⟩ := read_outside body nested outside
  rw [hread, if_pos contained]

end ScanState

namespace Scan

theorem stateAfter_block {before : List (List Char)}
    (outside : (stateAfter before).implicitRoot = none) (block : Block) :
    stateAfter (before ++ block.lines) = stateAfter before := by
  rw [stateAfter_append, ← Block.lines_toBody]
  exact ScanState.read_selfContained (nested_stateAfter before) outside rfl

theorem entries_after_block {before : List (List Char)}
    (outside : (stateAfter before).implicitRoot = none) (block : Block)
    (after : List (List Char)) :
    (({} : Scanner).feedAll (before ++ block.lines)).entries after =
      ((({} : Scanner).feedAll before).entries after).map (Entry.shift block.lines.length) := by
  have hstate := stateAfter_block outside block
  rw [stateAfter_eq_read, stateAfter_eq_read] at hstate
  rw [Scanner.feedAll_eq, Scanner.feedAll_eq, hstate, List.length_append, ← Nat.add_assoc]
  exact Scanner.entries_shift _ _ _ after

/-- Outside every implicit block a balanced block leaves the scanner as it was.
So a document of balanced blocks and ordinary lines ends where it started, and a
block that is put in moves the later entries down and changes nothing else. -/
theorem balanced_block_transparent :
    (∀ (before : List (List Char)) (block : Block), (stateAfter before).implicitRoot = none →
      stateAfter (before ++ block.lines) = stateAfter before) ∧
    (∀ document : Body, document.isSelfContained = true → stateAfter document.lines = {}) ∧
    (∀ (before : List (List Char)) (block : Block) (after : List (List Char)),
      (stateAfter before).implicitRoot = none →
      ({} : Scanner).entries (before ++ after) =
        ({} : Scanner).entries before ++ (({} : Scanner).feedAll before).entries after ∧
      ({} : Scanner).entries (before ++ block.lines ++ after) =
        ({} : Scanner).entries before ++ (({} : Scanner).feedAll before).entries block.lines ++
          ((({} : Scanner).feedAll before).entries after).map
            (Entry.shift block.lines.length)) := by
  refine ⟨fun before block outside => stateAfter_block outside block, ?_, ?_⟩
  · intro document contained
    rw [stateAfter_eq_read]
    exact ScanState.read_selfContained ScanState.nested_initial rfl contained
  · intro before block after outside
    refine ⟨Scanner.entries_append _ before after, ?_⟩
    rw [Scanner.entries_append, Scanner.entries_append, entries_after_block outside]

/-- A class region around a body. -/
def classBlock (body : Body) : Block where
  opener := ⟨"#pragma region class Part".toList, .openRegion "class" "Part", by decide, rfl⟩
  body
  closer := ⟨"#pragma endregion".toList, by decide⟩

/-- A class region with a private part. -/
def privatePart : Block :=
  classBlock (.specifier "private:".toList .priv (by decide) .done)

/-- After a closer without opener, a class with a public part around a class with
a private one. -/
theorem nested_parts_transparent :
    (stateAfter ["#pragma endregion".toList]).implicitRoot = none ∧
      stateAfter (["#pragma endregion".toList] ++
          (classBlock (.specifier "public:".toList .pub (by decide) privatePart.toBody)).lines) =
        stateAfter ["#pragma endregion".toList] := by
  have outside : (stateAfter ["#pragma endregion".toList]).implicitRoot = none := by decide
  exact ⟨outside, balanced_block_transparent.1 _ _ outside⟩

/-- Inside an implicit block a balanced block changes nothing but the access
level, and that exactly by the specifiers that no access region encloses. -/
theorem access_after_block_inside (before : List (List Char)) (block : Block)
    (inside : (stateAfter before).implicitRoot.isSome = true) :
    stateAfter (before ++ block.lines) =
      { stateAfter before with access := block.leak.or (stateAfter before).access } := by
  rw [stateAfter_append, ← Block.lines_toBody,
    ScanState.read_inside block.toBody (nested_stateAfter before) inside]
  simp [Block.toBody, Body.leak, Block.leak]

/-- A private part inside the public one leaks its level. -/
theorem private_part_inside :
    (stateAfter ["public:".toList]).implicitRoot.isSome = true ∧
      stateAfter (["public:".toList] ++ privatePart.lines) =
        { stateAfter ["public:".toList] with access := some .priv } := by
  have inside : (stateAfter ["public:".toList]).implicitRoot.isSome = true := by decide
  exact ⟨inside, access_after_block_inside _ privatePart inside⟩

/-- Inside an implicit block, closing a region need not restore the level that
was in force before it. -/
theorem not_access_restored_inside :
    ¬ ∀ (before : List (List Char)) (block : Block),
      (stateAfter before).implicitRoot.isSome = true →
      (stateAfter (before ++ block.lines)).access = (stateAfter before).access := by
  intro restored
  have hpublic := restored ["public:".toList] privatePart (by decide)
  revert hpublic
  decide

end Scan

end RegionOutline
