import Mathlib.Data.List.Intervals
import Mathlib.Data.List.Nodup
import RegionOutline.Proofs.Session.Viewport
import RegionOutline.Proofs.View.Rows

/-!
# The window of a view

A view is called with positions of any size, is given longer and shorter outlines, and
has its options changed in between. Each call brings into range what it sets itself, and
publishing also what an earlier call has set, so the positions are among the rows after
any number of calls. The rows shown are then a consecutive part of all rows, which is
empty only if it has to be, and at most one of them is marked.
-/

namespace RegionOutline

/-- What can happen to a view. -/
inductive ViewTurn where
  | call (call : ViewCall)
  | configure (options : ViewOptions)
  deriving DecidableEq

namespace View

/-- The part of the view that is shown. -/
def viewport (view : View) : Viewport :=
  ⟨view.firstVisible, view.focused⟩

def turn (view : View) : ViewTurn → View
  | .call call => view.apply call
  | .configure options => { view with options }

/-- A fresh view after all that happens to it. -/
def afterTurns (options : ViewOptions) (turns : List ViewTurn) : View :=
  turns.foldl turn { options }

/-- The position behind the last one in the viewport. -/
def windowEnd (view : View) : Nat :=
  match view.options.rows with
  | none => view.entries.length
  | some count => min view.entries.length (view.firstVisible + count)

/-- Whatever a view is told, its positions are among its rows. -/
theorem fits_apply {view : View} (fits : view.viewport.Fits view.entries.length)
    (call : ViewCall) : (view.apply call).viewport.Fits (view.apply call).entries.length := by
  cases call with
  | publish entries =>
      constructor
      · intro row hrow
        cases hrow
      -- A first row beyond the new rows goes back to the top, not to the last of them.
      · change (if entries.length ≤ view.firstVisible then 0 else view.firstVisible) = 0 ∨
          (if entries.length ≤ view.firstVisible then 0 else view.firstVisible) < entries.length
        split
        · exact Or.inl rfl
        · right
          omega
  | scrollTo first =>
      constructor
      · exact fits.focused
      · change min first (view.entries.length - 1) = 0 ∨
          min first (view.entries.length - 1) < view.entries.length
        omega
  | focus row =>
      constructor
      · intro position hposition
        have hinside := (Option.filter_eq_some_iff.1 hposition).2
        exact of_decide_eq_true hinside
      · exact fits.first

theorem fits_turn {view : View} (fits : view.viewport.Fits view.entries.length)
    (turn : ViewTurn) : (view.turn turn).viewport.Fits (view.turn turn).entries.length := by
  cases turn with
  | call call => exact fits_apply fits call
  | configure options => exact fits

theorem fits_foldl_turn {view : View} (fits : view.viewport.Fits view.entries.length)
    (turns : List ViewTurn) :
    (turns.foldl turn view).viewport.Fits (turns.foldl turn view).entries.length := by
  induction turns generalizing view with
  | nil => exact fits
  | cons turn rest ih => exact ih (fits_turn fits turn)

/-- Calls are turns without a change of options. -/
theorem fits_foldl {view : View} (fits : view.viewport.Fits view.entries.length)
    (calls : List ViewCall) :
    (calls.foldl View.apply view).viewport.Fits
      (calls.foldl View.apply view).entries.length := by
  have hturns := fits_foldl_turn fits (calls.map ViewTurn.call)
  rw [List.foldl_map] at hturns
  exact hturns

theorem fits_afterTurns (options : ViewOptions) (turns : List ViewTurn) :
    (afterTurns options turns).viewport.Fits (afterTurns options turns).entries.length := by
  apply fits_foldl_turn
  constructor
  · intro row hrow
    cases hrow
  · exact Or.inl rfl

theorem windowEnd_sub_first (view : View) (place : Nat) :
    place < view.windowEnd - view.firstVisible ↔
      view.options.allows place = true ∧ view.firstVisible + place < view.entries.length := by
  unfold windowEnd ViewOptions.allows
  cases view.options.rows with
  | none =>
      simp only [Option.all_none, true_and]
      omega
  | some count =>
      simp only [Option.all_some, decide_eq_true_eq]
      omega

/-- The positions in the viewport, for any options and any first position. -/
theorem map_fst_visible (view : View) :
    view.visible.map Prod.fst = List.Ico view.firstVisible view.windowEnd := by
  apply List.ext_getElem?
  intro place
  rw [List.getElem?_map, getElem?_visible]
  by_cases hplace : place < view.windowEnd - view.firstVisible
  · obtain ⟨hallowed, hinside⟩ := (view.windowEnd_sub_first place).1 hplace
    rw [if_pos hallowed, List.getElem?_eq_getElem hinside, List.Ico, List.getElem?_range' hplace,
      Nat.one_mul]
    rfl
  · have hbeyond : (List.Ico view.firstVisible view.windowEnd)[place]? = none := by
      rw [List.getElem?_eq_none_iff, List.Ico.length]
      exact Nat.le_of_not_lt hplace
    rw [hbeyond]
    split
    · rename_i hallowed
      have houtside : view.entries.length ≤ view.firstVisible + place := by
        apply Nat.le_of_not_lt
        intro hinside
        exact hplace ((view.windowEnd_sub_first place).2 ⟨hallowed, hinside⟩)
      rw [List.getElem?_eq_none houtside]
      rfl
    · rfl

/-- Some row is shown unless there is none or none is to be shown. -/
theorem visible_ne_nil {view : View} (fits : view.viewport.Fits view.entries.length)
    (filled : view.entries ≠ []) (wanted : view.options.rows ≠ some 0) : view.visible ≠ [] := by
  have hlength : 0 < view.entries.length := List.length_pos_iff.2 filled
  have hfirst : view.firstVisible < view.entries.length := by
    have hinside : view.firstVisible = 0 ∨ view.firstVisible < view.entries.length := fits.first
    omega
  have hend : view.firstVisible < view.windowEnd := by
    unfold windowEnd
    cases hrows : view.options.rows with
    | none => exact hfirst
    | some count =>
        have hcount : count ≠ 0 := fun hzero => wanted (by rw [hrows, hzero])
        change view.firstVisible < min view.entries.length (view.firstVisible + count)
        omega
  intro hnil
  have hempty : List.Ico view.firstVisible view.windowEnd = [] := by
    rw [← map_fst_visible, hnil]
    rfl
  exact absurd (List.Ico.eq_empty_iff.1 hempty) (Nat.not_le.2 hend)

/-- Each row is marked if its position is the highlighted one. -/
theorem countP_isMarked (view : View) :
    view.rows.countP isMarked =
      (List.Ico view.firstVisible view.windowEnd).countP (view.focused == some ·) := by
  rw [rows, List.countP_map, ← map_fst_visible, List.countP_map]
  congr 1
  ext shown
  exact isMarked_row _ _ _

theorem countP_isMarked_of_focused {view : View} {row : Nat} (focused : view.focused = some row) :
    view.rows.countP isMarked = (List.Ico view.firstVisible view.windowEnd).count row := by
  rw [countP_isMarked, focused, List.count]
  apply List.countP_congr
  intro position _
  rw [beq_iff_eq, beq_iff_eq, Option.some_inj, eq_comm]

theorem countP_isMarked_of_none {view : View} (unfocused : view.focused = none) :
    view.rows.countP isMarked = 0 := by
  rw [countP_isMarked, unfocused]
  exact List.countP_eq_zero.2 fun _ _ => Bool.false_ne_true

theorem countP_isMarked_le_one (view : View) : view.rows.countP isMarked ≤ 1 := by
  cases hfocused : view.focused with
  | none =>
      rw [countP_isMarked_of_none hfocused]
      exact Nat.zero_le 1
  | some row =>
      rw [countP_isMarked_of_focused hfocused]
      exact List.nodup_iff_count_le_one.1 (List.Ico.nodup _ _) row

theorem countP_isMarked_eq_one_iff (view : View) :
    view.rows.countP isMarked = 1 ↔
      ∃ row, view.focused = some row ∧ view.firstVisible ≤ row ∧ row < view.windowEnd := by
  constructor
  · intro hone
    cases hfocused : view.focused with
    | none =>
        rw [countP_isMarked_of_none hfocused] at hone
        cases hone
    | some row =>
        rw [countP_isMarked_of_focused hfocused] at hone
        have hmem : row ∈ List.Ico view.firstVisible view.windowEnd :=
          List.count_pos_iff.1 (by omega)
        exact ⟨row, rfl, List.Ico.mem.1 hmem⟩
  · rintro ⟨row, hfocused, hinside⟩
    rw [countP_isMarked_of_focused hfocused]
    exact List.count_eq_one_of_mem (List.Ico.nodup _ _) (List.Ico.mem.2 hinside)

/-- The window of a view lies in its rows, and the text shows that window. -/
structure Windowed (view : View) : Prop where
  focused_inside : ∀ row, view.focused = some row → row < view.entries.length
  first_inside : view.firstVisible = 0 ∨ view.firstVisible < view.entries.length
  /-- The positions shown are consecutive, each with its entry. -/
  positions : view.visible.map Prod.fst = List.Ico view.firstVisible view.windowEnd
  entries_shown : ∀ position entry, (position, entry) ∈ view.visible →
    view.entries[position]? = some entry
  nonempty : view.entries ≠ [] → view.options.rows ≠ some 0 → view.visible ≠ []
  /-- The text is made of the rows, each on a line of its own. -/
  text_eq : view.text = String.ofList (view.rows.flatMap (· ++ ['\n']))
  rows_length : view.rows.length = view.windowEnd - view.firstVisible
  /-- A row begins with the mark if its position is the highlighted one. -/
  marked_iff : ∀ place, view.rows[place]?.any isMarked = true ↔
    view.focused = some (view.firstVisible + place) ∧ view.firstVisible + place < view.windowEnd
  marked_le_one : view.rows.countP isMarked ≤ 1
  marked_eq_one_iff : view.rows.countP isMarked = 1 ↔
    ∃ row, view.focused = some row ∧ view.firstVisible ≤ row ∧ row < view.windowEnd

theorem windowed_of_fits {view : View} (fits : view.viewport.Fits view.entries.length) :
    view.Windowed where
  focused_inside := fits.focused
  first_inside := fits.first
  positions := view.map_fst_visible
  entries_shown _ _ shown := getElem?_of_mem_visible shown
  nonempty := visible_ne_nil fits
  text_eq := view.text_eq
  rows_length := by
    rw [rows, List.length_map, ← List.Ico.length, ← map_fst_visible, List.length_map]
  marked_iff := by
    intro place
    rw [view.any_isMarked_iff fits.focused]
    apply and_congr_right
    intro hfocused
    have hinside := fits.focused _ hfocused
    have hwindow := view.windowEnd_sub_first place
    constructor
    · intro hallowed
      have hlt := hwindow.2 ⟨hallowed, hinside⟩
      omega
    · intro hend
      exact (hwindow.1 (by omega)).1
  marked_le_one := view.countP_isMarked_le_one
  marked_eq_one_iff := view.countP_isMarked_eq_one_iff

/-- Whatever happens to a fresh view, its window stays inside its rows and at most one
row is marked, the highlighted one if it is in the window. -/
theorem window_stays_inside (options : ViewOptions) (turns : List ViewTurn) :
    (afterTurns options turns).Windowed :=
  windowed_of_fits (fits_afterTurns options turns)

end View

end RegionOutline
