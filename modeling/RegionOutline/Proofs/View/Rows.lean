import RegionOutline.View

/-!
# Rows of a view

Which entry stands in which row of the text of a view, and which row carries the mark:
the highlighted one, if it lies in the viewport.
-/

namespace RegionOutline

/-- Whether so many rows of the viewport can stand above another one. -/
def ViewOptions.allows (options : ViewOptions) (above : Nat) : Bool :=
  options.rows.all (above < ·)

namespace View

/-- The rows of the text, from the first visible one on. -/
def rows (view : View) : List (List Char) :=
  view.visible.map fun (position, entry) => row view.options (view.focused == some position) entry

theorem text_eq (view : View) : view.text = String.ofList (view.rows.flatMap (· ++ ['\n'])) := by
  simp [text, rows, List.flatMap_map]

theorem getElem?_visible (view : View) (place : Nat) :
    view.visible[place]? =
      if view.options.allows place then
        view.entries[view.firstVisible + place]?.map fun entry => (view.firstVisible + place, entry)
      else none := by
  unfold visible ViewOptions.allows
  cases view.options.rows with
  | none => simp [Function.comp_def]
  | some count =>
      by_cases hplace : place < count
      · simp [hplace, List.getElem?_take_of_lt, Function.comp_def]
      · change (List.take count _)[place]? = _
        rw [List.getElem?_take_eq_none (Nat.le_of_not_lt hplace)]
        simp [hplace]

theorem getElem?_of_mem_visible {view : View} {position : Nat} {entry : Entry}
    (shown : (position, entry) ∈ view.visible) : view.entries[position]? = some entry := by
  obtain ⟨place, hplace⟩ := List.mem_iff_getElem?.1 shown
  rw [getElem?_visible] at hplace
  split at hplace
  · obtain ⟨other, hother, heq⟩ := Option.map_eq_some_iff.1 hplace
    cases heq
    exact hother
  · cases hplace

theorem getElem?_rows (view : View) (place : Nat) :
    view.rows[place]? =
      if view.options.allows place then
        view.entries[view.firstVisible + place]?.map
          (row view.options (view.focused == some (view.firstVisible + place)))
      else none := by
  rw [rows, List.getElem?_map, getElem?_visible]
  cases view.options.allows place with
  | true => simp [Function.comp_def]
  | false => rfl

/-- Whether a row begins with the focus mark. -/
def isMarked (row : List Char) : Bool :=
  row.head? == some '>'

@[simp] theorem isMarked_row (options : ViewOptions) (focused : Bool) (entry : Entry) :
    isMarked (row options focused entry) = focused := by
  cases focused <;> rfl

/-- The row at a place is marked if it is that of the highlighted entry. -/
theorem any_isMarked_iff (view : View)
    (inside : ∀ position, view.focused = some position → position < view.entries.length)
    (place : Nat) :
    view.rows[place]?.any isMarked = true ↔
      view.focused = some (view.firstVisible + place) ∧ view.options.allows place = true := by
  rw [getElem?_rows]
  cases view.options.allows place with
  | false => simp
  | true =>
      simp only [if_true, Option.any_map, isMarked_row, and_true]
      constructor
      · intro hany
        obtain ⟨_, _, hmarked⟩ := (Option.any_eq_true _ _).1 hany
        exact beq_iff_eq.1 hmarked
      · intro hfocused
        rw [List.getElem?_eq_getElem (inside _ hfocused), Option.any_some, hfocused]
        exact beq_self_eq_true _

/-- Some row is marked if the highlighted entry lies in the viewport. -/
theorem exists_isMarked_iff (view : View)
    (inside : ∀ position, view.focused = some position → position < view.entries.length)
    (below : ∀ position, view.focused = some position → view.firstVisible ≤ position) :
    (∃ row ∈ view.rows, isMarked row = true) ↔
      ∃ position, view.focused = some position ∧
        view.options.allows (position - view.firstVisible) = true := by
  constructor
  · rintro ⟨row, hmem, hmarked⟩
    obtain ⟨place, hplace⟩ := List.mem_iff_getElem?.1 hmem
    have hany : view.rows[place]?.any isMarked = true := by rwa [hplace]
    obtain ⟨hfocused, hallowed⟩ := (view.any_isMarked_iff inside place).1 hany
    refine ⟨_, hfocused, ?_⟩
    rwa [Nat.add_sub_cancel_left]
  · rintro ⟨position, hfocused, hallowed⟩
    have hsum : view.firstVisible + (position - view.firstVisible) = position :=
      Nat.add_sub_cancel' (below position hfocused)
    have hany := (view.any_isMarked_iff inside (position - view.firstVisible)).2
      ⟨by rw [hsum, hfocused], hallowed⟩
    obtain ⟨row, hrow⟩ := (Option.any_eq_true _ _).1 hany
    exact ⟨row, List.mem_of_getElem? hrow.1, hrow.2⟩

end View

end RegionOutline
