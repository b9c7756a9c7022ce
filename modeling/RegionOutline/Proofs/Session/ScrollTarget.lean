import Mathlib.Order.WithBot
import RegionOutline.Proofs.Index.Lookup
import RegionOutline.Session

/-!
# The viewport for a line

A line belongs to the nearest row at or before it, and to no row if all of them lie
beyond it. Further down the document the nearest row never goes back. The viewport for
a line begins so many rows above that row, or at the top where there are fewer.
-/

namespace RegionOutline

namespace Index

variable {index : Index} {line target row : Nat}

/-- What lies at or before a line lies at or before every later line. -/
theorem exists_nearest?_of_le (hle : line ≤ target) (h : index.nearest? line = some row) :
    ∃ later, index.nearest? target = some later ∧ row ≤ later := by
  obtain ⟨⟨entry, standing, hline⟩, _⟩ := (nearest?_eq_iff index line (some row)).1 h
  have reached : entry.line ≤ target := Nat.le_trans hline hle
  cases hlater : index.nearest? target with
  | none =>
      have beyond := (nearest?_eq_iff index target none).1 hlater
      exact absurd (beyond entry (List.mem_of_getElem? standing)) (Nat.not_lt.2 reached)
  | some later =>
      obtain ⟨_, beyond⟩ := (nearest?_eq_iff index target (some later)).1 hlater
      refine ⟨later, rfl, Nat.le_of_not_lt ?_⟩
      intro hlt
      exact absurd (beyond row entry hlt standing) (Nat.not_lt.2 reached)

/-- The row of a line, none counting as the first of all, grows with the line. -/
theorem monotone_nearest? (index : Index) : Monotone (β := WithBot Nat) index.nearest? := by
  intro line target hle
  cases hrow : index.nearest? line with
  | none => exact bot_le
  | some row =>
      obtain ⟨later, hlater, hrows⟩ := exists_nearest?_of_le hle hrow
      rw [hlater]
      exact WithBot.coe_le_coe.2 hrows

/-- What the lookup of the nearest row answers. -/
structure FindsNearest (index : Index) : Prop where
  /-- The row reaches no further than the line, and all rows after it do. -/
  found_iff : ∀ line row, index.nearest? line = some row ↔
    (∃ entry, index.entries[row]? = some entry ∧ entry.line ≤ line) ∧
      ∀ later next, row < later → index.entries[later]? = some next → line < next.line
  none_iff : ∀ line, index.nearest? line = none ↔ ∀ entry ∈ index.entries, line < entry.line
  monotone : Monotone (β := WithBot Nat) index.nearest?
  /-- On the line of an entry it agrees with the exact lookup. -/
  on_entry : ∀ entry ∈ index.entries, ∃ row,
    index.position? entry.line = some row ∧ index.nearest? entry.line = some row
  /-- The row that is found is there, and it is the one that is given. -/
  in_range : ∀ line row, index.nearest? line = some row →
    ∃ inside : row < index.size, index.atOrBefore? line = some (index.entries.get ⟨row, inside⟩)
  out_of_range : ∀ line, index.nearest? line = none → index.atOrBefore? line = none

theorem finds_nearest (index : Index) : index.FindsNearest where
  found_iff line row := index.nearest?_eq_iff line (some row)
  none_iff line := index.nearest?_eq_iff line none
  monotone := index.monotone_nearest?
  on_entry := by
    intro entry hentry
    obtain ⟨row, standing⟩ := List.mem_iff_getElem?.1 hentry
    exact ⟨row, position?_of_standing standing, nearest?_of_standing standing⟩
  in_range := by
    intro line row hrow
    obtain ⟨⟨entry, standing, _⟩, _⟩ := (nearest?_eq_iff index line (some row)).1 hrow
    obtain ⟨inside, hentry⟩ := List.getElem?_eq_some_iff.1 standing
    refine ⟨inside, ?_⟩
    rw [atOrBefore?, hrow, Option.bind_some, get?, standing, ← hentry]
    rfl
  out_of_range := by
    intro line hrow
    rw [atOrBefore?, hrow, Option.bind_none]

end Index

namespace Session

/-- The viewport has the row of the line highlighted, with as many rows above it as asked
for, or all there are. -/
structure Frames (session : Session) (line : Nat) (viewport : Viewport) : Prop where
  focused_eq : viewport.focused = session.index.nearest? line
  above : ∀ row, viewport.focused = some row →
    viewport.first ≤ row ∧ row - viewport.first = min row session.settings.entriesAbove
  top : viewport.focused = none → viewport.first = 0

theorem frames_scrollTarget (session : Session) (line : Nat) :
    session.Frames line (session.scrollTarget line) where
  focused_eq := rfl
  above := by
    intro row hrow
    have hfirst : (session.scrollTarget line).first = row - session.settings.entriesAbove := by
      rw [scrollTarget, show session.index.nearest? line = some row from hrow]
      rfl
    rw [hfirst]
    omega
  top := by
    intro hrow
    rw [scrollTarget, show session.index.nearest? line = none from hrow]
    rfl

/-- Whatever operations made the index of a session, and whatever its settings are, the
nearest row is found for every line, and the viewport for the line shows it. -/
theorem scroll_target_shows_nearest (session : Session) :
    session.index.FindsNearest ∧
      ∀ line, session.Frames line (session.scrollTarget line) :=
  ⟨session.index.finds_nearest, session.frames_scrollTarget⟩

end Session

end RegionOutline
