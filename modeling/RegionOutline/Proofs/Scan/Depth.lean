import Mathlib.Algebra.Group.Nat.Defs
import Mathlib.Algebra.Ring.Int.Defs
import Mathlib.Data.List.Induction
import RegionOutline.Proofs.Scan.Nesting

/-!
# Depth accounting

The depth of a scanner in closed form, on any lines, balanced or not: region
openers minus region closers, plus one while an implicit access block is open.
The root of that block is the balance at which it was opened, and the block ends
with the first closer that takes the balance below it.
-/

namespace RegionOutline

/-- Whether the marker opens a region, of the access or of the plain style. -/
def Marker.isOpener : Marker → Bool
  | .openAccess _ | .openRegion _ _ => true
  | .specifier _ | .close => false

namespace Scan

/-- The state of a scanner that has read the lines from the start. -/
def stateAfter (lines : List (List Char)) : ScanState :=
  (({} : Scanner).feedAll lines).state

/-- The number of region openers among the lines. -/
def openers (lines : List (List Char)) : Nat :=
  lines.countP fun line => (Marker.ofLine? line).any Marker.isOpener

/-- The number of region closers among the lines. -/
def closers (lines : List (List Char)) : Nat :=
  lines.countP fun line => Marker.ofLine? line = some .close

/-- Openers minus closers, negative where closers prevail. -/
def balance (lines : List (List Char)) : Int :=
  openers lines - closers lines

/-- How far a line with the given marker moves the balance. -/
def weight : Option Marker → Int
  | some (.openAccess _) | some (.openRegion _ _) => 1
  | some .close => -1
  | some (.specifier _) | none => 0

/-- The level that an open implicit block adds to the depth. -/
def implicitLevel : Option Int → Int
  | none => 0
  | some _ => 1

@[simp] theorem stateAfter_nil : stateAfter [] = {} := rfl

theorem stateAfter_eq_read (lines : List (List Char)) :
    stateAfter lines = ({} : ScanState).read lines := by
  simp [stateAfter]

theorem stateAfter_append (first second : List (List Char)) :
    stateAfter (first ++ second) = (stateAfter first).read second := by
  simp [stateAfter]

theorem stateAfter_concat (lines : List (List Char)) (line : List Char) :
    stateAfter (lines ++ [line]) = (stateAfter lines).step (Marker.ofLine? line) :=
  stateAfter_append lines [line]

theorem nested_stateAfter (lines : List (List Char)) : (stateAfter lines).Nested := by
  rw [stateAfter_eq_read]
  exact ScanState.nested_read_initial lines

@[simp] theorem balance_nil : balance [] = 0 := rfl

theorem balance_append (first second : List (List Char)) :
    balance (first ++ second) = balance first + balance second := by
  simp only [balance, openers, closers, List.countP_append]
  omega

theorem balance_singleton (line : List Char) : balance [line] = weight (Marker.ofLine? line) := by
  unfold balance openers closers
  rcases hmarker : Marker.ofLine? line with _ | (_ | _ | _ | _) <;>
    simp [hmarker, weight, Marker.isOpener]

theorem balance_concat (lines : List (List Char)) (line : List Char) :
    balance (lines ++ [line]) = balance lines + weight (Marker.ofLine? line) := by
  rw [balance_append, balance_singleton]

theorem natAbs_weight_le (marker : Option Marker) : (weight marker).natAbs ≤ 1 := by
  rcases marker with _ | (_ | _ | _ | _) <;> simp [weight]

theorem natAbs_balance_le (lines : List (List Char)) : (balance lines).natAbs ≤ lines.length := by
  induction lines using List.reverseRecOn with
  | nil => simp
  | append_singleton lines line ih =>
      have hweight := natAbs_weight_le (Marker.ofLine? line)
      rw [balance_concat, List.length_append, List.length_singleton]
      omega

/-- Only a closer takes the balance down. -/
theorem eq_close_of_weight_neg {marker : Option Marker} (h : weight marker < 0) :
    marker = some .close := by
  rcases marker with _ | (_ | _ | _ | _) <;> simp [weight] at h ⊢

/-- One line moves the depth and the balance alike, an implicit block counted. -/
theorem depth_step {state : ScanState} {count : Int}
    (h : state.depth = count + implicitLevel state.implicitRoot) (marker : Option Marker) :
    (state.step marker).depth =
      count + weight marker + implicitLevel (state.step marker).implicitRoot := by
  match marker with
  | none =>
      simp only [ScanState.step, weight]
      omega
  | some (.specifier level) =>
      cases hroot : state.implicitRoot with
      | none =>
          rw [hroot] at h
          simp only [ScanState.step, ScanState.specify, hroot, implicitLevel, weight] at h ⊢
          omega
      | some root =>
          rw [hroot] at h
          simp only [ScanState.step, ScanState.specify, hroot, implicitLevel, weight] at h ⊢
          omega
  | some (.openAccess level) =>
      simp only [ScanState.step, ScanState.enter, weight]
      omega
  | some (.openRegion tag description) =>
      simp only [ScanState.step, weight]
      omega
  | some .close =>
      simp only [ScanState.step, ScanState.closeRegion, weight]
      split
      · rename_i hroot
        rw [hroot] at h
        simp only [ScanState.returnTo, implicitLevel] at h ⊢
        omega
      · simp only [ScanState.returnTo]
        omega

/-- The depth is the balance, and one more inside an implicit block. -/
theorem depth_stateAfter (lines : List (List Char)) :
    (stateAfter lines).depth =
      balance lines + implicitLevel (stateAfter lines).implicitRoot := by
  induction lines using List.reverseRecOn with
  | nil => rfl
  | append_singleton lines line ih =>
      rw [stateAfter_concat, balance_concat]
      exact depth_step ih _

theorem root_le_balance {lines : List (List Char)} {root : Int}
    (hroot : (stateAfter lines).implicitRoot = some root) : root ≤ balance lines := by
  have hlt := (nested_stateAfter lines).root_lt root hroot
  have hdepth := depth_stateAfter lines
  rw [hroot] at hdepth
  simp only [implicitLevel] at hdepth
  omega

/-- Only a specifier opens an implicit block, at the current depth. -/
theorem specifier_of_root_opened {state : ScanState} {marker : Option Marker} {root : Int}
    (hnone : state.implicitRoot = none) (hroot : (state.step marker).implicitRoot = some root) :
    (∃ level, marker = some (.specifier level)) ∧ root = state.depth := by
  match marker with
  | none => simp [ScanState.step, hnone] at hroot
  | some (.specifier level) =>
      simp only [ScanState.step, ScanState.specify, hnone, Option.some.injEq] at hroot
      exact ⟨⟨level, rfl⟩, hroot.symm⟩
  | some (.openAccess level) => simp [ScanState.step, ScanState.enter, hnone] at hroot
  | some (.openRegion tag description) => simp [ScanState.step, hnone] at hroot
  | some .close =>
      simp [ScanState.step, ScanState.closeRegion, ScanState.returnTo, hnone] at hroot

/-- A line leaves an implicit block open unless it takes the balance below the
root, and then it ends the block. -/
theorem implicitRoot_concat_of_open {lines : List (List Char)} {root : Int}
    (hroot : (stateAfter lines).implicitRoot = some root) (line : List Char) :
    (stateAfter (lines ++ [line])).implicitRoot =
      if balance (lines ++ [line]) < root then none else some root := by
  have hle := root_le_balance hroot
  have hdepth := depth_stateAfter lines
  rw [hroot] at hdepth
  simp only [implicitLevel] at hdepth
  rw [stateAfter_concat, balance_concat]
  match Marker.ofLine? line with
  | none => simp [ScanState.step, weight, hroot, hle]
  | some (.specifier level) => simp [ScanState.step, ScanState.specify, weight, hroot, hle]
  | some (.openAccess level) =>
      have hopen : ¬ balance lines + 1 < root := by omega
      simp [ScanState.step, ScanState.enter, weight, hroot, hopen]
  | some (.openRegion tag description) =>
      have hopen : ¬ balance lines + 1 < root := by omega
      simp [ScanState.step, weight, hroot, hopen]
  | some .close =>
      have hweight : weight (some .close) = -1 := rfl
      simp only [ScanState.step, ScanState.closeRegion, hroot, Option.some.injEq]
      by_cases hbottom : root = (stateAfter lines).depth - 1
      · rw [if_pos hbottom, if_pos (by omega)]
        rfl
      · rw [if_neg hbottom, if_neg (by omega)]
        exact hroot

/-- The block with the given root was opened by the line after `before` and has
been open through all of `after`. -/
structure OpenSince (before : List (List Char)) (line : List Char) (after : List (List Char))
    (root : Int) : Prop where
  specifier : ∃ level, Marker.ofLine? line = some (.specifier level)
  closed_before : (stateAfter before).implicitRoot = none
  root_eq : root = balance before
  open_throughout : ∀ part, part <+: after →
    (stateAfter (before ++ line :: part)).implicitRoot = some root

/-- Every implicit block that is open has been open since its specifier. -/
theorem exists_openSince {lines : List (List Char)} {root : Int}
    (hroot : (stateAfter lines).implicitRoot = some root) :
    ∃ before line after, lines = before ++ line :: after ∧ OpenSince before line after root := by
  induction lines using List.reverseRecOn with
  | nil => simp at hroot
  | append_singleton lines line ih =>
      cases hbefore : (stateAfter lines).implicitRoot with
      | none =>
          -- The block is opened by the last line.
          have hstep := hroot
          rw [stateAfter_concat] at hstep
          obtain ⟨hspecifier, hdepth⟩ := specifier_of_root_opened hbefore hstep
          have hbalance := depth_stateAfter lines
          rw [hbefore] at hbalance
          refine ⟨lines, line, [], rfl, hspecifier, hbefore, ?_, ?_⟩
          · simp only [implicitLevel] at hbalance
            omega
          · intro part hpart
            rw [List.prefix_nil.1 hpart]
            exact hroot
      | some older =>
          -- The last line has kept an older block open.
          have hkept := implicitRoot_concat_of_open hbefore line
          rw [hroot] at hkept
          obtain rfl : older = root := by
            split at hkept
            · cases hkept
            · exact (Option.some.inj hkept).symm
          obtain ⟨before, opening, after, rfl, since⟩ := ih hbefore
          refine ⟨before, opening, after ++ [line], by simp, since.specifier,
            since.closed_before, since.root_eq, ?_⟩
          intro part hpart
          rcases List.prefix_concat_iff.1 hpart with rfl | hpart
          · simpa using hroot
          · exact since.open_throughout part hpart

/-- The block stays open while the balance does not fall below its root. -/
theorem root_stays_open {lines later : List (List Char)} {root : Int}
    (hroot : (stateAfter lines).implicitRoot = some root)
    (above : ∀ part, part <+: later → root ≤ balance (lines ++ part)) :
    (stateAfter (lines ++ later)).implicitRoot = some root := by
  induction later using List.reverseRecOn with
  | nil => simpa using hroot
  | append_singleton later line ih =>
      have hopen := ih fun part hpart =>
        above part (hpart.trans (List.prefix_append later [line]))
      have hbalance := above (later ++ [line]) List.prefix_rfl
      rw [← List.append_assoc] at hbalance ⊢
      rw [implicitRoot_concat_of_open hopen, if_neg (by omega)]

/-- The first line that takes the balance below the root is a closer and ends
the block. -/
theorem root_closed_below {lines later : List (List Char)} {root : Int} {last : List Char}
    (hroot : (stateAfter lines).implicitRoot = some root)
    (above : ∀ part, part <+: later → root ≤ balance (lines ++ part))
    (below : balance (lines ++ later ++ [last]) < root) :
    Marker.ofLine? last = some .close ∧
      (stateAfter (lines ++ later ++ [last])).implicitRoot = none := by
  have hopen := root_stays_open hroot above
  have hbalance := above later List.prefix_rfl
  constructor
  · apply eq_close_of_weight_neg
    rw [balance_concat] at below
    omega
  · rw [implicitRoot_concat_of_open hopen, if_pos below]

/-- The depth is at most the number of lines, in either direction. The line that
opened an implicit block counts for the level that the block adds. -/
theorem natAbs_depth_le (lines : List (List Char)) :
    (stateAfter lines).depth.natAbs ≤ lines.length := by
  have hdepth := depth_stateAfter lines
  cases hroot : (stateAfter lines).implicitRoot with
  | none =>
      rw [hroot] at hdepth
      have hbalance := natAbs_balance_le lines
      simp only [implicitLevel] at hdepth
      omega
  | some root =>
      rw [hroot] at hdepth
      obtain ⟨before, line, after, rfl, since⟩ := exists_openSince hroot
      obtain ⟨level, hlevel⟩ := since.specifier
      have hbefore := natAbs_balance_le before
      have hafter := natAbs_balance_le after
      have hsplit : balance (before ++ line :: after) = balance before + balance after := by
        rw [List.append_cons, balance_append, balance_concat, hlevel]
        simp [weight]
      simp only [implicitLevel] at hdepth
      simp only [List.length_append, List.length_cons]
      omega

theorem accessRowDepth_stateAfter (lines : List (List Char)) :
    (stateAfter lines).accessRowDepth = balance lines := by
  have hdepth := depth_stateAfter lines
  unfold ScanState.accessRowDepth
  cases hroot : (stateAfter lines).implicitRoot with
  | none =>
      rw [hroot] at hdepth
      simpa [implicitLevel] using hdepth
  | some root =>
      rw [hroot] at hdepth
      simp only [implicitLevel] at hdepth
      simp only [Option.isNone_some, Bool.false_eq_true, if_false]
      omega

/-- A number that a signed counter of 64 bits can hold. -/
def FitsCounter (number : Int) : Prop := -2 ^ 63 ≤ number ∧ number < 2 ^ 63

/-- What the counts of openers and closers among the lines tell about the
scanner that has read them. -/
structure Accounted (lines : List (List Char)) : Prop where
  depth_eq : (stateAfter lines).depth =
    (openers lines : Int) - closers lines + implicitLevel (stateAfter lines).implicitRoot
  /-- The root is the balance at which the block was opened. -/
  opened : ∀ root, (stateAfter lines).implicitRoot = some root → root ≤ balance lines ∧
    ∃ before line after, lines = before ++ line :: after ∧ OpenSince before line after root
  /-- As long as the balance does not fall below its root the block stays open. -/
  stays_open : ∀ root, (stateAfter lines).implicitRoot = some root →
    ∀ later, (∀ part, part <+: later → root ≤ balance (lines ++ part)) →
      (stateAfter (lines ++ later)).implicitRoot = some root
  /-- What first takes the balance below the root is a closer, which ends the
  block. -/
  closed : ∀ root, (stateAfter lines).implicitRoot = some root →
    ∀ later last, (∀ part, part <+: later → root ≤ balance (lines ++ part)) →
      balance (lines ++ later ++ [last]) < root →
      Marker.ofLine? last = some .close ∧
        (stateAfter (lines ++ later ++ [last])).implicitRoot = none
  region_indent : ∀ line tag description,
    Marker.ofLine? line = some (.openRegion tag description) →
    ∃ entry, ((({} : Scanner).feedAll lines).feed line).2 = some entry ∧
      entry.indent =
        Entry.clampIndent (balance lines + implicitLevel (stateAfter lines).implicitRoot)
  access_indent : ∀ line level,
    Marker.ofLine? line = some (.specifier level) ∨
      Marker.ofLine? line = some (.openAccess level) →
    ∃ entry, ((({} : Scanner).feedAll lines).feed line).2 = some entry ∧
      entry.indent = Entry.clampIndent (balance lines)
  depth_le : (stateAfter lines).depth.natAbs ≤ lines.length
  depth_fits : lines.length < 2 ^ 63 → FitsCounter (stateAfter lines).depth
  /-- Nor does a next line leave the range on its way to the new depth. -/
  next_depth_fits : lines.length + 1 < 2 ^ 63 →
    FitsCounter ((stateAfter lines).depth - 1) ∧ FitsCounter ((stateAfter lines).depth + 1)

/-- The depth, the root of the implicit block and the indent of every entry are
what the counts of openers and closers make them, on any lines. -/
theorem depth_accounting (lines : List (List Char)) : Accounted lines where
  depth_eq := depth_stateAfter lines
  opened _ hroot := ⟨root_le_balance hroot, exists_openSince hroot⟩
  stays_open _ hroot _ above := root_stays_open hroot above
  closed _ hroot _ _ above below := root_closed_below hroot above below
  region_indent := by
    intro line tag description hmarker
    refine ⟨_, by rw [Scanner.feed, hmarker]; rfl, ?_⟩
    rw [← depth_stateAfter]
    rfl
  access_indent := by
    intro line level hmarker
    rcases hmarker with hmarker | hmarker
    all_goals
      refine ⟨_, by rw [Scanner.feed, hmarker]; rfl, ?_⟩
      rw [← accessRowDepth_stateAfter]
      rfl
  depth_le := natAbs_depth_le lines
  depth_fits := by
    intro hlength
    have hdepth := natAbs_depth_le lines
    constructor <;> omega
  next_depth_fits := by
    intro hlength
    have hdepth := natAbs_depth_le lines
    refine ⟨⟨?_, ?_⟩, ⟨?_, ?_⟩⟩ <;> omega

end Scan

end RegionOutline
