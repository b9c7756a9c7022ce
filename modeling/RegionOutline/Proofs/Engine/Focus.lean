import RegionOutline.Proofs.Engine.Display

/-!
# Positions over new rows

A report replaces the rows, and the positions that the session holds are computed
anew only behind it, for a scroll that waits or for the caret of the host. With
nothing waiting and a host that cannot tell the caret they stay as they were,
whatever the new rows are. The main statement says exactly when they are out of
range then. The view is never misled, since it drops old positions of itself.
-/

namespace RegionOutline

namespace Session

variable {before after : Session} {vain : Bool} {calls : List ViewCall}

/-- The positions that the session holds are among its rows. -/
def Fits (session : Session) : Prop :=
  session.viewport.Fits session.index.size

/-- Positions stay in range, unless the host was asked in vain. -/
theorem Shows.fits (shows : before.Shows after false calls) (fits : before.Fits) : after.Fits := by
  cases shows with
  | nothing index_eq viewport_eq =>
      unfold Fits
      rw [index_eq, viewport_eq]
      exact fits
  | focus row index_eq viewport_eq inside =>
      unfold Fits
      rw [viewport_eq]
      refine ⟨inside, ?_⟩
      rw [index_eq]
      exact fits.first
  | scroll _ fits => exact fits
  | clear _ viewport_eq =>
      unfold Fits
      rw [viewport_eq]
      exact ⟨by simp, Or.inl rfl⟩
  | replace fits => exact fits

/-- If it was, the old positions are those that have to be in range. -/
theorem Shows.fits_iff (shows : before.Shows after vain calls) (fits : before.Fits) :
    after.Fits ↔ (vain = true → before.viewport.Fits after.index.size) := by
  cases vain with
  | false =>
      have hafter := shows.fits fits
      simp [hafter]
  | true =>
      cases shows with
      | blind viewport_eq =>
          unfold Fits
          rw [viewport_eq]
          simp

end Session

namespace Machine

variable {settings : Settings} {machine : Machine} {schedule : List Action}

/-- Where a step comes to ask in vain for the caret, the positions from before it
are among the rows from after it. -/
def Spares (machine : Machine) (action : Action) (next : Machine) : Prop :=
  machine.asksInVain action = true →
    machine.engine.session.viewport.Fits next.engine.session.index.size

theorem eachStep_fits_iff (sound : machine.Sound settings) (fits : machine.engine.session.Fits) :
    machine.EachStep (fun _ _ next => next.engine.session.Fits) schedule ↔
      machine.EachStep Spares schedule := by
  induction schedule generalizing machine with
  | nil => exact Iff.rfl
  | cons action rest ih =>
      constructor
      · intro steps next hact
        obtain ⟨calls, _, shows⟩ := shows_act sound.pendingLive hact
        obtain ⟨hnext, later⟩ := steps next hact
        have hlater := (ih (sound.moves (moves_of_act hact)) hnext).1 later
        exact ⟨(shows.fits_iff fits).1 hnext, hlater⟩
      · intro steps next hact
        obtain ⟨calls, _, shows⟩ := shows_act sound.pendingLive hact
        obtain ⟨spares, later⟩ := steps next hact
        have hnext := (shows.fits_iff fits).2 spares
        exact ⟨hnext, (ih (sound.moves (moves_of_act hact)) hnext).2 later⟩

theorem eachStep_view_fits (sound : machine.Sound settings)
    (fits : machine.engine.view.viewport.Fits machine.engine.view.entries.length)
    (schedule : List Action) :
    machine.EachStep
      (fun _ _ next => next.engine.view.viewport.Fits next.engine.view.entries.length)
      schedule := by
  have kept : machine.EachStep (fun _ _ next => next.Sound settings ∧
      next.engine.view.viewport.Fits next.engine.view.entries.length) schedule := by
    apply eachStep_of_kept ?_ ⟨sound, fits⟩
    rintro machine action next ⟨sound, fits⟩ hact
    obtain ⟨calls, told, _⟩ := shows_act sound.pendingLive hact
    refine ⟨sound.moves (moves_of_act hact), ?_⟩
    rw [told.view_eq]
    exact View.fits_foldl fits calls
  exact kept.imp (fun _ _ _ h => h.2)

/-- However events and messages come in, the positions of the session are among its
rows after each step if and only if, at each step that asked the host in vain for the
caret, the positions from before are among the rows from after. So they are if the
host always tells a line. Those of the view are in any case. -/
theorem viewport_fits_iff (settings : Settings) (host : Host) (view : View)
    (schedule : List Action) :
    ((start settings host view).EachStep (fun _ _ next => next.engine.session.Fits) schedule ↔
        (start settings host view).EachStep Spares schedule) ∧
      ((start settings host view).TellsCaret schedule →
        (start settings host view).EachStep (fun _ _ next => next.engine.session.Fits) schedule) ∧
      (view.viewport.Fits view.entries.length →
        (start settings host view).EachStep
          (fun _ _ next => next.engine.view.viewport.Fits next.engine.view.entries.length)
          schedule) := by
  have sound := sound_start settings host view
  have fresh : (start settings host view).engine.session.Fits :=
    ⟨by simp [start, Session.viewport], Or.inl rfl⟩
  refine ⟨eachStep_fits_iff sound fresh, ?_, ?_⟩
  · intro tells
    apply (eachStep_fits_iff sound fresh).2
    apply tells.imp
    intro machine action next hvain asked
    rw [hvain] at asked
    cases asked
  · intro fits
    exact eachStep_view_fits sound fits schedule

/-- The only row is highlighted; then the document is emptied while the host hides
its caret, and scanned again. -/
def emptied : List Action :=
  [.event .opened, .work 0, .work 0, .work 0, .work 0, .take,
    .change { document := {}, hidesLine := true }, .event .textChanged, .work 1, .work 1, .work 1,
    .take]

theorem not_viewport_always_fits :
    ¬ ∀ settings host view schedule machine,
      (start settings host view).run schedule = some machine → machine.engine.session.Fits := by
  intro h
  have hrun : ((start {} { document := { content := "public:" } } {}).run emptied).map
      (fun machine => (machine.engine.session.focused, machine.engine.session.index.size)) =
        some (some 0, 0) := by
    decide +kernel
  obtain ⟨machine, run, hend⟩ := Option.map_eq_some_iff.1 hrun
  obtain ⟨hfocused, hsize⟩ := Prod.mk.inj hend
  have fits := h _ _ _ _ machine run
  have hlt := fits.focused 0 hfocused
  rw [hsize] at hlt
  exact absurd hlt (Nat.lt_irrefl 0)

end Machine

end RegionOutline
