import RegionOutline.Proofs.Engine.Machine

/-!
# Idle machines

Whatever the host does, whoever posts messages and however the threads take their
turns, the report of the scan under way is never lost: some thread will still make
it, or it waits in the queue. An owner that finds neither threads nor messages left
therefore leaves a session with no scan under way.
-/

namespace RegionOutline

namespace Machine

variable {settings : Settings} {machine after : Machine} {action : Action}
variable {schedule : List Action}

/-- The report of the scan under way is still to come: a thread will make it, or
it waits in the queue. -/
structure Owes (machine : Machine) (revision : Nat) : Prop where
  current : machine.engine.session.revision = revision
  report : (∃ thread ∈ machine.threads,
      thread.revision = revision ∧ thread.progress.isPending = true) ∨
    ∃ token entries, .scanCompleted revision token entries ∈ machine.engine.queue ∧
      machine.engine.session.rebuildScope.isCurrent token = true

/-- The record of messages is right, every thread runs a scan asked for, the scan
under way is not forgotten, and the owner finds no threads only if there are none. -/
structure Sound (settings : Settings) (machine : Machine) : Prop where
  session_eq : machine.engine.session = Session.afterMessages settings machine.handled
  workers_eq : machine.engine.workers = []
  serves : ∀ thread ∈ machine.threads, thread.Serves settings machine.handled
  owes : ∀ revision, machine.engine.session.inFlight = some revision → machine.Owes revision
  accounted : machine.control = .receiving false → machine.threads = []

theorem sound_start (settings : Settings) (host : Host) (view : View) :
    (start settings host view).Sound settings where
  session_eq := rfl
  workers_eq := rfl
  serves := by simp [start]
  owes := by simp [start]
  accounted := by simp [start]

theorem Owes.post {revision : Nat} (owes : machine.Owes revision) (message : Message) :
    Owes { machine with engine := machine.engine.post message } revision := by
  refine ⟨owes.current, ?_⟩
  rcases owes.report with hthread | ⟨token, entries, hmem, hcurrent⟩
  · exact Or.inl hthread
  · exact Or.inr ⟨token, entries, List.mem_append_left _ hmem, hcurrent⟩

/-- A thread that serves the current revision holds a live token. -/
theorem Sound.isLive (sound : machine.Sound settings) {thread : Thread}
    (hmem : thread ∈ machine.threads)
    (hrevision : machine.engine.session.revision = thread.revision) :
    machine.engine.session.rebuildScope.isCurrent thread.token = true := by
  obtain ⟨later, asked⟩ := (sound.serves thread hmem).asked
  rw [sound.session_eq] at hrevision ⊢
  exact (Session.isCurrent_iff_of_asked asked).2 hrevision

theorem Sound.owes_work (sound : machine.Sound settings) {revision position : Nat}
    {thread : Thread} (standing : machine.threads[position]? = some thread)
    (owes : machine.Owes revision) : (machine.work position thread).Owes revision := by
  refine ⟨owes.current, ?_⟩
  rcases owes.report with ⟨other, hother, hrevision, hpending⟩ | ⟨token, entries, hmem, hcurrent⟩
  · obtain ⟨place, hplace⟩ := List.getElem?_of_mem hother
    by_cases hsame : position = place
    · -- The thread that owes the report moves: its token is live, so it goes on.
      obtain rfl : thread = other := by
        rw [hsame, hplace] at standing
        exact (Option.some.inj standing).symm
      have hcurrent := sound.isLive hother (owes.current.trans hrevision.symm)
      have hlive := ((CancelScope.isCurrent_iff _ _).1 hcurrent).2
      rcases Thread.isPending_step hpending with hstep | ⟨entries, hsends⟩
      · left
        refine ⟨thread.step true, ?_, hrevision, hstep⟩
        rw [← hlive]
        exact List.mem_of_getElem? (List.getElem?_set_self (List.getElem?_eq_some_iff.1 standing).1)
      · right
        rw [hrevision] at hsends
        exact ⟨thread.token, entries, List.mem_append_right _ hsends, hcurrent⟩
    · left
      refine ⟨other, ?_, hrevision, hpending⟩
      exact List.mem_of_getElem? ((List.getElem?_set_ne hsame).trans hplace)
  · exact Or.inr ⟨token, entries, List.mem_append_left _ hmem, hcurrent⟩

section Handling

variable {message : Message} {waiting echoes : List Message}

/-- The queue a message was taken from still holds every other report. -/
theorem Owes.handle {revision : Nat} (owes : machine.Owes revision)
    (handles : machine.Handles message waiting echoes after)
    (source : machine.engine.queue = message :: waiting ∨
      machine.engine.queue = waiting ∧ message.isReport = false)
    (quiet : message.supersedes = false)
    (dropped : machine.engine.session.publishes message = false) : after.Owes revision := by
  have same := handles.sameOutline
  obtain ⟨hrevision, hscope⟩ := machine.engine.session.handle_not_superseding quiet
  refine ⟨by rw [← same.revision_eq, hrevision, owes.current], ?_⟩
  rcases owes.report with ⟨thread, hthread, hserves⟩ | ⟨token, entries, hmem, hcurrent⟩
  · left
    refine ⟨thread, ?_, hserves⟩
    rw [handles.threads_eq]
    exact List.mem_append_left _ hthread
  · right
    refine ⟨token, entries, ?_, by rw [← same.rebuildScope_eq, hscope, hcurrent]⟩
    rw [handles.queue_eq]
    rcases source with hqueue | ⟨hqueue, _⟩
    · rw [hqueue] at hmem
      rcases List.mem_cons.1 hmem with rfl | hrest
      · rw [Session.publishes_report.2 ⟨hcurrent, owes.current⟩] at dropped
        cases dropped
      · exact hrest
    · rwa [hqueue] at hmem

theorem Sound.handle (sound : machine.Sound settings)
    (handles : machine.Handles message waiting echoes after)
    (source : machine.engine.queue = message :: waiting ∨
      machine.engine.queue = waiting ∧ message.isReport = false)
    (moving : after.control ≠ .receiving false) : after.Sound settings := by
  constructor
  · rw [handles.session_eq, handles.handled_eq, Session.afterMessages_append, ← sound.session_eq]
    rfl
  · exact handles.workers_eq
  · intro thread hthread
    rw [handles.threads_eq] at hthread
    rw [handles.handled_eq]
    rcases List.mem_append.1 hthread with hthread | hthread
    · exact (sound.serves thread hthread).append _
    · obtain ⟨worker, hworker, rfl⟩ := List.mem_map.1 hthread
      obtain ⟨hasks, hfinished⟩ := Session.mem_workers_asks hworker
      rw [sound.session_eq] at hasks
      refine ⟨⟨echoes, machine.handled, message, rfl, hasks⟩, ?_⟩
      simp [Thread.ofWorker, hfinished, Progress.Scans]
  · intro revision hinFlight
    rw [← handles.sameOutline.inFlight_eq] at hinFlight
    rcases Session.inFlight_handle hinFlight with ⟨text, rfl, rfl⟩ | ⟨quiet, dropped, hbefore⟩
    · constructor
      · rw [← handles.sameOutline.revision_eq]
        exact (machine.engine.session.handle_superseding rfl).1
      · left
        rw [handles.threads_eq]
        exact ⟨_, List.mem_append_right _ (List.mem_singleton.2 rfl), rfl, rfl⟩
    · exact (sound.owes revision hbefore).handle handles source quiet dropped
  · intro hcontrol
    exact absurd hcontrol moving

end Handling

/-- One step keeps a machine sound. -/
theorem Sound.moves (sound : machine.Sound settings) (moves : machine.Moves action after) :
    after.Sound settings := by
  cases moves with
  | rest host control accounted =>
      refine ⟨sound.session_eq, sound.workers_eq, sound.serves, ?_, ?_⟩
      · intro revision hinFlight
        obtain ⟨current, report⟩ := sound.owes revision hinFlight
        exact ⟨current, report⟩
      · intro hcontrol
        rcases accounted hcontrol with hbefore | hnone
        · exact sound.accounted hbefore
        · exact hnone
  | post message =>
      refine ⟨sound.session_eq, sound.workers_eq, sound.serves, ?_, sound.accounted⟩
      intro revision hinFlight
      exact (sound.owes revision hinFlight).post message
  | @work position thread standing =>
      refine ⟨sound.session_eq, sound.workers_eq, ?_, ?_, ?_⟩
      · intro other hother
        rcases List.mem_or_eq_of_mem_set hother with hother | rfl
        · exact sound.serves other hother
        · exact (sound.serves thread (List.mem_of_getElem? standing)).step _
      · intro revision hinFlight
        exact sound.owes_work standing (sound.owes revision hinFlight)
      · intro hcontrol
        rw [sound.accounted hcontrol] at standing
        cases standing
  | @reap _ position thread standing ended looking =>
      refine ⟨sound.session_eq, sound.workers_eq, ?_, ?_, ?_⟩
      · intro other hother
        exact sound.serves other (List.mem_of_mem_eraseIdx hother)
      · intro revision hinFlight
        obtain ⟨current, report⟩ := sound.owes revision hinFlight
        refine ⟨current, ?_⟩
        rcases report with ⟨other, hother, hrevision, hpending⟩ | hreport
        · left
          obtain ⟨place, hplace⟩ := List.getElem?_of_mem hother
          refine ⟨other, ?_, hrevision, hpending⟩
          apply List.mem_eraseIdx_iff_getElem?.2
          refine ⟨place, ?_, hplace⟩
          rintro rfl
          rw [standing] at hplace
          cases hplace
          rw [ended] at hpending
          cases hpending
        · exact Or.inr hreport
      · intro hcontrol
        rw [looking] at hcontrol
        cases hcontrol
  | handle message waiting control source moving =>
      exact sound.handle (handles_dispatch sound.workers_eq message waiting control) source moving

theorem run_concat_eq_some {first : Machine} (h : first.run (schedule ++ [action]) = some after) :
    ∃ machine, first.run schedule = some machine ∧ machine.act action = some after := by
  rw [run_concat] at h
  exact Option.bind_eq_some_iff.1 h

/-- Every machine that a fresh one comes to is sound. -/
theorem sound_of_run {host : Host} {view : View}
    (h : (start settings host view).run schedule = some machine) : machine.Sound settings := by
  induction schedule using List.reverseRecOn generalizing machine with
  | nil =>
      cases h
      exact sound_start settings host view
  | append_singleton schedule action ih =>
      obtain ⟨before, hbefore, hact⟩ := run_concat_eq_some h
      exact (ih hbefore).moves (moves_of_act hact)

/-- The owner leaves only an idle machine. -/
theorem Sound.idle_of_leave (sound : machine.Sound settings)
    (h : machine.act .leave = some after) :
    after.threads = [] ∧ after.engine.queue = [] ∧ after.engine.session.inFlight = none := by
  simp only [act] at h
  split at h
  · cases h
    rename_i hcontrol hqueue
    have hthreads := sound.accounted hcontrol
    refine ⟨hthreads, hqueue, ?_⟩
    cases hinFlight : machine.engine.session.inFlight with
    | none => rfl
    | some revision =>
        rcases (sound.owes revision hinFlight).report with
          ⟨thread, hthread, _⟩ | ⟨token, entries, hmem, _⟩
        · rw [hthreads] at hthread
          cases hthread
        · rw [hqueue] at hmem
          cases hmem
  · cases h

end Machine

end RegionOutline
