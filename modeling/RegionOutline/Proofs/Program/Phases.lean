import RegionOutline.Program
import RegionOutline.Proofs.Engine.Display
import RegionOutline.Proofs.Engine.Internal

/-!
# The phases of a run over one text

The program opens one text, waits until its scan has been shown, and prints the view.
A run with a thread for the scan passes through three phases: the scan is under way,
its report waits in the queue, the rows are shown. Only in the last one can the owner
leave, and there the view is the same however the steps were mixed.
-/

namespace RegionOutline

namespace Startup

variable {startup : Startup} {content : String}

/-- The line that the caret is on. -/
def caret (startup : Startup) : Nat :=
  startup.caretLine.elim 1 (max · 1)

theorem message_opened (startup : Startup) (content : String) :
    HostEvent.opened.message (startup.engine content).host = .rebuild (some content) := by
  unfold engine
  cases startup.caretLine <;> rfl

theorem line?_engine (startup : Startup) (content : String) :
    (startup.engine content).host.line? = some startup.caret := by
  unfold engine caret
  cases startup.caretLine <;> rfl

/-- The engine while the scan of its text is under way. -/
def scanning (startup : Startup) (content : String) : Engine :=
  { startup.engine content with
    session := ((startup.engine content).session.rebuild (some content)).1 }

def worker (content : String) : Worker where
  revision := 1
  source := content
  token := ⟨0, 0⟩

/-- What the scan reports. -/
def report (content : String) : Message :=
  .scanCompleted 1 ⟨0, 0⟩ (scan content)

theorem dispatch_opened (startup : Startup) (content : String) :
    (startup.engine content).dispatch (HostEvent.opened.message (startup.engine content).host) =
      (startup.scanning content).withWorkers [worker content] := by
  rw [message_opened]
  rfl

theorem isLive_scanning (startup : Startup) (content : String) :
    (startup.scanning content).session.rebuildScope.isLive (worker content).token = true := rfl

theorem report?_worker (startup : Startup) (content : String) :
    (worker content).report? (startup.scanning content).session.rebuildScope =
      some (report content) := by
  rw [Worker.report?_eq, isLive_scanning]
  rfl

/-- The engine once the report is handled. -/
def shown (startup : Startup) (content : String) : Engine :=
  (startup.scanning content).dispatch (report content)

theorem handleEvent_opened (startup : Startup) (content : String) :
    (startup.engine content).handleEvent .opened =
      ((startup.scanning content).withQueue [report content]).withWorkers
        [(worker content).finish] := by
  have hreports : [worker content].filterMap
      (Worker.report? (startup.scanning content).session.rebuildScope) = [report content] := by
    simp [report?_worker]
  unfold Engine.handleEvent
  rw [dispatch_opened]
  change ((startup.scanning content).withQueue ([] ++ [worker content].filterMap
    (Worker.report? (startup.scanning content).session.rebuildScope))).withWorkers _ = _
  rw [hreports]
  rfl

/-- The view that is printed is the one that the report leaves. -/
theorem view_eq (startup : Startup) (content : String) :
    startup.view content = (startup.shown content).view := by
  unfold view Engine.runUntilIdle
  rw [handleEvent_opened]
  have hqueue : (((startup.scanning content).withQueue [report content]).withWorkers
      [(worker content).finish]).finishScans.queue = [report content] := rfl
  change (Engine.settle 1 _).view = _
  rw [Engine.settle_of_cons 0 hqueue]
  have hdispatch := (startup.scanning content).dispatch_withWorkers
    [(worker content).finish.finish] (report content)
  change (((startup.scanning content).withWorkers [(worker content).finish.finish]).dispatch
    (report content)).view = _
  rw [hdispatch]
  rfl

/-- The session that has taken over the outline of the text. -/
def loaded (startup : Startup) (content : String) : Session :=
  { (startup.scanning content).session with index := .ofEntries (scan content), inFlight := none }

theorem entries_loaded (startup : Startup) (content : String) :
    (startup.loaded content).index.entries = scan content :=
  Index.entries_ofEntries (pairwise_scan content)

/-- The report is taken over, and the caret of the host decides on the viewport. -/
theorem shown_eq (startup : Startup) (content : String) :
    startup.shown content =
      ({ startup.scanning content with session := startup.loaded content }.tell
        (.publish (startup.loaded content).index.entries)).scrollToCaret := by
  have pass : (startup.scanning content).session.rebuildScope.isCurrent ⟨0, 0⟩ = true ∧
      (startup.scanning content).session.revision = 1 := ⟨rfl, rfl⟩
  unfold shown
  rw [Engine.dispatch_eq, report]
  simp only [Session.asks, Session.handle, Session.completeScan_of_pass (scan content) pass]
  rfl

/-- The viewport for the caret. -/
def target (startup : Startup) (content : String) : Viewport :=
  (startup.loaded content).scrollTarget startup.caret

/-- The view that the report leaves. -/
theorem view_shown (startup : Startup) (content : String) :
    (startup.shown content).view =
      { entries := scan content
        firstVisible := (startup.target content).first
        focused := (startup.target content).focused
        generation := 1
        options := (startup.engine content).view.options } := by
  have told := (Engine.told_scrollToCaret_some
    ({ startup.scanning content with session := startup.loaded content }.tell
      (.publish (startup.loaded content).index.entries)) rfl (startup.line?_engine content)).1
  have fits := (startup.loaded content).scrollTarget_fits startup.caret
  have hview := ((startup.engine content).view.publish
    (startup.loaded content).index.entries).foldl_viewport (startup.target content) fits
  rw [shown_eq, told.view_eq]
  refine hview.trans ?_
  rw [entries_loaded]
  rfl

theorem carriedOut_shown (startup : Startup) (content : String) :
    (startup.shown content).queue = [] ∧ (startup.shown content).workers = [] := by
  have done := (startup.scanning content).carriedOut_dispatch (report content)
  have hasked := ((startup.scanning content).session.answers_asks (report content)).workers_eq
  constructor
  · exact done.queue_eq
  · refine done.workers_eq.trans ?_
    rw [hasked]
    rfl

/-- The machine of a text that is about to be opened. -/
def machine (startup : Startup) (content : String) : Machine where
  engine := startup.engine content

def thread (content : String) (progress : Progress) : Thread where
  revision := 1
  source := content
  token := ⟨0, 0⟩
  progress := progress

/-- How far a run over one text has come. -/
inductive Phase (startup : Startup) (content : String) : Machine → Prop
  | scanning {progress : Progress} {control : Control} {handled : List Message}
      (pending : progress.isPending = true) (scans : progress.Scans content)
      (waiting : control ≠ .receiving false) :
      Phase startup content
        ⟨startup.scanning content, [thread content progress], control, handled⟩
  | reported {threads : List Thread} {control : Control} {handled : List Message}
      (quiet : ∀ thread ∈ threads, thread.progress.isPending = false) :
      Phase startup content
        ⟨(startup.scanning content).withQueue [report content], threads, control, handled⟩
  | shown {threads : List Thread} {control : Control} {handled : List Message}
      (quiet : ∀ thread ∈ threads, thread.progress.isPending = false) :
      Phase startup content ⟨startup.shown content, threads, control, handled⟩

variable {machine next : Machine}

theorem phase_opened (h : (startup.machine content).act (.event .opened) = some machine) :
    Phase startup content machine := by
  have hdispatch := startup.dispatch_opened content
  cases h
  unfold Machine.dispatch
  simp only [machine, hdispatch]
  exact .scanning rfl trivial (by simp)

/-- While the scan is under way, its thread goes on or reports. -/
theorem phase_work {progress : Progress} {control : Control} {handled : List Message}
    (pending : progress.isPending = true) (scans : progress.Scans content)
    (waiting : control ≠ .receiving false) :
    Phase startup content
      (Machine.work ⟨startup.scanning content, [thread content progress], control, handled⟩ 0
        (thread content progress)) := by
  have next := scans.next
  match progress with
  | .starting => exact .scanning rfl next waiting
  | .scanning scanner (line :: rest) made => exact .scanning rfl next waiting
  | .scanning scanner [] made => exact .scanning rfl next waiting
  | .reporting entries =>
      obtain rfl : entries = scan content := scans
      apply Phase.reported
      intro thread hmem
      obtain rfl := List.mem_singleton.1 hmem
      rfl
  | .returning => cases pending
  | .ended => cases pending

theorem quiet_step {thread : Thread} (quiet : thread.progress.isPending = false) (live : Bool) :
    thread.sends = [] ∧ (thread.step live).progress.isPending = false := by
  unfold Thread.sends Thread.step
  cases hprogress : thread.progress with
  | starting => simp [hprogress, Progress.isPending] at quiet
  | scanning scanner rest made => simp [hprogress, Progress.isPending] at quiet
  | reporting entries => simp [hprogress, Progress.isPending] at quiet
  | returning => exact ⟨rfl, rfl⟩
  | ended => exact ⟨rfl, rfl⟩

/-- A thread that has nothing to report changes nothing but itself. -/
theorem work_of_quiet {position : Nat} {thread : Thread}
    (quiet : ∀ thread ∈ machine.threads, thread.progress.isPending = false)
    (standing : machine.threads[position]? = some thread) :
    ∃ threads, machine.work position thread = { machine with threads } ∧
      ∀ thread ∈ threads, thread.progress.isPending = false := by
  obtain ⟨hsends, hstep⟩ := quiet_step (quiet thread (List.mem_of_getElem? standing))
    (machine.engine.session.rebuildScope.isLive thread.token)
  refine ⟨machine.threads.set position (thread.step
    (machine.engine.session.rebuildScope.isLive thread.token)), ?_, ?_⟩
  · unfold Machine.work
    rw [hsends, List.append_nil]
  · intro other hmem
    cases List.mem_or_eq_of_mem_set hmem with
    | inl hother => exact quiet other hother
    | inr hsame => exact hsame ▸ hstep

/-- With its report the rows are shown. -/
theorem phase_received {threads : List Thread} {control : Control} {handled : List Message}
    (quiet : ∀ thread ∈ threads, thread.progress.isPending = false) (turned : Control) :
    Phase startup content
      { (Machine.withQueue ⟨(startup.scanning content).withQueue [report content], threads,
          control, handled⟩ []).dispatch (report content) with control := turned } := by
  have hworkers := (startup.carriedOut_shown content).2
  change Phase startup content ⟨(startup.shown content).withWorkers [],
    threads ++ (startup.shown content).workers.map Thread.ofWorker, turned, _⟩
  have hsame : (startup.shown content).withWorkers [] = startup.shown content := by
    rw [← hworkers]
    rfl
  rw [hsame, hworkers, List.map_nil, List.append_nil]
  exact .shown quiet

/-- A step from inside leads on to the next phase or stays in the same one. -/
theorem Phase.step (phase : Phase startup content machine) (proceeds : machine.Proceeds next) :
    Phase startup content next := by
  cases phase with
  | @scanning progress control handled pending scans waiting =>
      cases proceeds with
      | turn turned accounted =>
          apply Phase.scanning pending scans
          intro hturned
          cases accounted hturned with
          | inl hcontrol => exact waiting hcontrol
          | inr hnone => cases hnone
      | @work position thread standing =>
          cases position with
          | zero =>
              cases standing
              exact phase_work pending scans waiting
          | succ position => cases standing
      | @reap position thread standing ended =>
          cases position with
          | zero =>
              cases standing
              obtain rfl : progress = .ended := ended
              cases pending
          | succ position => cases standing
      | handle turned queue_eq moving => cases queue_eq
  | @reported threads control handled quiet =>
      cases proceeds with
      | turn turned accounted => exact .reported quiet
      | work standing =>
          obtain ⟨threads, hwork, hquiet⟩ := work_of_quiet quiet standing
          rw [hwork]
          exact .reported hquiet
      | reap standing ended =>
          apply Phase.reported
          intro thread hmem
          exact quiet thread (List.mem_of_mem_eraseIdx hmem)
      | handle turned queue_eq moving =>
          cases queue_eq
          exact phase_received quiet turned
  | @shown threads control handled quiet =>
      cases proceeds with
      | turn turned accounted => exact .shown quiet
      | work standing =>
          obtain ⟨threads, hwork, hquiet⟩ := work_of_quiet quiet standing
          rw [hwork]
          exact .shown hquiet
      | reap standing ended =>
          apply Phase.shown
          intro thread hmem
          exact quiet thread (List.mem_of_mem_eraseIdx hmem)
      | handle turned queue_eq moving =>
          have hqueue := (startup.carriedOut_shown content).1
          simp only [hqueue] at queue_eq
          cases queue_eq

theorem phase_of_run {schedule : List Action}
    (internal : ∀ action ∈ schedule, action.isInternal = true)
    (hrun : (startup.machine content).run (.event .opened :: schedule) = some machine) :
    Phase startup content machine := by
  rw [Machine.run_cons] at hrun
  obtain ⟨first, hopened, hrest⟩ := Option.bind_eq_some_iff.1 hrun
  exact Machine.kept_of_run (fun _ _ phase proceeds => phase.step proceeds)
    (phase_opened hopened) internal hrest

theorem Phase.workers_eq (phase : Phase startup content machine) : machine.engine.workers = [] := by
  cases phase with
  | scanning pending scans waiting => rfl
  | reported quiet => rfl
  | shown quiet => exact (startup.carriedOut_shown content).2

/-- The owner leaves only when the rows are shown. -/
theorem Phase.view_of_leave (phase : Phase startup content machine)
    (h : machine.act .leave = some next) : next.engine.view = startup.view content := by
  simp only [Machine.act] at h
  split at h
  · rename_i hcontrol hqueue
    cases h
    cases phase with
    | scanning pending scans waiting => exact absurd hcontrol waiting
    | reported quiet => cases hqueue
    | shown quiet => exact (startup.view_eq content).symm
  · cases h

end Startup

end RegionOutline
