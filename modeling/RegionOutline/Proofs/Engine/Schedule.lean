import RegionOutline.Proofs.Engine.Machine
import RegionOutline.Proofs.Engine.Workers

/-!
# The schedule of an engine

An engine lets every worker end before anything else happens. That is one way for
the threads of a machine to take their turns, so whatever becomes of an engine is
something that can become of a machine. In particular the number of messages that
waiting for idleness counts with is always enough.
-/

namespace RegionOutline

/-- What can be asked of an engine. -/
inductive Engine.Call where
  | event (event : HostEvent)
  /-- The host changes of itself. -/
  | change (host : Host)
  | post (message : Message)
  | poll
  | handleOne
  | runUntilIdle

namespace Engine

def perform (engine : Engine) : Call → Engine
  | .event event => engine.handleEvent event
  | .change host => { engine with host }
  | .post message => engine.post message
  | .poll => engine.poll.1
  | .handleOne => engine.handleOne.1
  | .runUntilIdle => engine.runUntilIdle

/-- Whether the call puts a report into the queue from outside. -/
def Call.postsReport : Call → Bool
  | .post message => message.isReport
  | .event _ | .change _ | .poll | .handleOne | .runUntilIdle => false

end Engine

/-- Whether the step puts a report into the queue from outside. -/
def Action.postsReport : Action → Bool
  | .post message => message.isReport
  | .event _ | .change _ | .work _ | .take | .enter | .look | .receive | .timeOut | .leave => false

namespace Machine

variable {machine after last : Machine} {handled : List Message}

/-- Some schedule leads from one machine to the other, and nobody posts a report
on the way. -/
def Reaches (machine after : Machine) : Prop :=
  ∃ schedule, (∀ action ∈ schedule, action.postsReport = false) ∧
    machine.run schedule = some after

theorem Reaches.refl (machine : Machine) : machine.Reaches machine :=
  ⟨[], by simp, rfl⟩

theorem Reaches.trans (first : machine.Reaches after) (second : after.Reaches last) :
    machine.Reaches last := by
  obtain ⟨earlier, hfirst, hearlier⟩ := first
  obtain ⟨later, hsecond, hlater⟩ := second
  refine ⟨earlier ++ later, ?_, ?_⟩
  · intro action haction
    rcases List.mem_append.1 haction with haction | haction
    · exact hfirst action haction
    · exact hsecond action haction
  · rw [run_append, hearlier]
    exact hlater

theorem reaches_of_act {action : Action} (h : machine.act action = some after)
    (request : action.postsReport = false) : machine.Reaches after := by
  refine ⟨[action], by simpa using request, ?_⟩
  rw [← List.nil_append [action], run_concat]
  exact h

/-- The machine of an engine whose workers have not begun or have ended. -/
def ofEngine (handled : List Message) (control : Control) (engine : Engine) : Machine where
  engine := engine.withWorkers []
  threads := engine.workers.map Thread.ofWorker
  control := control
  handled := handled

theorem dispatch_ofEngine (handled : List Message) (control : Control) (engine : Engine)
    (message : Message) :
    (ofEngine handled control engine).dispatch message =
      ofEngine (handled ++ message :: engine.echoes message) control (engine.dispatch message) := by
  have hworkers : (engine.dispatch message).workers =
      engine.workers ++ (engine.session.asks message).workers :=
    (engine.carriedOut_dispatch message).workers_eq
  unfold dispatch ofEngine
  rw [Engine.dispatch_withWorkers, Engine.echoes_withWorkers, hworkers, List.map_append]
  rfl

section Threads

variable {position : Nat} {thread : Thread}

/-- Put a thread in the place of another. -/
def withThread (machine : Machine) (position : Nat) (thread : Thread) : Machine :=
  { machine with threads := machine.threads.set position thread }

theorem reaches_work (standing : position < machine.threads.length) (thread : Thread) :
    (machine.withThread position thread).Reaches
      ((machine.withQueue (machine.engine.queue ++ thread.sends)).withThread position
        (thread.step (machine.engine.session.rebuildScope.isLive thread.token))) := by
  have hact : (machine.withThread position thread).act (.work position) =
      some ((machine.withThread position thread).work position thread) := by
    simp [act, withThread, standing]
  have hwork := reaches_of_act hact rfl
  unfold work withThread at hwork
  rwa [List.set_set] at hwork

theorem reaches_silently (standing : position < machine.threads.length)
    (silent : thread.sends = []) :
    (machine.withThread position thread).Reaches
      (machine.withThread position
        (thread.step (machine.engine.session.rebuildScope.isLive thread.token))) := by
  have hwork := reaches_work standing thread
  rwa [silent, List.append_nil] at hwork

/-- A thread whose token is live reads all lines. -/
theorem reaches_reporting (standing : position < machine.threads.length)
    (live : machine.engine.session.rebuildScope.isLive thread.token = true)
    (scanner : Scanner) (rest : List (List Char)) (made : List Entry) :
    (machine.withThread position { thread with progress := .scanning scanner rest made }).Reaches
      (machine.withThread position
        { thread with progress := .reporting (made ++ scanner.entries rest) }) := by
  induction rest generalizing scanner made with
  | nil =>
      have hstep : (machine.withThread position
          { thread with progress := .scanning scanner [] made }).Reaches _ :=
        reaches_silently standing rfl
      rw [live] at hstep
      rw [Scanner.entries_nil, List.append_nil]
      exact hstep
  | cons line rest ih =>
      have hstep : (machine.withThread position
          { thread with progress := .scanning scanner (line :: rest) made }).Reaches _ :=
        reaches_silently standing rfl
      rw [live] at hstep
      rw [Scanner.entries_cons, ← List.append_assoc]
      exact hstep.trans (ih _ _)

theorem reaches_given_up (standing : position < machine.threads.length)
    (dead : machine.engine.session.rebuildScope.isLive thread.token = false) :
    (machine.withThread position { thread with progress := .starting }).Reaches
      (machine.withThread position { thread with progress := .ended }) := by
  have asked : (machine.withThread position { thread with progress := .starting }).Reaches _ :=
    reaches_silently standing rfl
  rw [dead] at asked
  have returned : (machine.withThread position { thread with progress := .returning }).Reaches _ :=
    reaches_silently standing rfl
  exact asked.trans returned

theorem reaches_reported (standing : position < machine.threads.length)
    (live : machine.engine.session.rebuildScope.isLive thread.token = true) :
    (machine.withThread position { thread with progress := .starting }).Reaches
      ((machine.withQueue (machine.engine.queue ++
        [.scanCompleted thread.revision thread.token (scan thread.source)])).withThread position
          { thread with progress := .ended }) := by
  have asked : (machine.withThread position { thread with progress := .starting }).Reaches _ :=
    reaches_silently standing rfl
  rw [live] at asked
  have scanned := reaches_reporting standing live {} (Text.sourceLines thread.source.toList) []
  have sent := reaches_work standing { thread with progress := .reporting (scan thread.source) }
  have returned : ((machine.withQueue (machine.engine.queue ++
      [.scanCompleted thread.revision thread.token (scan thread.source)])).withThread position
        { thread with progress := .returning }).Reaches _ :=
    reaches_silently standing rfl
  exact (asked.trans scanned).trans (sent.trans returned)

/-- A thread can end before anything else happens, with the report of its worker
in the queue. -/
theorem reaches_ended (standing : position < machine.threads.length) (worker : Worker) :
    (machine.withThread position (Thread.ofWorker worker)).Reaches
      ((machine.withQueue (machine.engine.queue ++
        (worker.report? machine.engine.session.rebuildScope).toList)).withThread position
          (Thread.ofWorker worker.finish)) := by
  rw [Worker.report?_eq]
  cases hfinished : worker.finished with
  | true =>
      have hsame : Thread.ofWorker worker.finish = Thread.ofWorker worker := by
        simp [Thread.ofWorker, Worker.finish, hfinished]
      rw [hsame, if_pos rfl, Option.toList_none, List.append_nil]
      exact Reaches.refl _
  | false =>
      have hstarting : Thread.ofWorker worker =
          { Thread.ofWorker worker.finish with progress := .starting } := by
        simp [Thread.ofWorker, Worker.finish, hfinished]
      rw [hstarting, if_neg Bool.false_ne_true]
      cases hlive : machine.engine.session.rebuildScope.isLive worker.token with
      | false =>
          rw [if_neg Bool.false_ne_true, Option.toList_none, List.append_nil]
          exact reaches_given_up standing hlive
      | true =>
          rw [if_pos rfl]
          exact reaches_reported standing hlive

/-- So can all of them, one after the other. -/
theorem reaches_all_ended (done todo : List Worker)
    (h : machine.threads = (done ++ todo).map Thread.ofWorker) :
    machine.Reaches
      { machine.withQueue (machine.engine.queue ++
          todo.filterMap (Worker.report? machine.engine.session.rebuildScope)) with
        threads := (done ++ todo.map Worker.finish).map Thread.ofWorker } := by
  induction todo generalizing done machine with
  | nil =>
      rw [List.filterMap_nil, List.append_nil, List.map_nil, ← h]
      exact Reaches.refl machine
  | cons worker rest ih =>
      have standing : done.length < machine.threads.length := by simp [h]
      have hmachine : machine.withThread done.length (Thread.ofWorker worker) = machine := by
        have hset : machine.threads.set done.length (Thread.ofWorker worker) =
            machine.threads := by simp [h]
        unfold withThread
        rw [hset]
      have first := reaches_ended standing worker
      rw [hmachine] at first
      have hthreads : ((machine.withQueue (machine.engine.queue ++
          (worker.report? machine.engine.session.rebuildScope).toList)).withThread done.length
            (Thread.ofWorker worker.finish)).threads =
          (done ++ [worker.finish] ++ rest).map Thread.ofWorker := by
        simp [withThread, withQueue, h]
      have others := ih (done ++ [worker.finish]) hthreads
      have hreports : (worker :: rest).filterMap
          (Worker.report? machine.engine.session.rebuildScope) =
          (worker.report? machine.engine.session.rebuildScope).toList ++
            rest.filterMap (Worker.report? machine.engine.session.rebuildScope) := by
        cases hreport : worker.report? machine.engine.session.rebuildScope <;> simp [hreport]
      rw [hreports, ← List.append_assoc, List.map_cons, List.append_cons]
      exact first.trans others

end Threads

section Engines

variable {engine : Engine} {workers : List Worker}

theorem reaches_finishScans (handled : List Message) (control : Control) (engine : Engine) :
    (ofEngine handled control engine).Reaches (ofEngine handled control engine.finishScans) := by
  have ended : (ofEngine handled control engine).Reaches _ :=
    reaches_all_ended [] engine.workers rfl
  exact ended

/-- An owner that finds only threads that have ended finds none left. -/
theorem reaches_reaped (control : machine.control = .reaping 0)
    (ended : ∀ thread ∈ machine.threads, thread.progress = .ended) :
    machine.Reaches { machine with threads := [], control := .receiving false } := by
  generalize hthreads : machine.threads = threads at ended
  induction threads generalizing machine with
  | nil =>
      have hact : machine.act .look =
          some { machine with threads := [], control := .receiving false } := by
        simp [act, control, lookAt, hthreads]
      exact reaches_of_act hact rfl
  | cons thread rest ih =>
      have hended := ended thread List.mem_cons_self
      have hact : machine.act .look = some { machine with threads := rest } := by
        simp [act, control, lookAt, hthreads, hended]
      have others : Reaches { machine with threads := rest } _ := ih control rfl (by
        intro other hother
        exact ended other (List.mem_cons_of_mem _ hother))
      exact (reaches_of_act hact rfl).trans others

/-- The threads end and are dropped. Workers that the machine has dropped earlier
stay with the engine, so the two agree on the others only. -/
theorem reaches_swept
    (same : workers.filter (!·.finished) = engine.workers.filter (!·.finished)) :
    (ofEngine handled (.reaping 0) (engine.withWorkers workers)).Reaches
      (ofEngine handled (.receiving false) (engine.finishScans.withWorkers [])) := by
  have finished := reaches_finishScans handled (.reaping 0) (engine.withWorkers workers)
  have hended : ∀ thread ∈ (ofEngine handled (.reaping 0)
      (engine.withWorkers workers).finishScans).threads, thread.progress = .ended := by
    intro thread hthread
    obtain ⟨worker, hworker, rfl⟩ := List.mem_map.1 hthread
    obtain ⟨other, _, rfl⟩ := List.mem_map.1 hworker
    rfl
  have reaped := reaches_reaped rfl hended
  have hreports : workers.filterMap (Worker.report? engine.session.rebuildScope) =
      engine.workers.filterMap (Worker.report? engine.session.rebuildScope) := by
    rw [← Engine.filterMap_report?_filter, same, Engine.filterMap_report?_filter]
  have hengine : (engine.withWorkers workers).finishScans.withWorkers [] =
      engine.finishScans.withWorkers [] := by
    unfold Engine.finishScans Engine.withWorkers
    rw [hreports]
  have hmachine : ({ ofEngine handled (.reaping 0) (engine.withWorkers workers).finishScans with
      threads := [], control := .receiving false } : Machine) =
        ofEngine handled (.receiving false) (engine.finishScans.withWorkers []) := by
    unfold ofEngine
    rw [hengine]
    rfl
  rw [hmachine] at reaped
  exact finished.trans reaped

theorem act_receive (engine : Engine) (handled : List Message) (busy : Bool) {message : Message}
    {rest : List Message} (h : engine.queue = message :: rest) :
    (ofEngine handled (.receiving busy) engine).act .receive =
      some (ofEngine (handled ++ message :: (engine.withQueue rest).echoes message)
        (.reaping 0) ((engine.withQueue rest).dispatch message)) := by
  have hdispatch := dispatch_ofEngine handled (.receiving busy) (engine.withQueue rest) message
  have hqueue : (ofEngine handled (.receiving busy) engine).engine.queue = message :: rest := h
  simp only [act, hqueue]
  exact congrArg (fun next : Machine => some { next with control := .reaping 0 }) hdispatch

/-- Allowed as many messages as can come, an engine handles all of them, and its
machine does the same. -/
theorem reaches_settled (count : Nat) (handled : List Message)
    (same : workers.filter (!·.finished) = engine.workers.filter (!·.finished))
    (enough : engine.work ≤ count) :
    (Engine.settle count engine).queue = [] ∧
      ∃ record, (ofEngine handled (.reaping 0) (engine.withWorkers workers)).Reaches
        (ofEngine record (.receiving false) ((Engine.settle count engine).withWorkers [])) := by
  induction count generalizing engine workers handled with
  | zero =>
      have swept : (ofEngine handled (.reaping 0) (engine.withWorkers workers)).Reaches _ :=
        reaches_swept same
      have hle := engine.work_finishScans_le
      have hqueue : engine.finishScans.queue = [] := Engine.queue_eq_nil_of_work (by omega)
      have hbefore : engine.queue = [] := Engine.queue_eq_nil_of_work (by omega)
      have hengine : engine.finishScans.withWorkers [] = engine.withWorkers [] := by
        unfold Engine.withWorkers
        rw [hqueue, ← hbefore]
        rfl
      rw [hengine] at swept
      exact ⟨hbefore, handled, swept⟩
  | succ count ih =>
      have swept : (ofEngine handled (.reaping 0) (engine.withWorkers workers)).Reaches _ :=
        reaches_swept same
      have hle := engine.work_finishScans_le
      cases hqueue : engine.finishScans.queue with
      | nil =>
          rw [Engine.settle_of_nil count hqueue]
          exact ⟨hqueue, handled, swept⟩
      | cons message rest =>
          have hwork := engine.finishScans.work_dispatch message rest hqueue
          have hworkers :
              ((engine.finishScans.withQueue rest).dispatch message).workers =
                engine.finishScans.workers ++ (engine.session.asks message).workers :=
            ((engine.finishScans.withQueue rest).carriedOut_dispatch message).workers_eq
          have hfresh : (engine.session.asks message).workers.filter (!·.finished) =
              ((engine.finishScans.withQueue rest).dispatch message).workers.filter
                (!·.finished) := by
            rw [hworkers, List.filter_append]
            simp [Engine.finishScans]
          have received := reaches_of_act
            (act_receive (engine.finishScans.withWorkers []) handled false hqueue) rfl
          have hdispatch : ((engine.finishScans.withWorkers []).withQueue rest).dispatch message =
              ((engine.finishScans.withQueue rest).dispatch message).withWorkers
                (engine.session.asks message).workers :=
            (engine.finishScans.withQueue rest).dispatch_withWorkers [] message
          rw [hdispatch] at received
          obtain ⟨hnone, record, settled⟩ := ih _ hfresh (by omega)
          rw [Engine.settle_of_cons count hqueue]
          exact ⟨hnone, record, (swept.trans received).trans settled⟩

/-- Waiting for idleness, an engine does what a machine does, up to the step that
finds nothing left. -/
theorem reaches_runUntilIdle (handled : List Message) (engine : Engine) :
    ∃ record last, (ofEngine handled .free engine).Reaches last ∧
      last.act .leave = some (ofEngine record .free engine.runUntilIdle) := by
  have entered : (ofEngine handled .free engine).Reaches (ofEngine handled (.reaping 0) engine) :=
    ⟨[.enter], by simp [Action.postsReport], rfl⟩
  obtain ⟨hqueue, record, settled⟩ := reaches_settled engine.work handled rfl (Nat.le_refl _)
  refine ⟨record, _, entered.trans settled, ?_⟩
  have hnone : (ofEngine record (.receiving false)
      ((Engine.settle engine.work engine).withWorkers [])).engine.queue = [] := hqueue
  simp only [act, hnone]
  rfl

theorem reaches_take (handled : List Message) (engine : Engine) {message : Message}
    {rest : List Message} (h : engine.queue = message :: rest) :
    (ofEngine handled .free engine).Reaches
      (ofEngine (handled ++ message :: (engine.withQueue rest).echoes message) .free
        ((engine.withQueue rest).dispatch message)) := by
  have hdispatch := dispatch_ofEngine handled .free (engine.withQueue rest) message
  have hqueue : (ofEngine handled .free engine).engine.queue = message :: rest := h
  have hact : (ofEngine handled .free engine).act .take =
      some ((ofEngine handled .free (engine.withQueue rest)).dispatch message) := by
    simp only [act, hqueue]
    rfl
  rw [hdispatch] at hact
  exact reaches_of_act hact rfl

theorem reaches_handleOldest (count : Nat) (handled : List Message) (engine : Engine)
    (changed : Bool) :
    ∃ record, (ofEngine handled .free engine).Reaches
      (ofEngine record .free (Engine.handleOldest count engine changed).1) := by
  induction count generalizing handled engine changed with
  | zero => exact ⟨handled, Reaches.refl _⟩
  | succ count ih =>
      cases hqueue : engine.queue with
      | nil =>
          simp only [Engine.handleOldest, hqueue]
          exact ⟨handled, Reaches.refl _⟩
      | cons message rest =>
          have taken := reaches_take handled engine hqueue
          obtain ⟨record, others⟩ := ih
            (handled ++ message :: (engine.withQueue rest).echoes message)
            ((engine.withQueue rest).dispatch message)
            (changed || ((engine.withQueue rest).process message).2)
          simp only [Engine.handleOldest, hqueue]
          exact ⟨record, taken.trans others⟩

/-- Whatever is asked of an engine, its machine can do. -/
theorem reaches_perform (handled : List Message) (engine : Engine) (call : Engine.Call)
    (request : call.postsReport = false) :
    ∃ record, (ofEngine handled .free engine).Reaches
      (ofEngine record .free (engine.perform call)) := by
  match call with
  | .event event =>
      have hact : (ofEngine handled .free engine).act (.event event) =
          some ((ofEngine handled .free engine).dispatch (event.message engine.host)) := rfl
      rw [dispatch_ofEngine] at hact
      exact ⟨_, (reaches_of_act hact rfl).trans (reaches_finishScans _ _ _)⟩
  | .change host =>
      have hact : (ofEngine handled .free engine).act (.change host) =
          some (ofEngine handled .free { engine with host }) := rfl
      exact ⟨handled, reaches_of_act hact rfl⟩
  | .post message =>
      have hact : (ofEngine handled .free engine).act (.post message) =
          some (ofEngine handled .free (engine.post message)) := rfl
      exact ⟨handled, reaches_of_act hact request⟩
  | .poll =>
      obtain ⟨record, oldest⟩ := reaches_handleOldest engine.queue.length handled engine false
      exact ⟨record, oldest.trans (reaches_finishScans _ _ _)⟩
  | .handleOne =>
      cases hqueue : engine.queue with
      | nil =>
          simp only [Engine.perform, Engine.handleOne, hqueue]
          exact ⟨handled, Reaches.refl _⟩
      | cons message rest =>
          simp only [Engine.perform, Engine.handleOne, hqueue]
          exact ⟨_, (reaches_take handled engine hqueue).trans (reaches_finishScans _ _ _)⟩
  | .runUntilIdle =>
      obtain ⟨record, last, reached, hleave⟩ := reaches_runUntilIdle handled engine
      exact ⟨record, reached.trans (reaches_of_act hleave rfl)⟩

theorem reaches_calls (handled : List Message) (engine : Engine) (calls : List Engine.Call)
    (requests : ∀ call ∈ calls, call.postsReport = false) :
    ∃ record, (ofEngine handled .free engine).Reaches
      (ofEngine record .free (calls.foldl Engine.perform engine)) := by
  induction calls generalizing handled engine with
  | nil => exact ⟨handled, Reaches.refl _⟩
  | cons call rest ih =>
      obtain ⟨record, first⟩ :=
        reaches_perform handled engine call (requests call List.mem_cons_self)
      obtain ⟨final, others⟩ := ih record (engine.perform call) (by
        intro other hother
        exact requests other (List.mem_cons_of_mem _ hother))
      exact ⟨final, first.trans others⟩

/-- Reports that are posted are taken in like any other message. -/
theorem run_calls (handled : List Message) (engine : Engine) (calls : List Engine.Call) :
    ∃ schedule record, (ofEngine handled .free engine).run schedule =
      some (ofEngine record .free (calls.foldl Engine.perform engine)) := by
  induction calls generalizing handled engine with
  | nil => exact ⟨[], handled, rfl⟩
  | cons call rest ih =>
      have first : ∃ schedule record, (ofEngine handled .free engine).run schedule =
          some (ofEngine record .free (engine.perform call)) := by
        cases hposts : call.postsReport with
        | false =>
            obtain ⟨record, schedule, _, run⟩ := reaches_perform handled engine call hposts
            exact ⟨schedule, record, run⟩
        | true =>
            match call with
            | .post message => exact ⟨[.post message], handled, rfl⟩
      obtain ⟨earlier, record, hearlier⟩ := first
      obtain ⟨later, final, hlater⟩ := ih record (engine.perform call)
      refine ⟨earlier ++ later, final, ?_⟩
      rw [run_append, hearlier]
      exact hlater

end Engines

end Machine

end RegionOutline
