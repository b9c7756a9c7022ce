import RegionOutline.Proofs.Engine.CarryOut
import RegionOutline.Proofs.Scan.Stopping

/-!
# Workers of an engine

What a worker reports when it is left alone, why the workers under way make no
difference to the messages that are handled meanwhile, and how many messages can
still come of a queue and of workers: each one that is handled is one less.
-/

namespace RegionOutline

namespace Worker

/-- The worker, accounted for as ended. -/
def finish (worker : Worker) : Worker :=
  { worker with finished := true }

/-- A worker that ends while its token stays as it is reports the whole outline if
the token is live, and nothing otherwise. -/
theorem report?_eq (scope : CancelScope) (worker : Worker) :
    worker.report? scope =
      if worker.finished then none
      else if scope.isLive worker.token then
        some (.scanCompleted worker.revision worker.token (scan worker.source))
      else none := by
  unfold report?
  cases worker.finished with
  | true => rfl
  | false =>
      cases hlive : scope.isLive worker.token with
      | true =>
          have hscan : scanUnless (fun _ => !true) worker.source = some (scan worker.source) :=
            scanUnless_of_live fun _ _ => rfl
          rw [hscan]
          rfl
      | false => rfl

end Worker

namespace Engine

theorem showScroll_withWorkers (engine : Engine) (workers : List Worker) (scroll : Scroll) :
    (engine.withWorkers workers).showScroll scroll =
      (engine.showScroll scroll).withWorkers workers := by
  unfold showScroll
  change (if engine.session.scrollScope.isCurrent scroll.token then _ else _) = _
  split <;> rfl

theorem scrollToCaret_withWorkers (engine : Engine) (workers : List Worker) :
    (engine.withWorkers workers).scrollToCaret = engine.scrollToCaret.withWorkers workers := by
  have hmove : (engine.withWorkers workers).session.moveCaret
      (engine.withWorkers workers).host.line? = engine.session.moveCaret engine.host.line? := rfl
  unfold scrollToCaret
  rw [hmove]
  cases engine.session.moveCaret engine.host.line? with
  | mk session asked =>
      cases asked with
      | none => rfl
      | some scroll => exact showScroll_withWorkers { engine with session } workers scroll

mutual

/-- The workers under way make no difference to what a command does. -/
theorem carryOut_withWorkers (engine : Engine) (workers : List Worker) (command : Command) :
    (engine.withWorkers workers).carryOut command =
      (engine.carryOut command).withWorkers (workers ++ command.workers) := by
  match command with
  | .nothing =>
      rw [Command.workers, List.append_nil]
      rfl
  | .runScan revision source token => rfl
  | .publish =>
      rw [Command.workers, List.append_nil]
      rfl
  | .scrollToCaret =>
      rw [Command.workers, List.append_nil]
      exact engine.scrollToCaret_withWorkers workers
  | .scroll scroll =>
      rw [Command.workers, List.append_nil]
      exact engine.showScroll_withWorkers workers scroll
  | .focus row =>
      rw [Command.workers, List.append_nil]
      rfl
  | .navigateTo line =>
      rw [Command.workers, List.append_nil]
      rfl
  | .batch commands => exact carryOutAll_withWorkers engine workers commands

theorem carryOutAll_withWorkers (engine : Engine) (workers : List Worker)
    (commands : List Command) :
    (engine.withWorkers workers).carryOutAll commands =
      (engine.carryOutAll commands).withWorkers (workers ++ Command.allWorkers commands) := by
  match commands with
  | [] =>
      rw [Command.allWorkers, List.append_nil]
      rfl
  | command :: rest =>
      rw [carryOutAll, carryOutAll, Command.allWorkers, carryOut_withWorkers,
        carryOutAll_withWorkers, List.append_assoc]

end

mutual

theorem heard_withWorkers (engine : Engine) (workers : List Worker) (command : Command) :
    (engine.withWorkers workers).heard command = engine.heard command := by
  match command with
  | .nothing | .runScan _ _ _ | .publish | .scrollToCaret | .scroll _ | .focus _
  | .navigateTo _ => rfl
  | .batch commands => exact heardAll_withWorkers engine workers commands

theorem heardAll_withWorkers (engine : Engine) (workers : List Worker)
    (commands : List Command) :
    (engine.withWorkers workers).heardAll commands = engine.heardAll commands := by
  match commands with
  | [] => rfl
  | command :: rest =>
      rw [heardAll, heardAll, heard_withWorkers, carryOut_withWorkers, heardAll_withWorkers]

end

theorem dispatch_withWorkers (engine : Engine) (workers : List Worker) (message : Message) :
    (engine.withWorkers workers).dispatch message =
      (engine.dispatch message).withWorkers
        (workers ++ (engine.session.asks message).workers) := by
  rw [dispatch_eq, dispatch_eq]
  exact carryOut_withWorkers { engine with session := (engine.session.handle message).1 } workers _

theorem echoes_withWorkers (engine : Engine) (workers : List Worker) (message : Message) :
    (engine.withWorkers workers).echoes message = engine.echoes message :=
  heard_withWorkers { engine with session := (engine.session.handle message).1 } workers _

/-- How many messages can come of those in a queue. -/
def workOfAll (queue : List Message) : Nat :=
  (queue.map workOf).foldr (· + ·) 0

theorem workOfAll_cons (message : Message) (rest : List Message) :
    workOfAll (message :: rest) = workOf message + workOfAll rest := rfl

theorem workOfAll_append (first second : List Message) :
    workOfAll (first ++ second) = workOfAll first + workOfAll second := by
  induction first with
  | nil => exact (Nat.zero_add _).symm
  | cons message rest ih =>
      rw [List.cons_append, workOfAll_cons, workOfAll_cons, ih, Nat.add_assoc]

theorem length_le_workOfAll (queue : List Message) : queue.length ≤ workOfAll queue := by
  induction queue with
  | nil => exact Nat.le_refl 0
  | cons message rest ih =>
      have hone : 1 ≤ workOf message := by
        unfold workOf
        split <;> omega
      rw [workOfAll_cons, List.length_cons]
      omega

/-- A worker counts for one message, and brings one at most. -/
theorem workOfAll_reports_le (scope : CancelScope) (workers : List Worker) :
    workOfAll (workers.filterMap (Worker.report? scope)) ≤ workers.countP (!·.finished) := by
  induction workers with
  | nil => exact Nat.le_refl 0
  | cons worker rest ih =>
      rw [List.filterMap_cons, List.countP_cons, Worker.report?_eq]
      cases worker.finished with
      | true => exact ih
      | false =>
          cases scope.isLive worker.token with
          | true =>
              change 1 + workOfAll _ ≤ _ + 1
              omega
          | false => exact Nat.le_succ_of_le ih

theorem work_finishScans_le (engine : Engine) : engine.finishScans.work ≤ engine.work := by
  have hreports := workOfAll_reports_le engine.session.rebuildScope engine.workers
  have hfinished : engine.finishScans.workers.countP (!·.finished) = 0 := by
    simp [finishScans]
  change workOfAll (engine.queue ++ _) + engine.finishScans.workers.countP (!·.finished) ≤
    workOfAll engine.queue + engine.workers.countP (!·.finished)
  rw [workOfAll_append, hfinished]
  omega

theorem workOf_eq (session : Session) (message : Message) :
    workOf message = 1 + (session.asks message).workers.countP (!·.finished) := by
  rw [(session.answers_asks message).workers_eq]
  match message with
  | .rebuild (some source) => rfl
  | .rebuild none | .close | .caretMoved _ | .entryActivated _ _ | .scanCompleted _ _ _ => rfl

/-- Each message that is handled is one less of those that can come. -/
theorem work_dispatch (engine : Engine) (message : Message) (rest : List Message)
    (h : engine.queue = message :: rest) :
    engine.work = ((engine.withQueue rest).dispatch message).work + 1 := by
  have done := (engine.withQueue rest).carriedOut_dispatch message
  have hmessage := workOf_eq engine.session message
  have hafter : ((engine.withQueue rest).dispatch message).work = workOfAll rest +
      (engine.workers ++ (engine.session.asks message).workers).countP (!·.finished) := by
    unfold work
    rw [done.queue_eq, done.workers_eq]
    rfl
  have hbefore : engine.work = workOfAll (message :: rest) +
      engine.workers.countP (!·.finished) := by
    rw [← h]
    rfl
  rw [hbefore, hafter, workOfAll_cons, List.countP_append, hmessage]
  omega

/-- Workers that are accounted for bring no report. -/
theorem filterMap_report?_filter (scope : CancelScope) (workers : List Worker) :
    (workers.filter (!·.finished)).filterMap (Worker.report? scope) =
      workers.filterMap (Worker.report? scope) := by
  rw [List.filterMap_filter]
  congr 1
  funext worker
  cases hfinished : worker.finished <;> simp [Worker.report?, hfinished]

/-- Nothing is left to handle when nothing can come any more. -/
theorem queue_eq_nil_of_work {engine : Engine} (h : engine.work = 0) : engine.queue = [] := by
  have hlength := length_le_workOfAll engine.queue
  have hwork : workOfAll engine.queue ≤ engine.work := Nat.le_add_right _ _
  apply List.eq_nil_of_length_eq_zero
  omega

theorem settle_of_nil (count : Nat) {engine : Engine} (h : engine.finishScans.queue = []) :
    settle (count + 1) engine = engine.finishScans := by
  simp only [settle, h]

theorem settle_of_cons (count : Nat) {engine : Engine} {message : Message} {rest : List Message}
    (h : engine.finishScans.queue = message :: rest) :
    settle (count + 1) engine =
      settle count ((engine.finishScans.withQueue rest).dispatch message) := by
  simp only [settle, h]
  rfl

end Engine

end RegionOutline
