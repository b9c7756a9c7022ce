import RegionOutline.Proofs.Engine.Machine

/-!
# Steps from inside

What a machine does while the host is silent and nobody posts messages. The owner can
then always come to the end of a wait for idleness, whatever has happened before: as
long as the end is not reached, some thread or the owner itself can take a step that
makes a rank smaller. The rank counts what the threads, the messages in the queue and
the owner have still to do.
-/

namespace RegionOutline

/-- Neither the host nor anyone who posts messages takes this step. -/
def Action.isInternal : Action → Bool
  | .work _ | .take | .enter | .look | .receive | .timeOut | .leave => true
  | .event _ | .change _ | .post _ => false

namespace Progress

variable {progress : Progress}

/-- The number of steps until the thread has ended, if its token stays live. -/
def remaining (source : String) : Progress → Nat
  | .starting => (Text.sourceLines source.toList).length + 4
  | .scanning _ rest _ => rest.length + 3
  | .reporting _ => 2
  | .returning => 1
  | .ended => 0

theorem remaining_next (source : String) (h : progress ≠ .ended) :
    (progress.next source).remaining source + 1 = progress.remaining source := by
  match progress with
  | .starting => rfl
  | .scanning scanner (line :: rest) made => rfl
  | .scanning scanner [] made => rfl
  | .reporting entries => rfl
  | .returning => rfl
  | .ended => exact absurd rfl h

theorem one_lt_remaining_of_asks (source : String) (h : progress.asks = true) :
    1 < progress.remaining source := by
  cases progress with
  | starting => simp [remaining]
  | scanning scanner rest made => simp [remaining]
  | reporting entries => cases h
  | returning => cases h
  | ended => cases h

end Progress

namespace Thread

variable {thread : Thread}

/-- A thread counts for the step that drops it and, ten times over, for its own steps. -/
def rank (thread : Thread) : Nat :=
  8 + 10 * thread.progress.remaining thread.source

theorem rank_step (live : Bool) (h : thread.progress ≠ .ended) :
    (thread.step live).rank + 10 ≤ thread.rank := by
  have hnext := Progress.remaining_next thread.source h
  cases hgives : thread.progress.asks && !live with
  | true =>
      have hasks := (Bool.and_eq_true_iff.1 hgives).1
      have hfar := Progress.one_lt_remaining_of_asks thread.source hasks
      have hreturning : Progress.returning.remaining thread.source = 1 := rfl
      simp only [rank, step, hgives, if_true, hreturning]
      omega
  | false =>
      simp only [rank, step, hgives, Bool.false_eq_true, if_false]
      omega

def ranks : List Thread → Nat
  | [] => 0
  | thread :: rest => thread.rank + ranks rest

theorem ranks_append (first second : List Thread) :
    ranks (first ++ second) = ranks first + ranks second := by
  induction first with
  | nil => exact (Nat.zero_add _).symm
  | cons thread rest ih => rw [List.cons_append, ranks, ranks, ih, Nat.add_assoc]

/-- A thread in the list counts apart from the others. -/
theorem ranks_of_standing {threads : List Thread} {position : Nat}
    (standing : threads[position]? = some thread) :
    ranks threads = thread.rank + ranks (threads.eraseIdx position) ∧
      ∀ other, ranks (threads.set position other) =
        other.rank + ranks (threads.eraseIdx position) := by
  induction threads generalizing position with
  | nil => cases standing
  | cons first rest ih =>
      cases position with
      | zero =>
          cases standing
          exact ⟨rfl, fun other => rfl⟩
      | succ position =>
          obtain ⟨hranks, hset⟩ := ih standing
          constructor
          · rw [List.eraseIdx_cons_succ, ranks, ranks, hranks]
            omega
          · intro other
            rw [List.set_cons_succ, List.eraseIdx_cons_succ, ranks, ranks, hset]
            omega

end Thread

namespace Message

/-- A message counts for the step that handles it and for the thread it starts. -/
def rank : Message → Nat
  | .rebuild (some source) =>
      5 + Thread.rank { revision := 0, source, token := ⟨0, 0⟩ }
  | .rebuild none | .close | .caretMoved _ | .entryActivated _ _ | .scanCompleted _ _ _ => 5

theorem rank_eq (session : Session) (message : Message) :
    message.rank = 5 + Thread.ranks ((session.asks message).workers.map Thread.ofWorker) := by
  rw [(session.answers_asks message).workers_eq]
  match message with
  | .rebuild (some source) => rfl
  | .rebuild none | .close | .caretMoved _ | .entryActivated _ _ | .scanCompleted _ _ _ => rfl

def ranks : List Message → Nat
  | [] => 0
  | message :: rest => message.rank + ranks rest

theorem ranks_append_sends (queue : List Message) (thread : Thread) :
    ranks (queue ++ thread.sends) ≤ ranks queue + 5 := by
  induction queue with
  | nil =>
      unfold Thread.sends
      cases thread.progress <;> simp [ranks, rank]
  | cons message rest ih =>
      rw [List.cons_append, ranks, ranks]
      omega

end Message

/-- How far an owner is from finding nothing left. -/
def Control.rank : Control → Nat
  | .free => 4
  | .reaping 0 => 1
  | .reaping (_ + 1) => 3
  | .receiving true => 2
  | .receiving false => 0

namespace Machine

variable {machine after last : Machine} {action : Action} {schedule : List Action}

/-- All that a step from inside can do. -/
inductive Proceeds (machine : Machine) : Machine → Prop
  | turn (control : Control)
      (accounted : control = .receiving false →
        machine.control = .receiving false ∨ machine.threads = []) :
      Proceeds machine { machine with control }
  | work {position : Nat} {thread : Thread} (standing : machine.threads[position]? = some thread) :
      Proceeds machine (machine.work position thread)
  | reap {position : Nat} {thread : Thread} (standing : machine.threads[position]? = some thread)
      (ended : thread.progress = .ended) :
      Proceeds machine { machine with threads := machine.threads.eraseIdx position }
  | handle {message : Message} {waiting : List Message} (control : Control)
      (queue_eq : machine.engine.queue = message :: waiting) (moving : control ≠ .receiving false) :
      Proceeds machine { (machine.withQueue waiting).dispatch message with control }

theorem proceeds_lookAt (position : Nat) : machine.Proceeds (machine.lookAt position) := by
  unfold lookAt
  cases hstanding : machine.threads[position]? with
  | none =>
      apply Proceeds.turn
      intro hbusy
      right
      simpa using hbusy
  | some thread =>
      by_cases hended : thread.progress = .ended
      · simp only [hended, if_true]
        exact .reap hstanding hended
      · simp only [hended, if_false]
        exact .turn _ (by simp)

theorem proceeds_of_act (internal : action.isInternal = true)
    (h : machine.act action = some after) : machine.Proceeds after := by
  match action with
  | .event _ | .change _ | .post _ => cases internal
  | .work position =>
      obtain ⟨thread, hstanding, rfl⟩ := Option.map_eq_some_iff.1 h
      exact .work hstanding
  | .take =>
      simp only [act] at h
      split at h
      · cases h
        rename_i message waiting hfree hqueue
        have proceeds : machine.Proceeds
            { (machine.withQueue waiting).dispatch message with control := .free } :=
          .handle .free hqueue (by simp)
        rwa [← hfree] at proceeds
      · cases h
  | .enter =>
      simp only [act] at h
      split at h
      · cases h
        exact .turn _ (by simp)
      · cases h
  | .look =>
      simp only [act] at h
      split at h
      · cases h
        exact proceeds_lookAt _
      · cases h
  | .receive =>
      simp only [act] at h
      split at h
      · cases h
        rename_i hqueue
        exact .handle _ hqueue (by simp)
      · cases h
  | .timeOut =>
      simp only [act] at h
      split at h
      · cases h
        exact .turn _ (by simp)
      · cases h
  | .leave =>
      simp only [act] at h
      split at h
      · cases h
        exact .turn _ (by simp)
      · cases h

/-- What every step from inside keeps holds after a run of such steps. -/
theorem kept_of_run {kept : Machine → Prop}
    (step : ∀ machine next, kept machine → machine.Proceeds next → kept next)
    (first : kept machine) (internal : ∀ action ∈ schedule, action.isInternal = true)
    (hrun : machine.run schedule = some last) : kept last := by
  induction schedule generalizing machine with
  | nil =>
      cases hrun
      exact first
  | cons action rest ih =>
      rw [run_cons] at hrun
      obtain ⟨next, hact, hrest⟩ := Option.bind_eq_some_iff.1 hrun
      have proceeds := proceeds_of_act (internal action List.mem_cons_self) hact
      apply ih (step machine next first proceeds) ?_ hrest
      intro other hother
      exact internal other (List.mem_cons_of_mem action hother)

def rank (machine : Machine) : Nat :=
  Thread.ranks machine.threads + Message.ranks machine.engine.queue + machine.control.rank

/-- The step is one that nobody outside takes, and it brings the end nearer. -/
structure Helps (machine : Machine) (action : Action) (next : Machine) : Prop where
  internal : action.isInternal = true
  act_eq : machine.act action = some next
  workers_eq : next.engine.workers = []
  rank_lt : next.rank < machine.rank

theorem helps_work (idle : machine.engine.workers = []) {position : Nat} {thread : Thread}
    (standing : machine.threads[position]? = some thread) (running : thread.progress ≠ .ended) :
    machine.Helps (.work position) (machine.work position thread) where
  internal := rfl
  act_eq := by simp [act, standing]
  workers_eq := idle
  rank_lt := by
    obtain ⟨hranks, hset⟩ := Thread.ranks_of_standing standing
    have hstep := Thread.rank_step
      (machine.engine.session.rebuildScope.isLive thread.token) running
    have hsends := Message.ranks_append_sends machine.engine.queue thread
    simp only [rank, work, hset, hranks]
    omega

/-- Once every thread has ended, a look drops one or is the last. -/
theorem helps_look (idle : machine.engine.workers = [])
    (ended : ∀ thread ∈ machine.threads, thread.progress = .ended) {position : Nat}
    (looking : machine.control = .reaping position) :
    machine.Helps .look (machine.lookAt position) := by
  have hact : machine.act .look = some (machine.lookAt position) := by simp only [act, looking]
  cases hstanding : machine.threads[position]? with
  | none =>
      have hlook : machine.lookAt position =
          { machine with control := .receiving (!machine.threads.isEmpty) } := by
        simp only [lookAt, hstanding]
      rw [hlook] at hact ⊢
      refine ⟨rfl, hact, idle, ?_⟩
      have hcontrol : (Control.receiving (!machine.threads.isEmpty)).rank <
          (Control.reaping position).rank := by
        cases position with
        | zero =>
            have hnone : machine.threads = [] := by simpa using hstanding
            simp [hnone, Control.rank]
        | succ position => cases machine.threads.isEmpty <;> simp [Control.rank]
      simp only [rank, looking]
      omega
  | some thread =>
      have hended := ended thread (List.mem_of_getElem? hstanding)
      have hlook : machine.lookAt position =
          { machine with threads := machine.threads.eraseIdx position } := by
        simp only [lookAt, hstanding, hended, if_true]
      rw [hlook] at hact ⊢
      refine ⟨rfl, hact, idle, ?_⟩
      obtain ⟨hranks, _⟩ := Thread.ranks_of_standing hstanding
      simp only [rank, hranks, Thread.rank]
      omega

theorem helps_receive (idle : machine.engine.workers = []) {busy : Bool} {message : Message}
    {waiting : List Message} (receiving : machine.control = .receiving busy)
    (hqueue : machine.engine.queue = message :: waiting) :
    machine.Helps .receive
      { (machine.withQueue waiting).dispatch message with control := .reaping 0 } := by
  have handles := handles_dispatch idle message waiting (.reaping 0)
  refine ⟨rfl, by simp only [act, receiving, hqueue], handles.workers_eq, ?_⟩
  have hmessage := message.rank_eq machine.engine.session
  have hbefore : machine.rank = Thread.ranks machine.threads +
      (message.rank + Message.ranks waiting) + (Control.receiving busy).rank := by
    simp only [rank, hqueue, receiving, Message.ranks]
  rw [hbefore, rank, handles.threads_eq, handles.queue_eq, Thread.ranks_append]
  change _ + 1 < _
  omega

/-- While the owner cannot leave, some step helps. -/
theorem leaves_or_helps (idle : machine.engine.workers = []) :
    (∃ last, machine.act .leave = some last) ∨ ∃ action next, machine.Helps action next := by
  by_cases running : ∃ thread ∈ machine.threads, thread.progress ≠ .ended
  · obtain ⟨thread, hmem, hrunning⟩ := running
    obtain ⟨position, standing⟩ := List.mem_iff_getElem?.1 hmem
    exact Or.inr ⟨_, _, helps_work idle standing hrunning⟩
  · have ended : ∀ thread ∈ machine.threads, thread.progress = .ended := by
      intro thread hmem
      apply Decidable.of_not_not
      intro hrunning
      exact running ⟨thread, hmem, hrunning⟩
    cases hcontrol : machine.control with
    | free =>
        right
        refine ⟨.enter, { machine with control := .reaping 0 }, rfl, ?_, idle, ?_⟩
        · simp only [act, hcontrol, if_true]
        · simp [rank, hcontrol, Control.rank]
    | reaping position => exact Or.inr ⟨_, _, helps_look idle ended hcontrol⟩
    | receiving busy =>
        cases hqueue : machine.engine.queue with
        | cons message waiting => exact Or.inr ⟨_, _, helps_receive idle hcontrol hqueue⟩
        | nil =>
            cases busy with
            | false =>
                left
                exact ⟨{ machine with control := .free }, by simp [act, hcontrol, hqueue]⟩
            | true =>
                right
                refine ⟨.timeOut, { machine with control := .reaping 0 }, rfl, ?_, idle, ?_⟩
                · simp only [act, hcontrol, if_true]
                · simp [rank, hcontrol, Control.rank]

/-- The owner can always come to the end of its wait. -/
theorem exists_leave (idle : machine.engine.workers = []) :
    ∃ schedule last final, (∀ action ∈ schedule, action.isInternal = true) ∧
      machine.run schedule = some last ∧ last.act .leave = some final := by
  generalize hrank : machine.rank = count
  induction count using Nat.strongRecOn generalizing machine with
  | ind count ih =>
      cases leaves_or_helps idle with
      | inl leaves =>
          obtain ⟨final, hleave⟩ := leaves
          exact ⟨[], machine, final, by simp, rfl, hleave⟩
      | inr helped =>
          obtain ⟨action, next, helps⟩ := helped
          obtain ⟨rest, last, final, internal, hrun, hleave⟩ :=
            ih next.rank (hrank ▸ helps.rank_lt) helps.workers_eq rfl
          refine ⟨action :: rest, last, final, ?_, ?_, hleave⟩
          · intro other hother
            cases List.mem_cons.1 hother with
            | inl hfirst => exact hfirst ▸ helps.internal
            | inr hlater => exact internal other hlater
          · rw [run_cons, helps.act_eq]
            exact hrun

end Machine

end RegionOutline
