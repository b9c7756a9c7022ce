import RegionOutline.Proofs.Engine.CarryOut
import RegionOutline.Proofs.Session.Supersession

/-!
# Engines and their threads

An engine whose scans run on threads of their own, which take their steps in any
order among each other, the host, those who post messages and the thread that owns
the engine. The queue is first in, first out and loses nothing, and a thread has
ended only after its report is in the queue.

The owner passes on events and messages, or waits until nothing is left to do. In
that case it looks at the threads one after the other and drops those that have
ended, then waits a while for a message if some are left; if none is left and no
message is there, it is done. The main statement lists all that one step can do.
-/

namespace RegionOutline

theorem HostEvent.isReport_message (event : HostEvent) (host : Host) :
    (event.message host).isReport = false := by
  cases event <;> rfl

/-- How far a thread has come. -/
inductive Progress where
  | starting
  /-- Between two lines, with those still to be read and the entries made. -/
  | scanning (scanner : Scanner) (rest : List (List Char)) (made : List Entry)
  | reporting (entries : List Entry)
  | returning
  | ended
  deriving DecidableEq

namespace Progress

/-- Whether the next step begins with a look at the token. -/
def asks : Progress → Bool
  | .starting | .scanning _ _ _ => true
  | .reporting _ | .returning | .ended => false

/-- Whether a report is still to come, unless the token is cancelled. -/
def isPending : Progress → Bool
  | .starting | .scanning _ _ _ | .reporting _ => true
  | .returning | .ended => false

/-- The next step, if the token is live where it is looked at. It is so before
the scan, before each line and once at the end. -/
def next (source : String) : Progress → Progress
  | .starting => .scanning {} (Text.sourceLines source.toList) []
  | .scanning scanner (line :: rest) made =>
      .scanning (scanner.feed line).1 rest (made ++ (scanner.feed line).2.toList)
  | .scanning _ [] made => .reporting made
  | .reporting _ => .returning
  | .returning | .ended => .ended

/-- What is made and what is still to be read add up to the outline. -/
def Scans (source : String) : Progress → Prop
  | .scanning scanner rest made => made ++ scanner.entries rest = scan source
  | .reporting entries => entries = scan source
  | .starting | .returning | .ended => True

theorem Scans.next {source : String} {progress : Progress} (scans : progress.Scans source) :
    (progress.next source).Scans source := by
  match progress with
  | .starting => rfl
  | .scanning scanner (line :: rest) made =>
      change made ++ scanner.entries (line :: rest) = scan source at scans
      rw [Scanner.entries_cons, ← List.append_assoc] at scans
      exact scans
  | .scanning scanner [] made =>
      change made ++ [] = scan source at scans
      rwa [List.append_nil] at scans
  | .reporting entries => trivial
  | .returning => trivial
  | .ended => trivial

end Progress

/-- A scan on a thread of its own. -/
structure Thread where
  revision : Nat
  source : String
  token : Token
  progress : Progress := .starting
  deriving DecidableEq

namespace Thread

variable {settings : Settings} {handled : List Message} {thread : Thread}

def ofWorker (worker : Worker) : Thread where
  revision := worker.revision
  source := worker.source
  token := worker.token
  progress := if worker.finished then .ended else .starting

/-- One step, given whether the token is live. If it is not, the thread gives up
without a word when it comes to look at it. -/
def step (live : Bool) (thread : Thread) : Thread :=
  { thread with
    progress :=
      if thread.progress.asks && !live then .returning else thread.progress.next thread.source }

/-- What the next step puts into the queue. -/
def sends (thread : Thread) : List Message :=
  match thread.progress with
  | .reporting entries => [.scanCompleted thread.revision thread.token entries]
  | .starting | .scanning _ _ _ | .returning | .ended => []

theorem mem_sends {message : Message} (h : message ∈ thread.sends) :
    ∃ entries, thread.progress = .reporting entries ∧
      message = .scanCompleted thread.revision thread.token entries := by
  unfold sends at h
  cases hprogress : thread.progress with
  | reporting entries =>
      rw [hprogress] at h
      exact ⟨entries, rfl, List.mem_singleton.1 h⟩
  | starting => simp [hprogress] at h
  | scanning scanner rest made => simp [hprogress] at h
  | returning => simp [hprogress] at h
  | ended => simp [hprogress] at h

/-- While its token is live, a thread goes on until it has reported. -/
theorem isPending_step (h : thread.progress.isPending = true) :
    (thread.step true).progress.isPending = true ∨
      ∃ entries, .scanCompleted thread.revision thread.token entries ∈ thread.sends := by
  cases hprogress : thread.progress with
  | starting => simp [step, hprogress, Progress.next, Progress.isPending]
  | scanning scanner rest made =>
      left
      cases rest <;> simp [step, hprogress, Progress.next, Progress.isPending]
  | reporting entries => exact Or.inr ⟨entries, by simp [sends, hprogress]⟩
  | returning => simp [hprogress, Progress.isPending] at h
  | ended => simp [hprogress, Progress.isPending] at h

/-- The thread runs a scan that the session asked for, and has made no mistake so
far. -/
structure Serves (settings : Settings) (handled : List Message) (thread : Thread) : Prop where
  asked : ∃ later,
    Session.Asked settings handled thread.revision thread.source thread.token later
  scans : thread.progress.Scans thread.source

theorem Serves.step (serves : thread.Serves settings handled) (live : Bool) :
    (thread.step live).Serves settings handled := by
  refine ⟨serves.asked, ?_⟩
  unfold Thread.step
  split
  · trivial
  · exact serves.scans.next

theorem Serves.append (serves : thread.Serves settings handled) (more : List Message) :
    thread.Serves settings (handled ++ more) := by
  obtain ⟨later, earlier, asking, rfl, hasking⟩ := serves.asked
  exact ⟨⟨later ++ more, earlier, asking, by simp, hasking⟩, serves.scans⟩

end Thread

/-- What the owner of an engine is at. -/
inductive Control where
  | free
  /-- Waiting for idleness, about to look at the thread at a position. -/
  | reaping (position : Nat)
  /-- Waiting for idleness, about to look for a message; tells whether threads
  are left. -/
  | receiving (busy : Bool)
  deriving DecidableEq

/-- An engine with its threads. -/
structure Machine where
  /-- The engine, less its workers. -/
  engine : Engine
  /-- The workers of the engine that are not accounted for, the oldest first. -/
  threads : List Thread := []
  control : Control := .free
  /-- Every message that the session has handled, the oldest first. -/
  handled : List Message := []
  deriving DecidableEq

/-- The steps of a machine. -/
inductive Action where
  /-- An event of the host is passed on. -/
  | event (event : HostEvent)
  /-- The host changes of itself. -/
  | change (host : Host)
  /-- Anyone puts a message into the queue. -/
  | post (message : Message)
  /-- The thread at a position takes its next step. -/
  | work (position : Nat)
  /-- The owner handles the oldest message. -/
  | take
  /-- The owner begins to wait for idleness. -/
  | enter
  /-- It looks at the next thread, or has looked at all of them. -/
  | look
  /-- It finds a message while it waits. -/
  | receive
  /-- It waits in vain for a message while threads are left. -/
  | timeOut
  /-- It finds neither threads nor messages left. -/
  | leave
  deriving DecidableEq

namespace Machine

/-- A machine at rest with a fresh session. -/
def start (settings : Settings) (host : Host) (view : View) : Machine where
  engine := { session := { settings }, host, view }

/-- Pass a message to the session. Workers that this starts get threads. -/
def dispatch (machine : Machine) (message : Message) : Machine :=
  let engine := machine.engine.dispatch message
  { machine with
    engine := engine.withWorkers []
    threads := machine.threads ++ engine.workers.map Thread.ofWorker
    handled := machine.handled ++ message :: machine.engine.echoes message }

/-- Leave these messages in the queue. -/
def withQueue (machine : Machine) (queue : List Message) : Machine :=
  { machine with engine := machine.engine.withQueue queue }

/-- Let the thread that stands at a position take a step. -/
def work (machine : Machine) (position : Nat) (thread : Thread) : Machine :=
  { machine with
    engine := { machine.engine with queue := machine.engine.queue ++ thread.sends }
    threads := machine.threads.set position
      (thread.step (machine.engine.session.rebuildScope.isLive thread.token)) }

/-- Look at the thread at a position. -/
def lookAt (machine : Machine) (position : Nat) : Machine :=
  match machine.threads[position]? with
  | none => { machine with control := .receiving (!machine.threads.isEmpty) }
  | some thread =>
      if thread.progress = .ended then
        { machine with threads := machine.threads.eraseIdx position }
      else { machine with control := .reaping (position + 1) }

/-- The machine after a step, if the step is possible now. -/
def act (machine : Machine) : Action → Option Machine
  | .event event =>
      if machine.control = .free then
        some (machine.dispatch (event.message machine.engine.host))
      else none
  | .change host => some { machine with engine := { machine.engine with host } }
  | .post message => some { machine with engine := machine.engine.post message }
  | .work position => machine.threads[position]?.map (machine.work position)
  | .take =>
      match machine.control, machine.engine.queue with
      | .free, message :: waiting => some ((machine.withQueue waiting).dispatch message)
      | _, _ => none
  | .enter => if machine.control = .free then some { machine with control := .reaping 0 } else none
  | .look =>
      match machine.control with
      | .reaping position => some (machine.lookAt position)
      | _ => none
  | .receive =>
      match machine.control, machine.engine.queue with
      | .receiving _, message :: waiting =>
          some { (machine.withQueue waiting).dispatch message with control := .reaping 0 }
      | _, _ => none
  | .timeOut =>
      if machine.control = .receiving true then some { machine with control := .reaping 0 }
      else none
  | .leave =>
      match machine.control, machine.engine.queue with
      | .receiving false, [] => some { machine with control := .free }
      | _, _ => none

/-- The machine after the steps of a schedule, if all of them are possible. -/
def run (machine : Machine) (schedule : List Action) : Option Machine :=
  schedule.foldlM act machine

variable {settings : Settings} {machine after : Machine} {action : Action}
variable {schedule : List Action}

@[simp] theorem run_nil (machine : Machine) : machine.run [] = some machine := rfl

theorem run_cons (machine : Machine) (action : Action) (rest : List Action) :
    machine.run (action :: rest) = (machine.act action).bind (·.run rest) := by
  rfl

theorem run_append (machine : Machine) (first second : List Action) :
    machine.run (first ++ second) = (machine.run first).bind (·.run second) :=
  List.foldlM_append

theorem run_concat (machine : Machine) (schedule : List Action) (action : Action) :
    machine.run (schedule ++ [action]) = (machine.run schedule).bind (·.act action) := by
  rw [run_append]
  congr 1
  funext next
  change (next.act action >>= pure) = next.act action
  exact bind_pure _

/-- As far as a schedule can be followed, every step of it is of this kind. -/
def EachStep (kind : Machine → Action → Machine → Prop) : Machine → List Action → Prop
  | _, [] => True
  | machine, action :: rest =>
      ∀ next ∈ machine.act action, kind machine action next ∧ EachStep kind next rest

instance decidableEachStep (kind : Machine → Action → Machine → Prop)
    [∀ machine action next, Decidable (kind machine action next)] :
    ∀ machine schedule, Decidable (EachStep kind machine schedule)
  | _, [] => .isTrue trivial
  | machine, action :: rest =>
      have := fun next => decidableEachStep kind next rest
      inferInstanceAs (Decidable (∀ next ∈ machine.act action,
        kind machine action next ∧ EachStep kind next rest))

theorem EachStep.imp {kind other : Machine → Action → Machine → Prop}
    (h : ∀ machine action next, kind machine action next → other machine action next)
    (steps : machine.EachStep kind schedule) : machine.EachStep other schedule := by
  induction schedule generalizing machine with
  | nil => trivial
  | cons action rest ih =>
      intro next hact
      obtain ⟨hkind, later⟩ := steps next hact
      exact ⟨h _ _ _ hkind, ih later⟩

/-- What every step keeps holds after each step. -/
theorem eachStep_of_kept {kept : Machine → Prop}
    (step : ∀ machine action next, kept machine → machine.act action = some next → kept next)
    (first : kept machine) (schedule : List Action) :
    machine.EachStep (fun _ _ next => kept next) schedule := by
  induction schedule generalizing machine with
  | nil => trivial
  | cons action rest ih =>
      intro next hact
      have hnext := step machine action next first hact
      exact ⟨hnext, ih hnext⟩

/-- All that a step can do: move the owner on, take in a message, move a thread on,
drop a thread that has ended, or pass on a message, which comes out of the queue
unless the host brings it. -/
inductive Moves (machine : Machine) : Action → Machine → Prop
  | rest {action : Action} (host : Host) (control : Control)
      (accounted : control = .receiving false →
        machine.control = .receiving false ∨ machine.threads = []) :
      Moves machine action { machine with engine := { machine.engine with host }, control }
  | post (message : Message) :
      Moves machine (.post message) { machine with engine := machine.engine.post message }
  | work {position : Nat} {thread : Thread} (standing : machine.threads[position]? = some thread) :
      Moves machine (.work position) (machine.work position thread)
  | reap {action : Action} {position : Nat} {thread : Thread}
      (standing : machine.threads[position]? = some thread) (ended : thread.progress = .ended)
      (looking : machine.control = .reaping position) :
      Moves machine action { machine with threads := machine.threads.eraseIdx position }
  | handle {action : Action} (message : Message) (waiting : List Message) (control : Control)
      (source : machine.engine.queue = message :: waiting ∨
        machine.engine.queue = waiting ∧ message.isReport = false)
      (moving : control ≠ .receiving false) :
      Moves machine action { (machine.withQueue waiting).dispatch message with control }

theorem moves_lookAt {position : Nat} (looking : machine.control = .reaping position) :
    machine.Moves action (machine.lookAt position) := by
  unfold lookAt
  cases hstanding : machine.threads[position]? with
  | none =>
      apply Moves.rest machine.engine.host
      intro hbusy
      right
      simpa using hbusy
  | some thread =>
      by_cases hended : thread.progress = .ended
      · simp only [hended, if_true]
        exact .reap hstanding hended looking
      · simp only [hended, if_false]
        exact .rest machine.engine.host _ (by simp)

theorem moves_of_act (h : machine.act action = some after) : machine.Moves action after := by
  match action with
  | .event event =>
      simp only [act] at h
      split at h
      · cases h
        rename_i hfree
        have moves : machine.Moves (.event event)
            { (machine.withQueue machine.engine.queue).dispatch
                (event.message machine.engine.host) with control := .free } :=
          .handle _ _ _ (Or.inr ⟨rfl, event.isReport_message _⟩) (by simp)
        rwa [← hfree] at moves
      · cases h
  | .change host =>
      cases h
      exact .rest host machine.control Or.inl
  | .post message =>
      cases h
      exact .post message
  | .work position =>
      obtain ⟨thread, hstanding, rfl⟩ := Option.map_eq_some_iff.1 h
      exact .work hstanding
  | .take =>
      simp only [act] at h
      split at h
      · cases h
        rename_i message waiting hfree hqueue
        have moves : machine.Moves .take
            { (machine.withQueue waiting).dispatch message with control := .free } :=
          .handle _ _ _ (Or.inl hqueue) (by simp)
        rwa [← hfree] at moves
      · cases h
  | .enter =>
      simp only [act] at h
      split at h
      · cases h
        exact .rest machine.engine.host _ (by simp)
      · cases h
  | .look =>
      simp only [act] at h
      split at h
      · cases h
        rename_i position hlooking
        exact moves_lookAt hlooking
      · cases h
  | .receive =>
      simp only [act] at h
      split at h
      · cases h
        rename_i busy message waiting hreceiving hqueue
        exact .handle message waiting _ (Or.inl hqueue) (by simp)
      · cases h
  | .timeOut =>
      simp only [act] at h
      split at h
      · cases h
        exact .rest machine.engine.host _ (by simp)
      · cases h
  | .leave =>
      simp only [act] at h
      split at h
      · cases h
        exact .rest machine.engine.host _ (by simp)
      · cases h

/-- All that passing a message on changes, while these messages are left in the
queue. The session hears of the caret after the message, if of anything. -/
structure Handles (machine : Machine) (message : Message) (waiting echoes : List Message)
    (after : Machine) : Prop where
  caret : ∀ echo ∈ echoes, ∃ line, echo = .caretMoved line
  handled_eq : after.handled = machine.handled ++ message :: echoes
  session_eq : after.engine.session = (machine.engine.session.handle message).1.hear echoes
  queue_eq : after.engine.queue = waiting
  workers_eq : after.engine.workers = []
  threads_eq : after.threads = machine.threads ++
    (machine.engine.session.asks message).workers.map Thread.ofWorker
  published_eq : after.engine.published = machine.engine.published ++
    if machine.engine.session.publishes message then
      [(machine.engine.session.handle message).1.index.entries]
    else []
  rows_eq : after.engine.view.entries =
    if machine.engine.session.publishes message then
      (machine.engine.session.handle message).1.index.entries
    else machine.engine.view.entries

theorem handles_dispatch (idle : machine.engine.workers = []) (message : Message)
    (waiting : List Message) (control : Control) :
    machine.Handles message waiting ((machine.withQueue waiting).engine.echoes message)
      { (machine.withQueue waiting).dispatch message with control } := by
  have done := (machine.withQueue waiting).engine.carriedOut_dispatch message
  have answers := machine.engine.session.answers_asks message
  have hpublications : ((machine.withQueue waiting).engine.session.asks message).publications =
      if machine.engine.session.publishes message then 1 else 0 := answers.publications_eq
  rw [hpublications] at done
  constructor
  · exact done.caret
  · rfl
  · exact done.session_eq
  · exact done.queue_eq
  · rfl
  · change machine.threads ++ _ = _
    rw [done.workers_eq]
    change _ ++ (machine.engine.workers ++ _).map Thread.ofWorker = _
    rw [idle]
    rfl
  · refine done.published_eq.trans ?_
    cases machine.engine.session.publishes message <;> rfl
  · refine done.rows_eq.trans ?_
    cases machine.engine.session.publishes message <;> rfl

theorem Handles.sameOutline {message : Message} {waiting echoes : List Message}
    (handles : machine.Handles message waiting echoes after) :
    (machine.engine.session.handle message).1.SameOutline after.engine.session := by
  rw [handles.session_eq]
  exact Session.sameOutline_hear _ handles.caret

end Machine

end RegionOutline
