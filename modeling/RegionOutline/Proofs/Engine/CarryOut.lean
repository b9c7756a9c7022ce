import RegionOutline.Engine
import RegionOutline.Proofs.Session.Answers

/-!
# Carrying out commands

What an engine makes of a command: the workers it starts, the rows it publishes
and what it lets the session hear on the way. The session never hears of anything
but the caret of the host then, so the index and the scan under way stay as the
message that brought the command left them.
-/

namespace RegionOutline

namespace Command

mutual

/-- The workers that a command starts, in order. -/
def workers : Command → List Worker
  | .runScan revision source token => [{ revision, source, token }]
  | .batch commands => allWorkers commands
  | .nothing | .publish | .scrollToCaret | .scroll _ | .focus _ | .navigateTo _ => []

def allWorkers : List Command → List Worker
  | [] => []
  | command :: rest => workers command ++ allWorkers rest

end

mutual

/-- How often a command publishes. -/
def publications : Command → Nat
  | .publish => 1
  | .batch commands => allPublications commands
  | .nothing | .runScan _ _ _ | .scrollToCaret | .scroll _ | .focus _ | .navigateTo _ => 0

def allPublications : List Command → Nat
  | [] => 0
  | command :: rest => publications command + allPublications rest

end

end Command

namespace Session

variable {session : Session} {message : Message}

/-- Only a rebuild from a text starts a worker, under the revision and the token
of that rebuild. -/
theorem Answers.workers_eq {command : Command} (answers : session.Answers message command) :
    command.workers =
      match message with
      | .rebuild (some source) =>
          [{ revision := session.revision + 1, source, token := session.rebuildScope.nextToken }]
      | _ => [] := by
  cases answers with
  | scan source => rfl
  | released scroll => cases scroll <;> rfl
  | cleared => rfl
  | followed line scroll => cases scroll <;> rfl
  | visited line documentLines row => rfl
  | refused line documentLines => rfl
  | taken pass scroll => cases scroll <;> rfl
  | dropped fail => rfl

theorem mem_workers_asks {worker : Worker} (h : worker ∈ (session.asks message).workers) :
    (session.handle message).2 = some (.runScan worker.revision worker.source worker.token) ∧
      worker.finished = false := by
  rw [(session.answers_asks message).workers_eq] at h
  split at h
  · obtain rfl := List.mem_singleton.1 h
    exact ⟨rfl, rfl⟩
  · cases h

theorem Answers.publications_eq {command : Command} (answers : session.Answers message command) :
    command.publications = if session.publishes message then 1 else 0 := by
  cases answers with
  | scan source => rfl
  | released scroll => cases scroll <;> rfl
  | cleared => rfl
  | followed line scroll => cases scroll <;> rfl
  | visited line documentLines row => rfl
  | refused line documentLines => rfl
  | taken pass scroll =>
      rw [if_pos (publishes_report.2 pass)]
      cases scroll <;> rfl
  | dropped fail =>
      rw [if_neg (mt publishes_report.1 fail)]
      rfl

end Session

namespace ViewCall

/-- The rows that a call publishes. -/
def rows? : ViewCall → Option (List Entry)
  | .publish entries => some entries
  | .scrollTo _ | .focus _ => none

theorem entries_apply (view : View) (call : ViewCall) :
    (view.apply call).entries = call.rows?.getD view.entries := by
  cases call <;> rfl

end ViewCall

namespace Engine

variable {engine after last : Engine}

/-- The engine with other messages waiting. -/
def withQueue (engine : Engine) (queue : List Message) : Engine :=
  { engine with queue }

/-- The engine with other workers. -/
def withWorkers (engine : Engine) (workers : List Worker) : Engine :=
  { engine with workers }

/-- The rows published so far, the oldest first. -/
def published (engine : Engine) : List (List Entry) :=
  engine.journal.filterMap ViewCall.rows?

mutual

/-- The messages that the session hears while a command is carried out. -/
def heard (engine : Engine) : Command → List Message
  | .scrollToCaret => [.caretMoved engine.host.line?]
  | .batch commands => engine.heardAll commands
  | .nothing | .runScan _ _ _ | .publish | .scroll _ | .focus _ | .navigateTo _ => []

def heardAll (engine : Engine) : List Command → List Message
  | [] => []
  | command :: rest => engine.heard command ++ (engine.carryOut command).heardAll rest

end

/-- Beyond its viewport and its host, an engine has changed only in this: the
session heard these messages, all about the caret, these workers were started, and
the rows of the index were published so often. -/
structure CarriedOut (engine after : Engine) (heard : List Message) (started : List Worker)
    (publications : Nat) : Prop where
  caret : ∀ message ∈ heard, ∃ line, message = .caretMoved line
  session_eq : after.session = engine.session.hear heard
  queue_eq : after.queue = engine.queue
  workers_eq : after.workers = engine.workers ++ started
  published_eq : after.published =
    engine.published ++ List.replicate publications engine.session.index.entries
  rows_eq : after.view.entries =
    if publications = 0 then engine.view.entries else engine.session.index.entries

namespace CarriedOut

variable {heard moreHeard : List Message} {started moreStarted : List Worker}
variable {publications more : Nat}

theorem refl (engine : Engine) : CarriedOut engine engine [] [] 0 where
  caret := by simp
  session_eq := rfl
  queue_eq := rfl
  workers_eq := by simp
  published_eq := by simp
  rows_eq := rfl

theorem sameOutline (done : CarriedOut engine after heard started publications) :
    engine.session.SameOutline after.session := by
  rw [done.session_eq]
  exact engine.session.sameOutline_hear done.caret

theorem trans (first : CarriedOut engine after heard started publications)
    (second : CarriedOut after last moreHeard moreStarted more) :
    CarriedOut engine last (heard ++ moreHeard) (started ++ moreStarted)
      (publications + more) := by
  have hindex := first.sameOutline.index_eq
  constructor
  · intro message hmessage
    rcases List.mem_append.1 hmessage with hmessage | hmessage
    · exact first.caret message hmessage
    · exact second.caret message hmessage
  · rw [second.session_eq, first.session_eq, Session.hear_append]
  · rw [second.queue_eq, first.queue_eq]
  · rw [second.workers_eq, first.workers_eq, List.append_assoc]
  · rw [second.published_eq, first.published_eq, ← hindex, List.append_assoc,
      List.replicate_append_replicate]
  · rw [second.rows_eq, first.rows_eq, ← hindex]
    by_cases hmore : more = 0
    · simp [hmore]
    · simp [hmore]

end CarriedOut

/-- Moving the viewport publishes nothing. -/
theorem carriedOut_tell (engine : Engine) {call : ViewCall} (h : call.rows? = none) :
    CarriedOut engine (engine.tell call) [] [] 0 where
  caret := by simp
  session_eq := rfl
  queue_eq := rfl
  workers_eq := (List.append_nil _).symm
  published_eq := by simp [published, tell, h]
  rows_eq := by
    rw [if_pos rfl, tell, ViewCall.entries_apply, h]
    rfl

theorem carriedOut_publish (engine : Engine) :
    CarriedOut engine (engine.tell (.publish engine.session.index.entries)) [] [] 1 where
  caret := by simp
  session_eq := rfl
  queue_eq := rfl
  workers_eq := (List.append_nil _).symm
  published_eq := by simp [published, tell, ViewCall.rows?]
  rows_eq := rfl

theorem carriedOut_showScroll (engine : Engine) (scroll : Scroll) :
    CarriedOut engine (engine.showScroll scroll) [] [] 0 := by
  unfold showScroll
  split
  · exact (engine.carriedOut_tell rfl).trans (carriedOut_tell _ rfl)
  · exact CarriedOut.refl engine

/-- Asking the host for the caret lets the session hear where it is. -/
theorem carriedOut_scrollToCaret (engine : Engine) :
    CarriedOut engine engine.scrollToCaret [.caretMoved engine.host.line?] [] 0 := by
  have moved : CarriedOut engine
      { engine with session := (engine.session.moveCaret engine.host.line?).1 }
      [.caretMoved engine.host.line?] [] 0 := by
    constructor
    · simp
    · rfl
    · rfl
    · exact (List.append_nil _).symm
    · exact (List.append_nil _).symm
    · rfl
  unfold scrollToCaret
  cases hmove : engine.session.moveCaret engine.host.line? with
  | mk session asked =>
      rw [hmove] at moved
      cases asked with
      | none => exact moved
      | some scroll => exact moved.trans (carriedOut_showScroll _ scroll)

mutual

theorem carriedOut_carryOut (engine : Engine) (command : Command) :
    CarriedOut engine (engine.carryOut command) (engine.heard command) command.workers
      command.publications := by
  match command with
  | .nothing => exact CarriedOut.refl engine
  | .runScan revision source token =>
      constructor
      · simp [heard]
      · rfl
      · rfl
      · rfl
      · exact (List.append_nil _).symm
      · rfl
  | .publish => exact engine.carriedOut_publish
  | .scrollToCaret => exact engine.carriedOut_scrollToCaret
  | .scroll scroll => exact engine.carriedOut_showScroll scroll
  | .focus row => exact engine.carriedOut_tell rfl
  | .navigateTo line =>
      constructor
      · simp [heard]
      · rfl
      · rfl
      · exact (List.append_nil _).symm
      · exact (List.append_nil _).symm
      · rfl
  | .batch commands => exact carriedOut_carryOutAll engine commands

theorem carriedOut_carryOutAll (engine : Engine) (commands : List Command) :
    CarriedOut engine (engine.carryOutAll commands) (engine.heardAll commands)
      (Command.allWorkers commands) (Command.allPublications commands) := by
  match commands with
  | [] => exact CarriedOut.refl engine
  | command :: rest =>
      have first := carriedOut_carryOut engine command
      exact first.trans (carriedOut_carryOutAll (engine.carryOut command) rest)

end

/-- The messages that the session hears after one that it is passed, while the
command of that one is carried out. -/
def echoes (engine : Engine) (message : Message) : List Message :=
  { engine with session := (engine.session.handle message).1 }.heard (engine.session.asks message)

theorem dispatch_eq (engine : Engine) (message : Message) :
    engine.dispatch message =
      { engine with session := (engine.session.handle message).1 }.carryOut
        (engine.session.asks message) := by
  unfold dispatch process Session.asks
  cases hhandle : engine.session.handle message with
  | mk session asked =>
      cases asked with
      | none => rfl
      | some command => rfl

/-- A caret event does what following the caret of the host does. -/
theorem dispatch_caretMoved (engine : Engine) :
    engine.dispatch (HostEvent.caretMoved.message engine.host) = engine.scrollToCaret := by
  unfold dispatch process scrollToCaret
  simp only [HostEvent.message, Session.handle]
  cases engine.session.moveCaret engine.host.line? with
  | mk session asked =>
      cases asked with
      | none => rfl
      | some scroll => rfl

/-- What passing a message on does, beyond the session's own answer to it. -/
theorem carriedOut_dispatch (engine : Engine) (message : Message) :
    CarriedOut { engine with session := (engine.session.handle message).1 }
      (engine.dispatch message) (engine.echoes message) (engine.session.asks message).workers
      (engine.session.asks message).publications := by
  rw [dispatch_eq]
  exact carriedOut_carryOut _ _

end Engine

end RegionOutline
