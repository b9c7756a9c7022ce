import RegionOutline.Document
import RegionOutline.Scan
import RegionOutline.Session.Update
import RegionOutline.View

/-! # The engine

One session at work between a host and a view. Host events become messages with
what the host can tell at that moment; the commands that come back are carried
out on the view and the host. A scan runs aside, as a worker that reports through
the queue, behind the messages that already wait there. Here every worker ends
before the next event or message is looked at. -/

namespace RegionOutline

/-- Signals of a host. They carry no document data. -/
inductive HostEvent where
  | opened
  | textChanged
  | saved
  | activated
  | closing
  | caretMoved
  | entryActivated (line : Nat)
  deriving DecidableEq

namespace HostEvent

/-- Events answered by a rebuild. -/
def triggersRebuild : HostEvent → Bool
  | .opened | .textChanged | .saved | .activated => true
  | .closing | .caretMoved | .entryActivated _ => false

/-- The message of an event, with what the host tells now. -/
def message (host : Host) : HostEvent → Message
  | .opened | .textChanged | .saved | .activated => .rebuild host.text?
  | .closing => .close
  | .caretMoved => .caretMoved host.line?
  | .entryActivated line => .entryActivated line host.lineCount?

end HostEvent

/-- A scan that runs aside. -/
structure Worker where
  revision : Nat
  source : String
  token : Token
  /-- It has reported or given up, and only waits to be accounted for. -/
  finished : Bool := false
  deriving DecidableEq

namespace Worker

/-- The report of a worker that ends now. It gives up without one when its token
is cancelled. -/
def report? (scope : CancelScope) (worker : Worker) : Option Message :=
  if worker.finished then none
  else
    (scanUnless (fun _ => !scope.isLive worker.token) worker.source).map
      (.scanCompleted worker.revision worker.token)

end Worker

structure Engine where
  session : Session := {}
  host : Host := {}
  view : View := {}
  /-- Messages that wait, the oldest first. -/
  queue : List Message := []
  /-- Scans not yet accounted for, the oldest first. -/
  workers : List Worker := []
  /-- Everything the view was told, the oldest first. -/
  journal : List ViewCall := []
  deriving DecidableEq

namespace Engine

/-- Call the view. -/
def tell (engine : Engine) (call : ViewCall) : Engine :=
  { engine with view := engine.view.apply call, journal := engine.journal ++ [call] }

/-- Put a message at the end of the queue. -/
def post (engine : Engine) (message : Message) : Engine :=
  { engine with queue := engine.queue ++ [message] }

/-- Show a viewport unless its token was superseded. -/
def showScroll (engine : Engine) (scroll : Scroll) : Engine :=
  if engine.session.scrollScope.isCurrent scroll.token then
    (engine.tell (.scrollTo scroll.target.first)).tell (.focus scroll.target.focused)
  else engine

/-- Have the session follow the caret of the host. Nothing but a scroll can come
of it. -/
def scrollToCaret (engine : Engine) : Engine :=
  match engine.session.moveCaret engine.host.line? with
  | (session, none) => { engine with session }
  | (session, some scroll) => { engine with session }.showScroll scroll

/-- Start a worker. -/
def runScan (engine : Engine) (revision : Nat) (source : String) (token : Token) : Engine :=
  { engine with workers := engine.workers ++ [{ revision, source, token }] }

/-- Let every worker end. -/
def finishScans (engine : Engine) : Engine :=
  { engine with
    queue :=
      engine.queue ++ engine.workers.filterMap (Worker.report? engine.session.rebuildScope)
    workers := engine.workers.map fun worker => { worker with finished := true } }

mutual

/-- Carry out a command. -/
def carryOut (engine : Engine) : Command → Engine
  | .nothing => engine
  | .runScan revision source token => engine.runScan revision source token
  | .publish => engine.tell (.publish engine.session.index.entries)
  | .scrollToCaret => engine.scrollToCaret
  | .scroll scroll => engine.showScroll scroll
  | .focus row => engine.tell (.focus row)
  | .navigateTo line => { engine with host := engine.host.moveCaret line }
  | .batch commands => engine.carryOutAll commands

def carryOutAll (engine : Engine) : List Command → Engine
  | [] => engine
  | command :: rest => (engine.carryOut command).carryOutAll rest

end

/-- Pass a message to the session and carry out what it asks for; tells also
whether the view was meant by it. -/
def process (engine : Engine) (message : Message) : Engine × Bool :=
  match engine.session.handle message with
  | (session, none) => ({ engine with session }, false)
  | (session, some command) => ({ engine with session }.carryOut command, command.touchesView)

def dispatch (engine : Engine) (message : Message) : Engine :=
  (engine.process message).1

/-- Pass an event of the host to the session. -/
def handleEvent (engine : Engine) (event : HostEvent) : Engine :=
  (engine.dispatch (event.message engine.host)).finishScans

/-- Handle the oldest messages, at most so many; tells whether the view was meant
by any. -/
def handleOldest : Nat → Engine → Bool → Engine × Bool
  | 0, engine, changed => (engine, changed)
  | count + 1, engine, changed =>
      match engine.queue with
      | [] => (engine, changed)
      | message :: rest =>
          let processed := { engine with queue := rest }.process message
          handleOldest count processed.1 (changed || processed.2)

/-- Handle the messages that wait now; tells whether the view was meant by any.
The report of a scan that one of them starts is left for later. -/
def poll (engine : Engine) : Engine × Bool :=
  let handled := handleOldest engine.queue.length engine false
  (handled.1.finishScans, handled.2)

/-- Handle the oldest message, if one waits. -/
def handleOne (engine : Engine) : Engine × Bool :=
  match engine.queue with
  | [] => (engine, false)
  | message :: rest => (({ engine with queue := rest }.dispatch message).finishScans, true)

/-- How many messages can come of one: a rebuild with a text brings the report of
its scan. -/
def workOf : Message → Nat
  | .rebuild (some _) => 2
  | _ => 1

/-- How many messages can still come of the queue and the workers. -/
def work (engine : Engine) : Nat :=
  (engine.queue.map workOf).foldr (· + ·) 0 + engine.workers.countP (!·.finished)

/-- Let workers end and handle messages in turn, at most so many of them. -/
def settle : Nat → Engine → Engine
  | 0, engine => engine
  | count + 1, engine =>
      let engine := engine.finishScans
      match engine.queue with
      | [] => engine
      | message :: rest => settle count ({ engine with queue := rest }.dispatch message)

/-- Handle messages until none waits and every worker is accounted for. -/
def runUntilIdle (engine : Engine) : Engine :=
  { settle engine.work engine with workers := [] }

/-- Cancel all work under way. -/
def shutdown (engine : Engine) : Engine :=
  { engine with
    session :=
      { engine.session with
        rebuildScope := engine.session.rebuildScope.cancel
        scrollScope := engine.session.scrollScope.cancel }
    workers := [] }

end Engine

end RegionOutline
