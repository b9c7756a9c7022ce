import RegionOutline.Proofs.Engine.Display

/-!
# What a poll tells

A poll handles the messages that wait and tells whether the view was meant by any of
them. It goes by the commands that the session answers with, before they are carried out,
while a command may come to nothing: a scroll is dropped under a superseded token, and a
caret that the host cannot tell is not followed. The main statement says that the answer is
right all the same: it is yes exactly if the view was called. A session asks for a scroll
only under a current token, and it never asks for the caret alone.

While the owner is at a poll, the threads go on, messages come in and the host changes.
-/

namespace RegionOutline

namespace Session

variable {session : Session} {message : Message} {scroll : Scroll}

/-- A scroll that is let go is still wanted. -/
theorem current_of_replayPending (h : session.replayPending.2 = some scroll) :
    session.replayPending.1.scrollScope.isCurrent scroll.token = true := by
  obtain ⟨focused, first, hreplay⟩ := session.replayPending_eq
  rw [hreplay]
  obtain ⟨pending, hpending, htoken⟩ := token_of_replayPending h
  rw [htoken]
  -- Under any other token nothing would have been let go.
  by_contra hstale
  simp [replayPending, hpending, hstale] at h

theorem current_of_moveCaret {line : Option Nat} (h : (session.moveCaret line).2 = some scroll) :
    (session.moveCaret line).1.scrollScope.isCurrent scroll.token = true := by
  obtain ⟨pending, focused, first, hmove⟩ := session.moveCaret_eq line
  rw [hmove, (token_of_moveCaret h).1]
  exact CancelScope.isCurrent_renew _

end Session

namespace Engine

variable {engine after last : Engine} {calls more : List ViewCall}

theorem Told.calls_unique (first : engine.Told after calls) (second : engine.Told after more) :
    calls = more :=
  List.append_cancel_left (first.journal_eq.symm.trans second.journal_eq)

/-- The view is called at most for what a scroll shows. -/
theorem exists_told_showScroll (engine : Engine) (scroll : Scroll) :
    ∃ calls, engine.Told (engine.showScroll scroll) calls := by
  by_cases current : engine.session.scrollScope.isCurrent scroll.token = true
  · exact ⟨_, (engine.told_showScroll scroll current).1⟩
  · rw [showScroll, if_neg current]
    exact ⟨[], told_nothing rfl rfl⟩

theorem exists_told_scrollToCaret (engine : Engine) :
    ∃ calls, engine.Told engine.scrollToCaret calls := by
  unfold scrollToCaret
  cases engine.session.moveCaret engine.host.line? with
  | mk session asked =>
      cases asked with
      | none => exact ⟨[], told_nothing rfl rfl⟩
      | some scroll =>
          obtain ⟨calls, told⟩ := exists_told_showScroll { engine with session } scroll
          exact ⟨calls, told.view_eq, told.journal_eq⟩

mutual

/-- Whatever command is carried out, the view changes by calls only, and it is not called at
all if the command is not meant for it. -/
theorem told_carryOut (engine : Engine) (command : Command) :
    ∃ calls, engine.Told (engine.carryOut command) calls ∧
      (command.touchesView = false → calls = []) := by
  match command with
  | .nothing => exact ⟨[], told_nothing rfl rfl, fun _ => rfl⟩
  | .runScan revision source token => exact ⟨[], told_nothing rfl rfl, fun _ => rfl⟩
  | .publish => exact ⟨_, engine.told_tell _, nofun⟩
  | .scrollToCaret =>
      obtain ⟨calls, told⟩ := engine.exists_told_scrollToCaret
      exact ⟨calls, told, nofun⟩
  | .scroll scroll =>
      obtain ⟨calls, told⟩ := engine.exists_told_showScroll scroll
      exact ⟨calls, told, nofun⟩
  | .focus row => exact ⟨_, engine.told_tell _, nofun⟩
  | .navigateTo line => exact ⟨[], told_nothing rfl rfl, fun _ => rfl⟩
  | .batch commands => exact told_carryOutAll engine commands

theorem told_carryOutAll (engine : Engine) (commands : List Command) :
    ∃ calls, engine.Told (engine.carryOutAll commands) calls ∧
      (Command.anyTouchesView commands = false → calls = []) := by
  match commands with
  | [] => exact ⟨[], told_nothing rfl rfl, fun _ => rfl⟩
  | command :: rest =>
      obtain ⟨calls, told, hfirst⟩ := told_carryOut engine command
      obtain ⟨others, later, hrest⟩ := told_carryOutAll (engine.carryOut command) rest
      refine ⟨calls ++ others, told.trans later, ?_⟩
      intro huntouched
      obtain ⟨hcommand, hothers⟩ := Bool.or_eq_false_iff.1 huntouched
      rw [hfirst hcommand, hrest hothers, List.append_nil]

end

/-- A scroll under a current token calls the view, if there is one. -/
theorem called_of_scroll {scroll : Option Scroll}
    (current : ∀ asked, scroll = some asked →
      engine.session.scrollScope.isCurrent asked.token = true)
    (touches : ((scroll.map Command.scroll).getD .nothing).touchesView = true) :
    ∃ call more, engine.Told
      (engine.carryOut ((scroll.map Command.scroll).getD .nothing)) (call :: more) := by
  cases scroll with
  | none => cases touches
  | some asked => exact ⟨_, _, (engine.told_showScroll asked (current asked rfl)).1⟩

/-- A command that a session answers with calls the view if it is meant for it. -/
theorem called_of_touchesView (engine : Engine) (message : Message)
    (touches : (engine.session.asks message).touchesView = true) :
    ∃ call more, { engine with session := (engine.session.handle message).1 }.Told
      ({ engine with session := (engine.session.handle message).1 }.carryOut
        (engine.session.asks message)) (call :: more) := by
  match message with
  | .rebuild none => exact called_of_scroll (fun _ => Session.current_of_replayPending) touches
  | .rebuild (some source) => cases touches
  | .close => exact ⟨_, _, told_tell _ _⟩
  | .caretMoved line => exact called_of_scroll (fun _ => Session.current_of_moveCaret) touches
  | .entryActivated line documentLines =>
      simp only [Session.asks, Session.handle, Session.activate] at touches ⊢
      split at touches
      · rename_i inside
        rw [if_pos inside]
        exact ⟨_, _, ⟨rfl, rfl⟩⟩
      · cases touches
  | .scanCompleted revision token entries =>
      by_cases pass : engine.session.rebuildScope.isCurrent token = true ∧
          engine.session.revision = revision
      · -- What comes behind the publication may come to nothing.
        simp only [Session.asks, Session.handle, Session.completeScan_of_pass entries pass]
        obtain ⟨calls, told, _⟩ := told_carryOut (carryOut _ .publish) _
        exact ⟨_, calls, (told_tell _ _).trans told⟩
      · simp only [Session.asks, Session.handle, Session.completeScan, if_neg pass] at touches
        cases touches

/-- What was told of the way from one engine to another is true: the view was called exactly
if it was said to be, and is as before if not. -/
structure Reports (engine after : Engine) (changed : Bool) : Prop where
  called : ∃ calls, engine.Told after calls ∧ (changed = true ↔ calls ≠ [])
  unchanged : changed = false → after.view = engine.view

theorem reports_of_told (told : engine.Told after calls) {changed : Bool}
    (h : changed = true ↔ calls ≠ []) : engine.Reports after changed := by
  refine ⟨⟨calls, told, h⟩, ?_⟩
  rintro rfl
  have hnone : calls = [] := not_not.1 (mt h.2 Bool.false_ne_true)
  rw [told.view_eq, hnone]
  rfl

theorem Reports.trans {changed later : Bool} (first : engine.Reports after changed)
    (second : after.Reports last later) : engine.Reports last (changed || later) := by
  obtain ⟨calls, told, hchanged⟩ := first.called
  obtain ⟨others, more, hlater⟩ := second.called
  apply reports_of_told (told.trans more)
  rw [Bool.or_eq_true, hchanged, hlater, ← not_and_or, ← List.append_eq_nil_iff]

/-- Where neither the view nor its journal is touched, nothing is reported. -/
theorem reports_false (hview : after.view = engine.view)
    (hjournal : after.journal = engine.journal) :
    engine.Reports after false :=
  reports_of_told (told_nothing hview hjournal) (by simp)

/-- One message: the view is called exactly if the command of the message is meant for
it. -/
theorem reports_process (engine : Engine) (message : Message) :
    engine.Reports (engine.process message).1 (engine.process message).2 := by
  have hprocess : engine.process message =
      ({ engine with session := (engine.session.handle message).1 }.carryOut
        (engine.session.asks message), (engine.session.asks message).touchesView) := by
    unfold process Session.asks
    cases hhandle : engine.session.handle message with
    | mk session asked => cases asked <;> rfl
  rw [hprocess]
  obtain ⟨calls, told, huntouched⟩ :=
    told_carryOut { engine with session := (engine.session.handle message).1 }
      (engine.session.asks message)
  have since : engine.Told
      ({ engine with session := (engine.session.handle message).1 }.carryOut
        (engine.session.asks message)) calls := ⟨told.view_eq, told.journal_eq⟩
  apply reports_of_told since
  change (engine.session.asks message).touchesView = true ↔ _
  cases htouches : (engine.session.asks message).touchesView with
  | false => simp [huntouched htouches]
  | true =>
      obtain ⟨call, more, hcalled⟩ := engine.called_of_touchesView message htouches
      rw [told.calls_unique hcalled]
      simp

/-- The messages that are handled one after the other are told of together. -/
theorem reports_handleOldest (count : Nat) (engine : Engine) (changed : Bool) :
    ∃ later, engine.Reports (handleOldest count engine changed).1 later ∧
      (handleOldest count engine changed).2 = (changed || later) := by
  induction count generalizing engine changed with
  | zero => exact ⟨false, reports_false rfl rfl, (Bool.or_false changed).symm⟩
  | succ count ih =>
      cases hqueue : engine.queue with
      | nil =>
          simp only [handleOldest, hqueue]
          exact ⟨false, reports_false rfl rfl, (Bool.or_false changed).symm⟩
      | cons message rest =>
          have first := reports_process { engine with queue := rest } message
          obtain ⟨later, second, htold⟩ := ih ({ engine with queue := rest }.process message).1
            (changed || ({ engine with queue := rest }.process message).2)
          have untouched : engine.Reports { engine with queue := rest } false :=
            reports_false rfl rfl
          simp only [handleOldest, hqueue]
          refine ⟨_, (untouched.trans first).trans second, ?_⟩
          rw [htold, Bool.false_or, Bool.or_assoc]

theorem reports_poll (engine : Engine) : engine.Reports engine.poll.1 engine.poll.2 := by
  obtain ⟨later, reports, htold⟩ := reports_handleOldest engine.queue.length engine false
  have ended : Reports (handleOldest engine.queue.length engine false).1 engine.poll.1 false :=
    reports_false rfl rfl
  have hresult : engine.poll.2 = (later || false) := by
    rw [Bool.or_false]
    exact htold
  rw [hresult]
  exact reports.trans ended

end Engine

/-- Whether a step is one of the host, of a thread or of anyone who posts, and so can fall
into what the owner does. -/
def Action.isAside : Action → Bool
  | .change _ | .post _ | .work _ => true
  | .event _ | .take | .enter | .look | .receive | .timeOut | .leave => false

namespace Machine

/-- A poll from one machine to another with its answer. The owner takes the oldest message as
long as there is one, and notes whether the view is meant by it; others take their steps in
between. -/
inductive Polls : Machine → Bool → Machine → Prop
  | done {machine : Machine} (empty : machine.engine.queue = []) : Polls machine false machine
  | take {machine next last : Machine} {message : Message} {waiting : List Message}
      {changed : Bool} (oldest : machine.engine.queue = message :: waiting)
      (taken : machine.act .take = some next) (rest : Polls next changed last) :
      Polls machine (((machine.engine.withQueue waiting).process message).2 || changed) last
  | aside {machine next last : Machine} {action : Action} {changed : Bool}
      (others : action.isAside = true) (acted : machine.act action = some next)
      (rest : Polls next changed last) : Polls machine changed last

variable {machine next last : Machine} {changed : Bool}

theorem reports_take {message : Message} {waiting : List Message}
    (oldest : machine.engine.queue = message :: waiting)
    (taken : machine.act .take = some next) :
    machine.engine.Reports next.engine
      ((machine.engine.withQueue waiting).process message).2 := by
  simp only [act] at taken
  split at taken
  · rename_i taking behind _ hqueue
    cases taken
    obtain ⟨rfl, rfl⟩ := List.cons.inj (oldest.symm.trans hqueue)
    have untouched : machine.engine.Reports (machine.engine.withQueue waiting) false :=
      Engine.reports_false rfl rfl
    have handled := (machine.engine.withQueue waiting).reports_process message
    have threaded : Engine.Reports ((machine.engine.withQueue waiting).process message).1
        ((machine.withQueue waiting).dispatch message).engine false :=
      Engine.reports_false rfl rfl
    have reports := (untouched.trans handled).trans threaded
    rwa [Bool.false_or, Bool.or_false] at reports
  · cases taken

theorem reports_aside {action : Action} (others : action.isAside = true)
    (acted : machine.act action = some next) : machine.engine.Reports next.engine false := by
  match action with
  | .change _ | .post _ =>
      cases acted
      exact Engine.reports_false rfl rfl
  | .work position =>
      obtain ⟨thread, _, rfl⟩ := Option.map_eq_some_iff.1 acted
      exact Engine.reports_false rfl rfl
  | .event _ | .take | .enter | .look | .receive | .timeOut | .leave => cases others

theorem Polls.reports (polls : machine.Polls changed last) :
    machine.engine.Reports last.engine changed := by
  induction polls with
  | done empty => exact Engine.reports_false rfl rfl
  | take oldest taken rest ih => exact (reports_take oldest taken).trans ih
  | aside others acted rest ih =>
      have reports := (reports_aside others acted).trans ih
      rwa [Bool.false_or] at reports

/-- Left to itself, a poll comes to its end: what is handled starts threads, and nothing is
posted on the spot. -/
theorem exists_polls (free : machine.control = .free) :
    ∃ changed last, machine.Polls changed last := by
  induction hqueue : machine.engine.queue generalizing machine with
  | nil => exact ⟨false, machine, .done hqueue⟩
  | cons message waiting ih =>
      have taken : machine.act .take = some ((machine.withQueue waiting).dispatch message) := by
        simp only [act, free, hqueue]
      obtain ⟨changed, last, rest⟩ := @ih ((machine.withQueue waiting).dispatch message) free
        ((machine.withQueue waiting).engine.carriedOut_dispatch message).queue_eq
      exact ⟨_, last, .take hqueue taken rest⟩

end Machine

/-- The answer of a poll is right for any engine and whatever waits: it is yes exactly if the
view was called. So it is if others take their steps in between, which a poll does not need to
come to its end. -/
theorem poll_tells_whether_view_called :
    (∀ engine : Engine, engine.Reports engine.poll.1 engine.poll.2) ∧
      ∀ machine : Machine,
        (machine.control = .free → ∃ changed last, machine.Polls changed last) ∧
          ∀ changed last, machine.Polls changed last →
            machine.engine.Reports last.engine changed :=
  ⟨Engine.reports_poll, fun _ => ⟨Machine.exists_polls, fun _ _ polls => polls.reports⟩⟩

/-- The word that the caret has moved waits, but the host could not tell where to. -/
def Machine.caretWaits : Machine :=
  (Machine.start {} {} { options := {} }).withQueue [.caretMoved none]

/-- The view is not called for the caret, but it is if the outline gets closed meanwhile. -/
theorem caret_poll_tells_of_close :
    (Machine.caretWaits.engine.poll.2 = false ∧
        Machine.caretWaits.engine.poll.1.view = Machine.caretWaits.engine.view) ∧
      ∃ last, Machine.caretWaits.Polls true last ∧ last.engine.journal ≠ [] := by
  obtain ⟨still, machines⟩ := poll_tells_whether_view_called
  obtain ⟨_, reports⟩ := machines Machine.caretWaits
  have hquiet : Machine.caretWaits.engine.poll.2 = false := by decide +kernel
  obtain ⟨changed, last, polls, rfl⟩ :
      ∃ changed last, Machine.caretWaits.Polls changed last ∧ changed = true :=
    ⟨_, _, .take rfl rfl (@Machine.Polls.aside _ _ _ (.post .close) _ rfl rfl
      (.take rfl rfl (.done rfl))), rfl⟩
  refine ⟨⟨hquiet, (still _).unchanged hquiet⟩, last, polls, ?_⟩
  obtain ⟨calls, told, hcalls⟩ := (reports true last polls).called
  rw [told.journal_eq]
  exact hcalls.1 rfl

end RegionOutline
