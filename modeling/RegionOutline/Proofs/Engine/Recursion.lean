import RegionOutline.Proofs.Engine.CarryOut

/-!
# The calls of an engine come to an end

To carry out a command can mean to pass a message on, and a message can bring a command again.
Here the recursion is written out: the calls still to be made are a list, and each step makes
the first of them and puts what it calls for in its place. The list has a weight that each step
lowers, because the only message passed on is where the caret is, and the session answers it
with a scroll at most.
-/

namespace RegionOutline

namespace Command

mutual

/-- How often a command asks the host for the caret. -/
def questions : Command → Nat
  | .scrollToCaret => 1
  | .batch commands => allQuestions commands
  | .nothing | .runScan _ _ _ | .publish | .scroll _ | .focus _ | .navigateTo _ => 0

def allQuestions : List Command → Nat
  | [] => 0
  | command :: rest => questions command + allQuestions rest

end

mutual

/-- How many calls carrying out a command takes at most, the first included. A question
takes two more: the message and the scroll that it brings. -/
def maxCalls : Command → Nat
  | .scrollToCaret => 3
  | .batch commands => allMaxCalls commands + 1
  | .nothing | .runScan _ _ _ | .publish | .scroll _ | .focus _ | .navigateTo _ => 1

def allMaxCalls : List Command → Nat
  | [] => 0
  | command :: rest => maxCalls command + allMaxCalls rest

end

end Command

/-- A call of the engine. -/
inductive Call where
  /-- Pass a message to the session and carry out what it answers. -/
  | pass (message : Message)
  | carryOut (command : Command)

/-- What the session was passed, and what it answered. -/
structure Exchange where
  message : Message
  answer : Option Command

/-- The session was told where the caret is, and asked for a scroll or for nothing. -/
def Exchange.FollowsCaret (exchange : Exchange) : Prop :=
  (∃ line, exchange.message = .caretMoved line) ∧
    (exchange.answer = none ∨ ∃ scroll, exchange.answer = some (.scroll scroll))

/-- An engine with the calls that it has still to make, the next one first, and the
exchanges with the session so far. -/
structure Activity where
  engine : Engine
  calls : List Call
  exchanges : List Exchange := []

namespace Activity

/-- Make the next call. What it calls for comes before all other calls. -/
def next? (activity : Activity) : Option Activity :=
  match activity.calls with
  | [] => none
  | .pass message :: rest =>
      let handled := activity.engine.session.handle message
      some {
        engine := { activity.engine with session := handled.1 }
        calls := (handled.2.map Call.carryOut).toList ++ rest
        exchanges := activity.exchanges ++ [⟨message, handled.2⟩] }
  | .carryOut .nothing :: rest => some { activity with calls := rest }
  | .carryOut .scrollToCaret :: rest =>
      some { activity with calls := .pass (.caretMoved activity.engine.host.line?) :: rest }
  | .carryOut (.batch commands) :: rest =>
      some { activity with calls := commands.map Call.carryOut ++ rest }
  | .carryOut (.runScan revision source token) :: rest =>
      some { activity with engine := activity.engine.runScan revision source token, calls := rest }
  | .carryOut .publish :: rest =>
      some {
        activity with
        engine := activity.engine.tell (.publish activity.engine.session.index.entries)
        calls := rest }
  | .carryOut (.scroll scroll) :: rest =>
      some { activity with engine := activity.engine.showScroll scroll, calls := rest }
  | .carryOut (.focus row) :: rest =>
      some { activity with engine := activity.engine.tell (.focus row), calls := rest }
  | .carryOut (.navigateTo line) :: rest =>
      some {
        activity with
        engine := { activity.engine with host := activity.engine.host.moveCaret line }
        calls := rest }

/-- So many calls lead from one activity to another. -/
inductive Steps : Nat → Activity → Activity → Prop
  | none (activity : Activity) : Steps 0 activity activity
  | more {count : Nat} {activity next last : Activity} (made : activity.next? = some next)
      (others : Steps count next last) : Steps (count + 1) activity last

end Activity

namespace Call

/-- A call that comes of a command: another command, or the message where the caret is. -/
inductive Inner : Call → Prop
  | caret (line : Option Nat) : Inner (.pass (.caretMoved line))
  | command (command : Command) : Inner (.carryOut command)

def questions : Call → Nat
  | .pass _ => 1
  | .carryOut command => command.questions

def maxCalls : Call → Nat
  | .pass _ => 2
  | .carryOut command => command.maxCalls

/-- The engine once the call has returned. -/
def returned (engine : Engine) : Call → Engine
  | .pass message => engine.dispatch message
  | .carryOut command => engine.carryOut command

/-- A measure of calls, taken over a list of them. -/
def total (measure : Call → Nat) : List Call → Nat
  | [] => 0
  | call :: rest => measure call + total measure rest

theorem total_append (measure : Call → Nat) (first second : List Call) :
    total measure (first ++ second) = total measure first + total measure second := by
  induction first with
  | nil => exact (Nat.zero_add _).symm
  | cons call rest ih => rw [List.cons_append, total, total, ih, Nat.add_assoc]

theorem total_questions (commands : List Command) :
    total questions (commands.map .carryOut) = Command.allQuestions commands := by
  induction commands with
  | nil => rfl
  | cons command rest ih => rw [List.map_cons, total, ih, Command.allQuestions, questions]

theorem total_maxCalls (commands : List Command) :
    total maxCalls (commands.map .carryOut) = Command.allMaxCalls commands := by
  induction commands with
  | nil => rfl
  | cons command rest ih => rw [List.map_cons, total, ih, Command.allMaxCalls, maxCalls]

theorem inner_answer (answer : Option Command) :
    ∀ call ∈ (answer.map Call.carryOut).toList, call.Inner := by
  intro call hcall
  obtain ⟨command, _, rfl⟩ := Option.map_eq_some_iff.1 (Option.mem_toList.1 hcall)
  exact .command command

theorem foldl_returned_batch (engine : Engine) (commands : List Command) :
    (commands.map Call.carryOut).foldl returned engine = engine.carryOutAll commands := by
  induction commands generalizing engine with
  | nil => rfl
  | cons command rest ih => exact ih (engine.carryOut command)

theorem foldl_returned_answer (engine : Engine) (message : Message) :
    ((engine.session.handle message).2.map Call.carryOut).toList.foldl returned
        { engine with session := (engine.session.handle message).1 } =
      engine.dispatch message := by
  unfold Engine.dispatch Engine.process
  cases engine.session.handle message with
  | mk session answer =>
      cases answer with
      | none => rfl
      | some command => rfl

end Call

/-- Told where the caret is, a session asks for a scroll at most. -/
theorem Session.handle_caretMoved_cases (session : Session) (line : Option Nat) :
    (session.handle (.caretMoved line)).2 = none ∨
      ∃ scroll, (session.handle (.caretMoved line)).2 = some (.scroll scroll) := by
  simp only [Session.handle]
  cases (session.moveCaret line).2 with
  | none => exact Or.inl rfl
  | some scroll => exact Or.inr ⟨scroll, rfl⟩

namespace Activity

/-- The engine once all calls have returned. -/
def outcome (activity : Activity) : Engine :=
  activity.calls.foldl Call.returned activity.engine

/-- So many calls lead from one activity to another, where nothing else is passed on than
where the caret is, at most as often as the calls ask for it. The outcome stays the same. -/
structure Advances (count : Nat) (first last : Activity) : Prop where
  inner : ∀ call ∈ last.calls, call.Inner
  outcome_eq : last.outcome = first.outcome
  calls_le : count + Call.total Call.maxCalls last.calls ≤ Call.total Call.maxCalls first.calls
  exchanges_eq : ∃ nested, last.exchanges = first.exchanges ++ nested ∧
    (∀ exchange ∈ nested, exchange.FollowsCaret) ∧
    nested.length + Call.total Call.questions last.calls ≤ Call.total Call.questions first.calls

theorem Advances.refl {activity : Activity} (inner : ∀ call ∈ activity.calls, call.Inner) :
    Advances 0 activity activity where
  inner := inner
  outcome_eq := rfl
  calls_le := by simp
  exchanges_eq := ⟨[], by simp⟩

theorem Advances.trans {count more : Nat} {first second third : Activity}
    (left : Advances count first second) (right : Advances more second third) :
    Advances (count + more) first third where
  inner := right.inner
  outcome_eq := right.outcome_eq.trans left.outcome_eq
  calls_le := by
    have hfirst := left.calls_le
    have hsecond := right.calls_le
    omega
  exchanges_eq := by
    obtain ⟨nested, hnested, follow, hle⟩ := left.exchanges_eq
    obtain ⟨others, hothers, also, hrest⟩ := right.exchanges_eq
    refine ⟨nested ++ others, ?_, ?_, ?_⟩
    · rw [hothers, hnested, List.append_assoc]
    · exact List.forall_mem_append.2 ⟨follow, also⟩
    · rw [List.length_append]
      omega

section Step

variable {engine : Engine} {rest : List Call} {exchanges : List Exchange}

/-- A command that calls for nothing else. -/
theorem advances_done {command : Command} {after : Engine} (others : ∀ call ∈ rest, call.Inner)
    (after_eq : engine.carryOut command = after) (quiet : command.questions = 0)
    (single : command.maxCalls = 1) :
    Advances 1 ⟨engine, .carryOut command :: rest, exchanges⟩ ⟨after, rest, exchanges⟩ where
  inner := others
  outcome_eq := by
    rw [outcome, ← after_eq]
    rfl
  calls_le := by simp [Call.total, Call.maxCalls, single]
  exchanges_eq := ⟨[], by simp [Call.total, Call.questions, quiet]⟩

theorem advances_scrollToCaret (others : ∀ call ∈ rest, call.Inner) :
    Advances 1 ⟨engine, .carryOut .scrollToCaret :: rest, exchanges⟩
      ⟨engine, .pass (.caretMoved engine.host.line?) :: rest, exchanges⟩ where
  inner := List.forall_mem_cons.2 ⟨.caret _, others⟩
  outcome_eq := congrArg (rest.foldl Call.returned) engine.dispatch_caretMoved
  calls_le := by
    simp only [Call.total, Call.maxCalls, Command.maxCalls]
    omega
  exchanges_eq := ⟨[], by simp [Call.total, Call.questions, Command.questions]⟩

theorem advances_batch {commands : List Command} (others : ∀ call ∈ rest, call.Inner) :
    Advances 1 ⟨engine, .carryOut (.batch commands) :: rest, exchanges⟩
      ⟨engine, commands.map Call.carryOut ++ rest, exchanges⟩ where
  inner := by
    refine List.forall_mem_append.2 ⟨?_, others⟩
    intro call hcall
    obtain ⟨command, _, rfl⟩ := List.mem_map.1 hcall
    exact .command command
  outcome_eq := by
    rw [outcome, List.foldl_append, Call.foldl_returned_batch]
    rfl
  calls_le := by
    simp only [Call.total_append, Call.total_maxCalls, Call.total, Call.maxCalls,
      Command.maxCalls]
    omega
  exchanges_eq := by
    refine ⟨[], (List.append_nil _).symm, nofun, ?_⟩
    simp [Call.total_append, Call.total_questions, Call.total, Call.questions, Command.questions]

/-- The answer to where the caret is calls for nothing else. -/
theorem advances_pass (line : Option Nat) (others : ∀ call ∈ rest, call.Inner) :
    Advances 1 ⟨engine, .pass (.caretMoved line) :: rest, exchanges⟩ {
      engine := { engine with session := (engine.session.handle (.caretMoved line)).1 }
      calls := ((engine.session.handle (.caretMoved line)).2.map Call.carryOut).toList ++ rest
      exchanges :=
        exchanges ++ [⟨.caretMoved line, (engine.session.handle (.caretMoved line)).2⟩] } where
  inner := List.forall_mem_append.2 ⟨Call.inner_answer _, others⟩
  outcome_eq := by
    rw [outcome, List.foldl_append, Call.foldl_returned_answer]
    rfl
  calls_le := by
    rcases engine.session.handle_caretMoved_cases line with hnone | ⟨scroll, hscroll⟩
    · simp only [hnone, Option.map_none, Option.toList_none, List.nil_append, Call.total,
        Call.maxCalls]
      omega
    · simp only [hscroll, Option.map_some, Option.toList_some, List.singleton_append, Call.total,
        Call.maxCalls, Command.maxCalls]
      omega
  exchanges_eq := by
    have follows := engine.session.handle_caretMoved_cases line
    refine ⟨_, rfl, List.forall_mem_singleton.2 ⟨⟨line, rfl⟩, follows⟩, ?_⟩
    rcases follows with hnone | ⟨scroll, hscroll⟩
    · simp [hnone, Call.total, Call.questions]
    · simp [hscroll, Call.total, Call.questions, Command.questions]

end Step

theorem advances_next {activity next : Activity} (inner : ∀ call ∈ activity.calls, call.Inner)
    (made : activity.next? = some next) : Advances 1 activity next := by
  obtain ⟨engine, calls, exchanges⟩ := activity
  cases calls with
  | nil => cases made
  | cons call rest =>
      obtain ⟨first, others⟩ := List.forall_mem_cons.1 inner
      cases first with
      | caret line =>
          cases made
          exact advances_pass line others
      | command command =>
          cases command with
          | scrollToCaret =>
              cases made
              exact advances_scrollToCaret others
          | batch commands =>
              cases made
              exact advances_batch others
          | nothing | runScan _ _ _ | publish | scroll _ | focus _ | navigateTo _ =>
              cases made
              exact advances_done others rfl rfl rfl

theorem exists_next {activity : Activity} (h : activity.calls ≠ []) :
    ∃ next, activity.next? = some next := by
  obtain ⟨engine, calls, exchanges⟩ := activity
  cases calls with
  | nil => exact absurd rfl h
  | cons call rest =>
      cases call with
      | pass message => exact ⟨_, rfl⟩
      | carryOut command => cases command <;> exact ⟨_, rfl⟩

/-- All calls return. They leave the engine as it is said here, after at most so many calls
and exchanges, and in each exchange the session only follows the caret. -/
def Returns (activity : Activity) (after : Engine) (maxCalls maxExchanges : Nat) : Prop :=
  ∃ count nested, Steps count activity ⟨after, [], activity.exchanges ++ nested⟩ ∧
    count ≤ maxCalls ∧ nested.length ≤ maxExchanges ∧
    ∀ exchange ∈ nested, exchange.FollowsCaret

/-- What is left when no call is. -/
theorem Advances.returns {count : Nat} {first last : Activity}
    (advances : Advances count first last) (steps : Steps count first last)
    (returned : last.calls = []) :
    first.Returns first.outcome (Call.total Call.maxCalls first.calls)
      (Call.total Call.questions first.calls) := by
  obtain ⟨nested, hnested, follow, hquestions⟩ := advances.exchanges_eq
  have hcalls := advances.calls_le
  obtain ⟨engine, calls, exchanges⟩ := last
  obtain rfl : calls = [] := returned
  obtain rfl : engine = first.outcome := advances.outcome_eq
  obtain rfl : exchanges = first.exchanges ++ nested := hnested
  exact ⟨count, nested, steps, hcalls, hquestions, follow⟩

theorem exists_steps (activity : Activity) (inner : ∀ call ∈ activity.calls, call.Inner) :
    ∃ count last, Steps count activity last ∧ last.calls = [] ∧ Advances count activity last := by
  induction hweight : Call.total Call.maxCalls activity.calls using Nat.strongRecOn
    generalizing activity with
  | ind weight ih =>
      by_cases hcalls : activity.calls = []
      · exact ⟨0, activity, .none activity, hcalls, .refl inner⟩
      · obtain ⟨next, made⟩ := exists_next hcalls
        have first := advances_next inner made
        have lighter : Call.total Call.maxCalls next.calls < weight := by
          have hle := first.calls_le
          omega
        obtain ⟨count, last, steps, returned, others⟩ := ih _ lighter next first.inner rfl
        refine ⟨count + 1, last, .more made steps, returned, ?_⟩
        rw [Nat.add_comm]
        exact first.trans others

/-- Calls that come of commands all return, whatever the engine. -/
theorem returns_of_inner (activity : Activity) (inner : ∀ call ∈ activity.calls, call.Inner) :
    activity.Returns activity.outcome (Call.total Call.maxCalls activity.calls)
      (Call.total Call.questions activity.calls) := by
  obtain ⟨count, last, steps, returned, advances⟩ := activity.exists_steps inner
  exact advances.returns steps returned

theorem Returns.of_le {activity : Activity} {after : Engine}
    {maxCalls maxExchanges calls exchanges : Nat}
    (returns : activity.Returns after maxCalls maxExchanges) (hcalls : maxCalls ≤ calls)
    (hexchanges : maxExchanges ≤ exchanges) : activity.Returns after calls exchanges := by
  obtain ⟨count, nested, steps, hcount, hnested, follow⟩ := returns
  exact ⟨count, nested, steps, Nat.le_trans hcount hcalls, Nat.le_trans hnested hexchanges, follow⟩

/-- The answer to a message is carried out. -/
theorem returns_answer (engine : Engine) (message : Message) (before : List Exchange) :
    Returns
      { engine := { engine with session := (engine.session.handle message).1 }
        calls := ((engine.session.handle message).2.map Call.carryOut).toList
        exchanges := before }
      (engine.dispatch message) (engine.session.asks message).maxCalls
      (engine.session.asks message).questions := by
  have returns := returns_of_inner
    { engine := { engine with session := (engine.session.handle message).1 }
      calls := ((engine.session.handle message).2.map Call.carryOut).toList
      exchanges := before } (Call.inner_answer _)
  rw [outcome, Call.foldl_returned_answer] at returns
  unfold Session.asks
  cases hanswer : (engine.session.handle message).2 with
  | none =>
      rw [hanswer] at returns
      exact returns.of_le (Nat.zero_le _) (Nat.zero_le _)
  | some command =>
      rw [hanswer] at returns
      exact returns

end Activity

/-- Whatever the session, the host and the view are, carrying out a command comes to an end,
and so does passing on a message. On the way the session is only told where the caret is, at
most as often as the command asks the host for it, and each time it answers with nothing or
with a single scroll. -/
theorem calls_come_to_an_end (engine : Engine) :
    (∀ command : Command,
      Activity.Returns ⟨engine, [.carryOut command], []⟩ (engine.carryOut command)
        command.maxCalls command.questions) ∧
    ∀ message : Message, ∃ next,
      Activity.next? ⟨engine, [.pass message], []⟩ = some next ∧
      next.exchanges = [⟨message, (engine.session.handle message).2⟩] ∧
      next.Returns (engine.dispatch message) (engine.session.asks message).maxCalls
        (engine.session.asks message).questions := by
  constructor
  · intro command
    apply Activity.returns_of_inner
    exact List.forall_mem_singleton.2 (.command command)
  · intro message
    refine ⟨_, rfl, rfl, ?_⟩
    rw [List.append_nil]
    exact Activity.returns_answer engine message _

end RegionOutline
