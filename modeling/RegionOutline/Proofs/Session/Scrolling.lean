import RegionOutline.Proofs.Session.Revision

/-!
# Scroll requests

What each message does to the scroll that waits and to the scope that its token
comes from, and which scrolls it makes the session ask for. A scroll waits only
while a scan is under way, and always under the token handed out last.
-/

namespace RegionOutline

namespace Command

mutual

/-- The scrolls that a command asks for, in order. -/
def scrolls : Command → List Scroll
  | .scroll asked => [asked]
  | .batch commands => allScrolls commands
  | .nothing | .runScan _ _ _ | .publish | .scrollToCaret | .focus _ | .navigateTo _ => []

def allScrolls : List Command → List Scroll
  | [] => []
  | command :: rest => scrolls command ++ allScrolls rest

end

end Command

namespace Message

/-- Whether the message puts an end to the scroll that waits. -/
def dropsScroll : Message → Bool
  | .caretMoved _ | .close => true
  | .rebuild _ | .entryActivated _ _ | .scanCompleted _ _ _ => false

end Message

namespace Session

variable {session : Session} {message : Message} {token : Token} {scroll : Scroll} {line : Nat}

/-- The scrolls that a message makes the session ask for. -/
def scrollsAsked (session : Session) (message : Message) : List Scroll :=
  ((session.handle message).2.map Command.scrolls).getD []

theorem token_of_moveCaret {line : Option Nat} (h : (session.moveCaret line).2 = some scroll) :
    scroll.token = session.scrollScope.nextToken ∧ session.inFlight = none := by
  unfold moveCaret at h
  cases hbusy : session.inFlight with
  | some revision => simp [isRebuilding, hbusy] at h
  | none =>
      cases line with
      | none => simp [isRebuilding, hbusy] at h
      | some line =>
          simp only [isRebuilding, hbusy, Option.isSome_none, Bool.false_eq_true, if_false] at h
          cases h
          exact ⟨rfl, rfl⟩

theorem token_of_replayPending (h : session.replayPending.2 = some scroll) :
    ∃ pending, session.pending = some pending ∧ scroll.token = pending.token := by
  cases hpending : session.pending with
  | none => simp [replayPending, hpending] at h
  | some pending =>
      refine ⟨pending, rfl, ?_⟩
      simp only [replayPending, hpending] at h
      split at h
      · cases hline : pending.line with
        | none => simp [hline] at h
        | some line =>
            simp only [hline] at h
            cases h
            rfl
      · cases h

/-- A scroll that waits under a current token is let go with the present index. -/
theorem replayPending_eq_of_waiting (session : Session)
    (hpending : session.pending = some ⟨some line, token⟩)
    (hcurrent : session.scrollScope.isCurrent token = true) :
    session.replayPending =
      ({ session with pending := none }.applyScroll (session.scrollTarget line),
        some ⟨session.scrollTarget line, token⟩) := by
  simp only [replayPending, hpending, hcurrent, if_true]
  rfl

/-- A report that passes both tests becomes the index and lets the waiting scroll
go behind the publication. -/
theorem completeScan_of_pass {revision : Nat} (entries : List Entry)
    (hpass : session.rebuildScope.isCurrent token = true ∧ session.revision = revision) :
    session.completeScan revision token entries =
      (({ session with index := .ofEntries entries, inFlight := none }.replayPending).1,
        some (.batch [.publish,
          (({ session with index := .ofEntries entries, inFlight := none }.replayPending).2.map
            Command.scroll).getD .scrollToCaret])) := by
  rw [completeScan, if_pos hpass]
  generalize { session with index := .ofEntries entries, inFlight := none }.replayPending =
    replayed
  obtain ⟨next, scroll⟩ := replayed
  cases scroll <;> rfl

/-- A scroll is asked for under the token of the caret that moves, or under that
of the scroll that waited; either way no scan is under way after it. -/
theorem mem_scrollsAsked (h : scroll ∈ session.scrollsAsked message) :
    (session.handle message).1.inFlight = none ∧
      (((∃ line, message = .caretMoved line) ∧ scroll.token = session.scrollScope.nextToken) ∨
        ∃ pending, session.pending = some pending ∧ scroll.token = pending.token) := by
  match message with
  | .rebuild none =>
      obtain ⟨focused, first, hreplay⟩ :=
        { session with
          rebuildScope := session.rebuildScope.renew
          revision := session.revision + 1
          inFlight := none }.replayPending_eq
      refine ⟨by simp only [handle, rebuild, hreplay], Or.inr ?_⟩
      simp only [scrollsAsked, handle, rebuild, Option.map_map] at h
      cases hscroll : { session with
          rebuildScope := session.rebuildScope.renew
          revision := session.revision + 1
          inFlight := none }.replayPending.2 with
      | none => simp [hscroll] at h
      | some other =>
          obtain rfl : scroll = other := by simpa [hscroll, Command.scrolls] using h
          obtain ⟨pending, hpending, htoken⟩ := token_of_replayPending hscroll
          exact ⟨pending, hpending, htoken⟩
  | .rebuild (some text) => simp [scrollsAsked, handle, rebuild, Command.scrolls] at h
  | .close => simp [scrollsAsked, handle, close, Command.scrolls] at h
  | .caretMoved caret =>
      simp only [scrollsAsked, handle, Option.map_map] at h
      cases hscroll : (session.moveCaret caret).2 with
      | none => simp [hscroll] at h
      | some other =>
          obtain rfl : scroll = other := by simpa [hscroll, Command.scrolls] using h
          obtain ⟨htoken, hidle⟩ := token_of_moveCaret hscroll
          obtain ⟨pending, focused, first, hmove⟩ := session.moveCaret_eq caret
          refine ⟨?_, Or.inl ⟨⟨caret, rfl⟩, htoken⟩⟩
          simp only [handle, hmove]
          exact hidle
  | .entryActivated row documentLines =>
      simp only [scrollsAsked, handle, activate] at h
      split at h <;> simp [Command.scrolls, Command.allScrolls] at h
  | .scanCompleted revision reported entries =>
      by_cases hpass :
          session.rebuildScope.isCurrent reported = true ∧ session.revision = revision
      · have hcomplete := completeScan_of_pass entries hpass
        obtain ⟨focused, first, hreplay⟩ :=
          { session with index := .ofEntries entries, inFlight := none }.replayPending_eq
        refine ⟨by simp only [handle, hcomplete, hreplay], Or.inr ?_⟩
        simp only [scrollsAsked, handle, hcomplete] at h
        cases hscroll :
            { session with index := .ofEntries entries, inFlight := none }.replayPending.2 with
        | none => simp [hscroll, Command.scrolls, Command.allScrolls] at h
        | some other =>
            obtain rfl : scroll = other := by
              simpa [hscroll, Command.scrolls, Command.allScrolls] using h
            obtain ⟨pending, hpending, htoken⟩ := token_of_replayPending hscroll
            exact ⟨pending, hpending, htoken⟩
      · have hdropped : session.completeScan revision reported entries = (session, none) := by
          rw [completeScan, if_neg hpass]
        simp [scrollsAsked, handle, hdropped] at h

/-- What a message other than a caret or a close does to the scroll requests: it
leaves them as they are, and a scan that was under way with them, or it ends the
wait. -/
theorem handle_keeping (session : Session) (keeps : message.dropsScroll = false) :
    (session.handle message).1.scrollScope = session.scrollScope ∧
      (((session.handle message).1.pending = session.pending ∧
          (session.inFlight.isSome = true → (session.handle message).1.inFlight.isSome = true)) ∨
        ((session.handle message).1.pending = none ∧
          (session.handle message).1.inFlight = none)) := by
  match message with
  | .rebuild none =>
      obtain ⟨focused, first, hreplay⟩ :=
        { session with
          rebuildScope := session.rebuildScope.renew
          revision := session.revision + 1
          inFlight := none }.replayPending_eq
      simp [handle, rebuild, hreplay]
  | .rebuild (some text) => simp [handle, rebuild]
  | .close => cases keeps
  | .caretMoved caret => cases keeps
  | .entryActivated row documentLines =>
      obtain ⟨focused, hactivate⟩ := session.activate_eq row documentLines
      simp [handle, hactivate]
  | .scanCompleted revision reported entries =>
      rcases session.completeScan_cases revision reported entries with
        ⟨_, _, focused, first, asked, hcomplete⟩ | ⟨_, hcomplete⟩
      · simp [handle, hcomplete]
      · simp [handle, hcomplete]

/-- A caret parks its scroll while a scan is under way, and otherwise leaves none
waiting. -/
theorem handle_caretMoved (session : Session) (caret : Option Nat) :
    (session.handle (.caretMoved caret)).1.scrollScope = session.scrollScope.renew ∧
      (session.handle (.caretMoved caret)).1.inFlight = session.inFlight ∧
      (session.handle (.caretMoved caret)).1.pending =
        if session.inFlight.isSome then some ⟨caret, session.scrollScope.nextToken⟩ else none := by
  cases hbusy : session.inFlight with
  | some revision => simp [handle, moveCaret, isRebuilding, hbusy]
  | none =>
      cases caret with
      | none => simp [handle, moveCaret, isRebuilding, hbusy]
      | some line => simp [handle, moveCaret, isRebuilding, hbusy, applyScroll]

/-- Whatever the message, the scope goes on from where it was. -/
theorem scrollScope_handle (session : Session) (message : Message) :
    (session.handle message).1.scrollScope = session.scrollScope ∨
      (session.handle message).1.scrollScope = session.scrollScope.cancel ∨
      (session.handle message).1.scrollScope = session.scrollScope.renew := by
  cases hdrops : message.dropsScroll with
  | false => exact Or.inl (session.handle_keeping hdrops).1
  | true =>
      match message with
      | .caretMoved caret => exact Or.inr (Or.inr (session.handle_caretMoved caret).1)
      | .close => exact Or.inr (Or.inl rfl)

/-- A scroll waits only for a scan that is under way, and under a current token. -/
def PendingLive (session : Session) : Prop :=
  ∀ pending ∈ session.pending,
    session.inFlight.isSome = true ∧ session.scrollScope.isCurrent pending.token = true

theorem PendingLive.handle (live : session.PendingLive) (message : Message) :
    (session.handle message).1.PendingLive := by
  intro pending hpending
  cases hdrops : message.dropsScroll with
  | false =>
      obtain ⟨hscope, ⟨hkept, hbusy⟩ | ⟨hnone, _⟩⟩ := session.handle_keeping hdrops
      · rw [hkept] at hpending
        obtain ⟨hinFlight, hcurrent⟩ := live pending hpending
        exact ⟨hbusy hinFlight, hscope ▸ hcurrent⟩
      · rw [hnone] at hpending
        cases hpending
  | true =>
      match message with
      | .caretMoved caret =>
          obtain ⟨hscope, hinFlight, hparked⟩ := session.handle_caretMoved caret
          rw [hparked] at hpending
          split at hpending
          · rename_i hbusy
            cases hpending
            rw [hscope, hinFlight]
            exact ⟨hbusy, CancelScope.isCurrent_renew _⟩
          · cases hpending
      | .close => cases hpending

theorem pendingLive_afterMessages (settings : Settings) (messages : List Message) :
    (afterMessages settings messages).PendingLive := by
  induction messages using List.reverseRecOn with
  | nil => intro pending hpending; cases hpending
  | append_singleton messages message ih =>
      rw [afterMessages_concat]
      exact ih.handle message

end Session

end RegionOutline
