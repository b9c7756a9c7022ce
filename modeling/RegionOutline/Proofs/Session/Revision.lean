import Mathlib.Data.List.Induction
import RegionOutline.Proofs.Cancellation
import RegionOutline.Session.Update

/-!
# Revisions and tokens

What each message can change in a session, and the invariant that follows: a
rebuild or a close starts a new revision and hands out a new token, and nothing
else touches either. The token of a scan is therefore current exactly while its
revision is.
-/

namespace RegionOutline

namespace Message

/-- Whether the message makes the scans asked for before it stale. -/
def supersedes : Message → Bool
  | .rebuild _ | .close => true
  | .caretMoved _ | .entryActivated _ _ | .scanCompleted _ _ _ => false

/-- Whether the message reports the end of a scan. -/
def isReport : Message → Bool
  | .scanCompleted _ _ _ => true
  | .rebuild _ | .close | .caretMoved _ | .entryActivated _ _ => false

end Message

namespace Session

/-- The session after the messages, the oldest first, from a fresh one. -/
def afterMessages (settings : Settings) (messages : List Message) : Session :=
  messages.foldl (fun session message => (session.handle message).1) { settings }

@[simp] theorem afterMessages_nil (settings : Settings) :
    afterMessages settings [] = { settings } := rfl

@[simp] theorem afterMessages_concat (settings : Settings) (messages : List Message)
    (message : Message) :
    afterMessages settings (messages ++ [message]) =
      ((afterMessages settings messages).handle message).1 := by
  simp [afterMessages]

/-- Letting a waiting scroll go touches the viewport only. -/
theorem replayPending_eq (session : Session) : ∃ focused first,
    session.replayPending.1 =
      { session with pending := none, focused := focused, firstVisible := first } := by
  cases hpending : session.pending with
  | none =>
      refine ⟨session.focused, session.firstVisible, ?_⟩
      simp only [replayPending, hpending]
      rw [← hpending]
  | some pending =>
      cases hcurrent : session.scrollScope.isCurrent pending.token with
      | false =>
          refine ⟨session.focused, session.firstVisible, ?_⟩
          simp [replayPending, hpending, hcurrent]
      | true =>
          cases hline : pending.line with
          | none =>
              refine ⟨session.focused, session.firstVisible, ?_⟩
              simp [replayPending, hpending, hcurrent, hline]
          | some line =>
              simp only [replayPending, hpending, hcurrent, hline, if_true]
              exact ⟨_, _, rfl⟩

/-- Following the caret touches the viewport and the scroll requests only. -/
theorem moveCaret_eq (session : Session) (line : Option Nat) : ∃ pending focused first,
    (session.moveCaret line).1 =
      { session with
        scrollScope := session.scrollScope.renew
        pending := pending
        focused := focused
        firstVisible := first } := by
  cases hbusy : session.inFlight with
  | some revision =>
      simp only [moveCaret, isRebuilding, hbusy, Option.isSome_some, if_true]
      exact ⟨_, session.focused, session.firstVisible, rfl⟩
  | none =>
      simp only [moveCaret, isRebuilding, hbusy, Option.isSome_none, Bool.false_eq_true, if_false]
      cases line with
      | none => exact ⟨none, session.focused, session.firstVisible, rfl⟩
      | some line => exact ⟨none, _, _, rfl⟩

theorem activate_eq (session : Session) (line : Nat) (documentLines : Option Nat) : ∃ focused,
    (session.activate line documentLines).1 = { session with focused := focused } := by
  unfold activate
  split
  · exact ⟨_, rfl⟩
  · exact ⟨session.focused, rfl⟩

/-- A report that passes both tests becomes the index; any other one changes
nothing and asks for nothing. -/
theorem completeScan_cases (session : Session) (revision : Nat) (token : Token)
    (entries : List Entry) :
    (session.rebuildScope.isCurrent token = true ∧ session.revision = revision ∧
      ∃ focused first scroll, session.completeScan revision token entries =
        ({ session with
            index := .ofEntries entries
            inFlight := none
            pending := none
            focused := focused
            firstVisible := first },
          some (.batch [.publish, scroll]))) ∨
    (¬ (session.rebuildScope.isCurrent token = true ∧ session.revision = revision) ∧
      session.completeScan revision token entries = (session, none)) := by
  by_cases hpass : session.rebuildScope.isCurrent token = true ∧ session.revision = revision
  · refine Or.inl ⟨hpass.1, hpass.2, ?_⟩
    obtain ⟨focused, first, hreplay⟩ :=
      { session with index := .ofEntries entries, inFlight := none }.replayPending_eq
    rw [completeScan, if_pos hpass]
    simp only [hreplay]
    exact ⟨focused, first, _, rfl⟩
  · exact Or.inr ⟨hpass, by rw [completeScan, if_neg hpass]⟩

/-- Whether or not there is a text, a rebuild keeps the index. -/
theorem rebuild_eq (session : Session) (source : Option String) :
    ∃ inFlight pending focused first, (session.rebuild source).1 =
      { session with
        rebuildScope := session.rebuildScope.renew
        revision := session.revision + 1
        inFlight := inFlight
        pending := pending
        focused := focused
        firstVisible := first } := by
  cases source with
  | none =>
      obtain ⟨focused, first, hreplay⟩ :=
        { session with
          rebuildScope := session.rebuildScope.renew
          revision := session.revision + 1
          inFlight := none }.replayPending_eq
      exact ⟨none, none, focused, first, by simp only [rebuild, hreplay]⟩
  | some source => exact ⟨_, session.pending, session.focused, session.firstVisible, rfl⟩

theorem inFlight_rebuild (session : Session) (source : Option String) :
    (session.rebuild source).1.inFlight = source.map fun _ => session.revision + 1 := by
  cases source with
  | none =>
      obtain ⟨focused, first, hreplay⟩ :=
        { session with
          rebuildScope := session.rebuildScope.renew
          revision := session.revision + 1
          inFlight := none }.replayPending_eq
      simp only [rebuild, hreplay, Option.map_none]
  | some text => rfl

/-- Messages about the caret and about rows touch the viewport and the scroll
requests only. -/
theorem handle_quiet_eq (session : Session) {message : Message}
    (quiet : message.supersedes = false) (request : message.isReport = false) :
    ∃ scope pending focused first, (session.handle message).1 =
      { session with
        scrollScope := scope
        pending := pending
        focused := focused
        firstVisible := first } := by
  match message with
  | .rebuild source => cases quiet
  | .close => cases quiet
  | .caretMoved line =>
      obtain ⟨pending, focused, first, hmove⟩ := session.moveCaret_eq line
      exact ⟨_, pending, focused, first, hmove⟩
  | .entryActivated line documentLines =>
      obtain ⟨focused, hactivate⟩ := session.activate_eq line documentLines
      exact ⟨session.scrollScope, session.pending, focused, session.firstVisible, hactivate⟩
  | .scanCompleted revision token entries => cases request

theorem handle_superseding (session : Session) {message : Message}
    (h : message.supersedes = true) :
    (session.handle message).1.revision = session.revision + 1 ∧
      (session.handle message).1.rebuildScope = session.rebuildScope.renew := by
  match message with
  | .rebuild source =>
      obtain ⟨inFlight, pending, focused, first, hrebuild⟩ := session.rebuild_eq source
      simp [handle, hrebuild]
  | .close => exact ⟨rfl, rfl⟩
  | .caretMoved line => cases h
  | .entryActivated line documentLines => cases h
  | .scanCompleted revision token entries => cases h

theorem handle_not_superseding (session : Session) {message : Message}
    (h : message.supersedes = false) :
    (session.handle message).1.revision = session.revision ∧
      (session.handle message).1.rebuildScope = session.rebuildScope := by
  cases hreport : message.isReport with
  | false =>
      obtain ⟨scope, pending, focused, first, hquiet⟩ := session.handle_quiet_eq h hreport
      simp [hquiet]
  | true =>
      match message with
      | .scanCompleted revision token entries =>
          rcases session.completeScan_cases revision token entries with
            ⟨_, _, focused, first, scroll, hcomplete⟩ | ⟨_, hcomplete⟩
          · simp [handle, hcomplete]
          · simp [handle, hcomplete]

theorem revision_le_handle (session : Session) (message : Message) :
    session.revision ≤ (session.handle message).1.revision := by
  cases h : message.supersedes with
  | false => exact Nat.le_of_eq (session.handle_not_superseding h).1.symm
  | true => exact Nat.le.intro (session.handle_superseding h).1.symm

/-- The token of the current revision is the outstanding one, and it is live. -/
structure InStep (session : Session) : Prop where
  id_eq : session.rebuildScope.id = 0
  size_eq : session.rebuildScope.cancelled.size = session.revision
  outstanding_iff : ∀ serial,
    session.rebuildScope.outstanding = some serial ↔ session.revision = serial + 1
  live : ∀ serial, session.revision = serial + 1 →
    session.rebuildScope.cancelled[serial]? = some false

theorem inStep_initial (settings : Settings) : InStep { settings } :=
  ⟨rfl, rfl, by simp, by simp⟩

/-- One message keeps tokens and revisions in step. -/
theorem InStep.handle {session : Session} (inStep : session.InStep) (message : Message) :
    (session.handle message).1.InStep := by
  cases h : message.supersedes with
  | false =>
      obtain ⟨hrevision, hscope⟩ := session.handle_not_superseding h
      constructor
      · rw [hscope]
        exact inStep.id_eq
      · rw [hscope, hrevision]
        exact inStep.size_eq
      · rw [hscope, hrevision]
        exact inStep.outstanding_iff
      · rw [hscope, hrevision]
        exact inStep.live
  | true =>
      obtain ⟨hrevision, hscope⟩ := session.handle_superseding h
      have hsize := inStep.size_eq
      constructor
      · rw [hscope, CancelScope.id_renew]
        exact inStep.id_eq
      · rw [hscope, hrevision, CancelScope.size_cancelled_renew, hsize]
      · intro serial
        rw [hscope, hrevision, CancelScope.outstanding_renew, hsize]
        simp
      · intro serial hserial
        rw [hrevision] at hserial
        have hnext : serial = session.rebuildScope.cancelled.size := by omega
        rw [hscope, hnext]
        exact CancelScope.getElem?_cancelled_renew _

theorem inStep_afterMessages (settings : Settings) (messages : List Message) :
    (afterMessages settings messages).InStep := by
  induction messages using List.reverseRecOn with
  | nil => exact inStep_initial settings
  | append_singleton messages message ih =>
      rw [afterMessages_concat]
      exact ih.handle message

/-- A token is current exactly while the revision that came with it is. -/
theorem InStep.isCurrent_iff {session : Session} (inStep : session.InStep) (serial : Nat) :
    session.rebuildScope.isCurrent ⟨0, serial⟩ = true ↔ session.revision = serial + 1 := by
  have houtstanding := inStep.outstanding_iff serial
  constructor
  · intro hcurrent
    simp only [CancelScope.isCurrent, Bool.and_eq_true, beq_iff_eq] at hcurrent
    exact houtstanding.1 hcurrent.1
  · intro hrevision
    simp [CancelScope.isCurrent, CancelScope.isLive, houtstanding.2 hrevision, inStep.id_eq,
      inStep.live serial hrevision]

end Session

end RegionOutline
