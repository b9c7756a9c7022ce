import RegionOutline.Proofs.Session.Answers
import RegionOutline.Proofs.Session.Supersession

/-!
# Scrolling and rebuilding apart

Messages about the caret and about rows can be struck out of a run without a trace
in what the outline goes by: the index, the revision, the scan under way, every
token of the rebuild scope, and the scans and publications asked for, all in their
order. Tokens are named by the order in which their scope hands them out, so what
is left of the run needs no renaming. Nor does a rebuild touch a token of the
scroll scope.
-/

namespace RegionOutline

namespace Message

/-- Whether the message is about the outline, not about the caret or a row. -/
def concernsOutline : Message → Bool
  | .rebuild _ | .close | .scanCompleted _ _ _ => true
  | .caretMoved _ | .entryActivated _ _ => false

end Message

namespace Command

mutual

/-- The scans and publications that a command asks for, in order. -/
def outlineWork : Command → List Command
  | .runScan revision source token => [.runScan revision source token]
  | .publish => [.publish]
  | .batch commands => allOutlineWork commands
  | .nothing | .scrollToCaret | .scroll _ | .focus _ | .navigateTo _ => []

def allOutlineWork : List Command → List Command
  | [] => []
  | command :: rest => outlineWork command ++ allOutlineWork rest

end

end Command

namespace Session

variable {session first second : Session} {message : Message} {messages : List Message}
variable {settings : Settings}

/-- What a message makes the session ask for, other than scrolling. -/
def outlineWork (session : Session) (message : Message) : List Command :=
  (session.asks message).outlineWork

theorem outlineWork_text (session : Session) (source : String) :
    session.outlineWork (.rebuild (some source)) =
      [.runScan (session.revision + 1) source session.rebuildScope.nextToken] := rfl

/-- Without a text nothing is scanned, and only what publishes asks for a
publication. -/
theorem outlineWork_other (session : Session) (h : ∀ text, message ≠ .rebuild (some text)) :
    session.outlineWork message = if session.publishes message then [.publish] else [] := by
  have answers := session.answers_asks message
  unfold outlineWork
  generalize session.asks message = command at answers
  cases answers with
  | scan source => exact absurd rfl (h source)
  | released scroll => cases scroll <;> rfl
  | cleared => rfl
  | followed line scroll => cases scroll <;> rfl
  | visited line documentLines row => rfl
  | refused line documentLines => rfl
  | taken pass scroll =>
      rw [if_pos (publishes_report.2 pass)]
      cases scroll <;> rfl
  | dropped fail =>
      rw [if_neg (mt publishes_report.1 fail)]
      rfl

/-- A message about the caret or a row asks for nothing but scrolling. -/
theorem outlineWork_quiet (session : Session) (h : message.concernsOutline = false) :
    session.outlineWork message = [] := by
  match message with
  | .rebuild source => cases h
  | .close => cases h
  | .caretMoved line => exact session.outlineWork_other (by simp)
  | .entryActivated line documentLines => exact session.outlineWork_other (by simp)
  | .scanCompleted revision token entries => cases h

theorem sameOutline_quiet (session : Session) (h : message.concernsOutline = false) :
    session.SameOutline (session.handle message).1 := by
  match message with
  | .rebuild source => cases h
  | .close => cases h
  | .caretMoved line => exact session.sameOutline_handle rfl rfl
  | .entryActivated line documentLines => exact session.sameOutline_handle rfl rfl
  | .scanCompleted revision token entries => cases h

theorem SameOutline.symm (same : first.SameOutline second) : second.SameOutline first where
  revision_eq := same.revision_eq.symm
  rebuildScope_eq := same.rebuildScope_eq.symm
  inFlight_eq := same.inFlight_eq.symm
  index_eq := same.index_eq.symm

theorem SameOutline.publishes_eq (same : first.SameOutline second) (message : Message) :
    first.publishes message = second.publishes message := by
  unfold publishes
  rw [same.revision_eq, same.rebuildScope_eq]

/-- Sessions with the same outline ask for the same work. -/
theorem SameOutline.outlineWork_eq (same : first.SameOutline second) (message : Message) :
    first.outlineWork message = second.outlineWork message := by
  by_cases htext : ∃ text, message = .rebuild (some text)
  · obtain ⟨text, rfl⟩ := htext
    rw [outlineWork_text, outlineWork_text, same.revision_eq, same.rebuildScope_eq]
  · have hother : ∀ text, message ≠ .rebuild (some text) := by
      intro text heq
      exact htext ⟨text, heq⟩
    rw [outlineWork_other first hother, outlineWork_other second hother, same.publishes_eq]

/-- Sessions with the same outline still have it after any message. -/
theorem SameOutline.handle (same : first.SameOutline second) (message : Message) :
    (first.handle message).1.SameOutline (second.handle message).1 := by
  match message with
  | .rebuild source =>
      obtain ⟨inFlight, pending, focused, firstVisible, hfirst⟩ := first.rebuild_eq source
      obtain ⟨inFlight', pending', focused', firstVisible', hsecond⟩ := second.rebuild_eq source
      have hinFlight : (first.rebuild source).1.inFlight = (second.rebuild source).1.inFlight := by
        rw [inFlight_rebuild, inFlight_rebuild, same.revision_eq]
      refine ⟨?_, ?_, hinFlight, ?_⟩
      · simp only [Session.handle, hfirst, hsecond, same.revision_eq]
      · simp only [Session.handle, hfirst, hsecond, same.rebuildScope_eq]
      · simp only [Session.handle, hfirst, hsecond, same.index_eq]
  | .close =>
      refine ⟨?_, ?_, rfl, rfl⟩
      · exact congrArg (· + 1) same.revision_eq
      · exact congrArg CancelScope.renew same.rebuildScope_eq
  | .caretMoved line =>
      have hfirst : first.SameOutline (first.handle (.caretMoved line)).1 :=
        first.sameOutline_quiet rfl
      exact hfirst.symm.trans (same.trans (second.sameOutline_quiet rfl))
  | .entryActivated line documentLines =>
      have hfirst : first.SameOutline (first.handle (.entryActivated line documentLines)).1 :=
        first.sameOutline_quiet rfl
      exact hfirst.symm.trans (same.trans (second.sameOutline_quiet rfl))
  | .scanCompleted revision token entries =>
      -- Both sessions judge a report by the same scope and the same revision.
      rcases first.completeScan_cases revision token entries with
        ⟨hcurrent, hrevision, focused, firstVisible, scroll, hfirst⟩ | ⟨hfail, hfirst⟩
      · rw [same.rebuildScope_eq] at hcurrent
        rw [same.revision_eq] at hrevision
        have hsecond := completeScan_of_pass entries ⟨hcurrent, hrevision⟩
        obtain ⟨focused', firstVisible', hreplay⟩ :=
          { second with index := .ofEntries entries, inFlight := none }.replayPending_eq
        simp only [Session.handle, hfirst, hsecond, hreplay]
        exact ⟨same.revision_eq, same.rebuildScope_eq, rfl, rfl⟩
      · have hsecond : second.completeScan revision token entries = (second, none) := by
          rw [same.rebuildScope_eq, same.revision_eq] at hfail
          rw [completeScan, if_neg hfail]
        simp only [Session.handle, hfirst, hsecond]
        exact same

/-- The scans and publications that the messages make the session ask for, in
order. -/
def workAlong (session : Session) : List Message → List Command
  | [] => []
  | message :: rest => session.outlineWork message ++ (session.handle message).1.workAlong rest

/-- Striking out the messages about the caret and about rows. -/
theorem SameOutline.hear_filter (same : first.SameOutline second) (messages : List Message) :
    (first.hear messages).SameOutline (second.hear (messages.filter Message.concernsOutline)) ∧
      first.workAlong messages =
        second.workAlong (messages.filter Message.concernsOutline) := by
  induction messages generalizing first second with
  | nil => exact ⟨same, rfl⟩
  | cons message rest ih =>
      cases h : message.concernsOutline with
      | true =>
          rw [List.filter_cons_of_pos h]
          obtain ⟨hsame, hwork⟩ := ih (same.handle message)
          refine ⟨hsame, ?_⟩
          simp only [workAlong, same.outlineWork_eq message, hwork]
      | false =>
          rw [List.filter_cons_of_neg (by simp [h])]
          obtain ⟨hsame, hwork⟩ := ih ((first.sameOutline_quiet h).symm.trans same)
          refine ⟨hsame, ?_⟩
          simp only [workAlong, first.outlineWork_quiet h, List.nil_append, hwork]

/-- The messages of a run that are about the outline. -/
def outlineMessages (messages : List Message) : List Message :=
  messages.filter Message.concernsOutline

theorem sameOutline_outlineMessages (settings : Settings) (messages : List Message) :
    (afterMessages settings messages).SameOutline
      (afterMessages settings (outlineMessages messages)) :=
  ((SameOutline.refl { settings }).hear_filter messages).1

/-- A scan that was asked for is still asked for, and nothing that is about the
outline is lost from what came after it. -/
theorem Asked.outlineMessages {revision : Nat} {source : String} {token : Token}
    {later : List Message} (asked : Asked settings messages revision source token later) :
    Asked settings (outlineMessages messages) revision source token (outlineMessages later) := by
  obtain ⟨earlier, asking, rfl, hasking⟩ := asked
  obtain ⟨rfl, rfl, rfl⟩ := eq_rebuild_of_runScan hasking
  have same := sameOutline_outlineMessages settings earlier
  refine ⟨Session.outlineMessages earlier, .rebuild (some source), ?_, ?_⟩
  · have hkept : Message.concernsOutline (.rebuild (some source)) = true := rfl
    simp [Session.outlineMessages, List.filter_cons_of_pos hkept]
  · rw [same.revision_eq, same.rebuildScope_eq]
    rfl

/-- Without its messages about the caret and about rows, a run comes to the same. -/
structure Undisturbed (settings : Settings) (messages : List Message) : Prop where
  index_eq : (afterMessages settings messages).index =
    (afterMessages settings (outlineMessages messages)).index
  revision_eq : (afterMessages settings messages).revision =
    (afterMessages settings (outlineMessages messages)).revision
  inFlight_eq : (afterMessages settings messages).inFlight =
    (afterMessages settings (outlineMessages messages)).inFlight
  /-- The same tokens are live. -/
  isLive_eq : ∀ token, (afterMessages settings messages).rebuildScope.isLive token =
    (afterMessages settings (outlineMessages messages)).rebuildScope.isLive token
  /-- The same tokens are cancelled. -/
  isCancelled_eq : ∀ token, (afterMessages settings messages).rebuildScope.isCancelled token =
    (afterMessages settings (outlineMessages messages)).rebuildScope.isCancelled token
  /-- The same scans are asked for, with the same tokens, and as many publications
  in between. -/
  work_eq : ({ settings } : Session).workAlong messages =
    ({ settings } : Session).workAlong (outlineMessages messages)
  /-- Reports that answer a scan go on doing so. -/
  asked : ∀ revision source token later, Asked settings messages revision source token later →
    Asked settings (outlineMessages messages) revision source token (outlineMessages later)

/-- At every point of a run the outline is what it would be without the messages
about the caret and about rows, whatever is reported; and no rebuild changes whether
a token of the scroll scope is live. -/
theorem scrolling_leaves_rebuilding_alone (settings : Settings) (messages : List Message) :
    (∀ past, past <+: messages →
      outlineMessages past <+: outlineMessages messages ∧ Undisturbed settings past) ∧
    ∀ (session : Session) (source : Option String) (token : Token),
      (session.handle (.rebuild source)).1.scrollScope.isLive token =
        session.scrollScope.isLive token := by
  constructor
  · intro past hpast
    have same := sameOutline_outlineMessages settings past
    refine ⟨hpast.filter _, ?_⟩
    constructor
    · exact same.index_eq
    · exact same.revision_eq
    · exact same.inFlight_eq
    · intro token
      rw [same.rebuildScope_eq]
    · intro token
      rw [same.rebuildScope_eq]
    · exact ((SameOutline.refl { settings }).hear_filter past).2
    · intro revision source token later asked
      exact asked.outlineMessages
  · intro session source token
    rw [(session.handle_keeping rfl).1]

end Session

end RegionOutline
