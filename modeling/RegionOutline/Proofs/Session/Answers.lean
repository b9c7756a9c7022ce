import RegionOutline.Proofs.Session.Scrolling

/-!
# Answers to messages

The commands that a session answers its messages with, and which messages leave
its outline alone. Only a close and a report that passes both tests make it
publish, and only a rebuild from a text has a scan under way afterwards that was
not under way before.
-/

namespace RegionOutline

namespace Session

variable {session : Session} {message : Message} {heard : List Message}

/-- The session after it has heard the messages, the oldest first. -/
def hear (session : Session) (heard : List Message) : Session :=
  heard.foldl (fun session message => (session.handle message).1) session

theorem hear_append (session : Session) (first second : List Message) :
    session.hear (first ++ second) = (session.hear first).hear second :=
  List.foldl_append

theorem afterMessages_append (settings : Settings) (first second : List Message) :
    afterMessages settings (first ++ second) = (afterMessages settings first).hear second :=
  List.foldl_append

/-- The sessions differ in nothing that a rebuild goes by. -/
structure SameOutline (first second : Session) : Prop where
  revision_eq : first.revision = second.revision
  rebuildScope_eq : first.rebuildScope = second.rebuildScope
  inFlight_eq : first.inFlight = second.inFlight
  index_eq : first.index = second.index

theorem SameOutline.refl (session : Session) : session.SameOutline session :=
  ⟨rfl, rfl, rfl, rfl⟩

theorem SameOutline.trans {first second third : Session} (left : first.SameOutline second)
    (right : second.SameOutline third) : first.SameOutline third where
  revision_eq := left.revision_eq.trans right.revision_eq
  rebuildScope_eq := left.rebuildScope_eq.trans right.rebuildScope_eq
  inFlight_eq := left.inFlight_eq.trans right.inFlight_eq
  index_eq := left.index_eq.trans right.index_eq

/-- Messages about the caret and about rows leave the outline alone. -/
theorem sameOutline_handle (session : Session) (quiet : message.supersedes = false)
    (request : message.isReport = false) : session.SameOutline (session.handle message).1 := by
  obtain ⟨scope, pending, focused, first, hquiet⟩ := session.handle_quiet_eq quiet request
  rw [hquiet]
  exact ⟨rfl, rfl, rfl, rfl⟩

theorem sameOutline_hear (session : Session)
    (caret : ∀ message ∈ heard, ∃ line, message = .caretMoved line) :
    session.SameOutline (session.hear heard) := by
  induction heard generalizing session with
  | nil => exact SameOutline.refl session
  | cons message rest ih =>
      obtain ⟨line, rfl⟩ := caret message List.mem_cons_self
      have first : session.SameOutline (session.handle (.caretMoved line)).1 :=
        session.sameOutline_handle rfl rfl
      apply first.trans
      apply ih
      intro other hother
      exact caret other (List.mem_cons_of_mem _ hother)

/-- The command that a message brings; one that does nothing if it brings none. -/
def asks (session : Session) (message : Message) : Command :=
  (session.handle message).2.getD .nothing

/-- The commands that a session answers its messages with. -/
inductive Answers (session : Session) : Message → Command → Prop
  | scan (source : String) :
      Answers session (.rebuild (some source))
        (.runScan (session.revision + 1) source session.rebuildScope.nextToken)
  | released (scroll : Option Scroll) :
      Answers session (.rebuild none) ((scroll.map Command.scroll).getD .nothing)
  | cleared : Answers session .close .publish
  | followed (line : Option Nat) (scroll : Option Scroll) :
      Answers session (.caretMoved line) ((scroll.map Command.scroll).getD .nothing)
  | visited (line : Nat) (documentLines row : Option Nat) :
      Answers session (.entryActivated line documentLines)
        (.batch [.navigateTo line, .focus row])
  | refused (line : Nat) (documentLines : Option Nat) :
      Answers session (.entryActivated line documentLines) .nothing
  | taken {revision : Nat} {token : Token} {entries : List Entry}
      (pass : session.rebuildScope.isCurrent token = true ∧ session.revision = revision)
      (scroll : Option Scroll) :
      Answers session (.scanCompleted revision token entries)
        (.batch [.publish, (scroll.map Command.scroll).getD .scrollToCaret])
  | dropped {revision : Nat} {token : Token} {entries : List Entry}
      (fail : ¬ (session.rebuildScope.isCurrent token = true ∧ session.revision = revision)) :
      Answers session (.scanCompleted revision token entries) .nothing

theorem answers_asks (session : Session) (message : Message) :
    session.Answers message (session.asks message) := by
  match message with
  | .rebuild none => exact .released _
  | .rebuild (some source) => exact .scan source
  | .close => exact .cleared
  | .caretMoved line => exact .followed line _
  | .entryActivated line documentLines =>
      simp only [asks, handle, activate]
      split
      · exact .visited line documentLines _
      · exact .refused line documentLines
  | .scanCompleted revision token entries =>
      by_cases pass : session.rebuildScope.isCurrent token = true ∧ session.revision = revision
      · simp only [asks, handle, completeScan_of_pass entries pass]
        exact .taken pass _
      · simp only [asks, handle, completeScan, if_neg pass]
        exact .dropped pass

/-- Whether a message makes the session publish: a close does, and a report that
passes both tests. -/
def publishes (session : Session) : Message → Bool
  | .close => true
  | .scanCompleted revision token _ =>
      session.rebuildScope.isCurrent token && session.revision == revision
  | .rebuild _ | .caretMoved _ | .entryActivated _ _ => false

theorem publishes_report {revision : Nat} {token : Token} {entries : List Entry} :
    session.publishes (.scanCompleted revision token entries) = true ↔
      session.rebuildScope.isCurrent token = true ∧ session.revision = revision := by
  simp [publishes]

/-- A message that neither supersedes a scan nor publishes one leaves the outline
alone. -/
theorem sameOutline_of_dropped (session : Session) (quiet : message.supersedes = false)
    (dropped : session.publishes message = false) :
    session.SameOutline (session.handle message).1 := by
  cases hreport : message.isReport with
  | false => exact session.sameOutline_handle quiet hreport
  | true =>
      match message with
      | .scanCompleted revision token entries =>
          rcases session.completeScan_cases revision token entries with
            ⟨hcurrent, hrevision, _⟩ | ⟨_, hcomplete⟩
          · rw [publishes_report.2 ⟨hcurrent, hrevision⟩] at dropped
            cases dropped
          · rw [handle, hcomplete]
            exact SameOutline.refl session

/-- A scan is under way after a message if the message asks for it, or if it was
under way before and the message does not end it. -/
theorem inFlight_handle {revision : Nat}
    (h : (session.handle message).1.inFlight = some revision) :
    (∃ source, message = .rebuild (some source) ∧ revision = session.revision + 1) ∨
      (message.supersedes = false ∧ session.publishes message = false ∧
        session.inFlight = some revision) := by
  match message with
  | .rebuild none =>
      rw [handle, inFlight_rebuild] at h
      cases h
  | .rebuild (some source) =>
      rw [handle, inFlight_rebuild] at h
      cases h
      exact Or.inl ⟨source, rfl, rfl⟩
  | .close => cases h
  | .caretMoved line =>
      have same : session.SameOutline (session.handle (.caretMoved line)).1 :=
        session.sameOutline_handle rfl rfl
      exact Or.inr ⟨rfl, rfl, same.inFlight_eq.trans h⟩
  | .entryActivated line documentLines =>
      have same : session.SameOutline (session.handle (.entryActivated line documentLines)).1 :=
        session.sameOutline_handle rfl rfl
      exact Or.inr ⟨rfl, rfl, same.inFlight_eq.trans h⟩
  | .scanCompleted reported token entries =>
      rcases session.completeScan_cases reported token entries with
        ⟨_, _, focused, first, scroll, hcomplete⟩ | ⟨hfail, hcomplete⟩
      · rw [handle, hcomplete] at h
        cases h
      · rw [handle, hcomplete] at h
        exact Or.inr ⟨rfl, eq_false_of_ne_true (mt publishes_report.1 hfail), h⟩

end Session

end RegionOutline
