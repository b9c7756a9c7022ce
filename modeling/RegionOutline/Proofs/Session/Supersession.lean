import RegionOutline.Proofs.Scan.Entries
import RegionOutline.Proofs.Session.Revision

/-!
# Supersession of scans

A report is taken over exactly if nothing superseded its scan, in whatever order
reports come in and however often. One that is dropped leaves no trace, and the
index is at every point the outline taken over last.
-/

namespace RegionOutline

namespace Session

variable {settings : Settings} {messages later : List Message} {message : Message}
variable {session : Session} {revision : Nat} {source : String} {token : Token}
variable {entries : List Entry}

/-- Only a rebuild from a text asks for a scan. -/
theorem eq_rebuild_of_runScan
    (h : (session.handle message).2 = some (.runScan revision source token)) :
    message = .rebuild (some source) ∧ revision = session.revision + 1 ∧
      token = session.rebuildScope.nextToken := by
  match message with
  | .rebuild none =>
      obtain ⟨scroll, _, hscroll⟩ := Option.map_eq_some_iff.1 h
      cases hscroll
  | .rebuild (some text) =>
      cases h
      exact ⟨rfl, rfl, rfl⟩
  | .close => cases h
  | .caretMoved line =>
      obtain ⟨scroll, _, hscroll⟩ := Option.map_eq_some_iff.1 h
      cases hscroll
  | .entryActivated line documentLines =>
      simp only [handle, activate] at h
      split at h <;> cases h
  | .scanCompleted other token' entries =>
      rcases session.completeScan_cases other token' entries with
        ⟨_, _, focused, first, scroll, hcomplete⟩ | ⟨_, hcomplete⟩
      · simp [handle, hcomplete] at h
      · simp [handle, hcomplete] at h

/-- A message of the run asked for the scan, and `later` is what came after it. -/
def Asked (settings : Settings) (messages : List Message) (revision : Nat) (source : String)
    (token : Token) (later : List Message) : Prop :=
  ∃ earlier asking, messages = earlier ++ asking :: later ∧
    ((afterMessages settings earlier).handle asking).2 = some (.runScan revision source token)

/-- Since it was asked for, the revision of a scan has been passed by as many
others as there were messages to supersede it. -/
theorem revision_of_asked
    (asked : Asked settings messages revision source token later) :
    (afterMessages settings messages).revision = revision + later.countP Message.supersedes := by
  obtain ⟨earlier, asking, rfl, hasking⟩ := asked
  obtain ⟨rfl, rfl, _⟩ := eq_rebuild_of_runScan hasking
  induction later using List.reverseRecOn with
  | nil =>
      rw [afterMessages_concat]
      exact (handle_superseding _ rfl).1
  | append_singleton later message ih =>
      rw [← List.cons_append, ← List.append_assoc, afterMessages_concat, List.countP_append]
      cases h : message.supersedes with
      | false =>
          rw [(handle_not_superseding _ h).1, ih]
          simp [h]
      | true =>
          rw [(handle_superseding _ h).1, ih]
          simp [h]
          omega

theorem token_of_asked
    (asked : Asked settings messages revision source token later) :
    ∃ serial, revision = serial + 1 ∧ token = ⟨0, serial⟩ := by
  obtain ⟨earlier, asking, _, hasking⟩ := asked
  obtain ⟨_, hrevision, htoken⟩ := eq_rebuild_of_runScan hasking
  have inStep := inStep_afterMessages settings earlier
  refine ⟨_, hrevision, ?_⟩
  rw [htoken, CancelScope.nextToken, inStep.id_eq, inStep.size_eq]

/-- The token test and the revision test agree on every scan asked for. -/
theorem isCurrent_iff_of_asked
    (asked : Asked settings messages revision source token later) :
    (afterMessages settings messages).rebuildScope.isCurrent token = true ↔
      (afterMessages settings messages).revision = revision := by
  obtain ⟨serial, rfl, rfl⟩ := token_of_asked asked
  exact (inStep_afterMessages settings messages).isCurrent_iff serial

/-- The report is taken over: its entries are the index, no scan is under way
any more and the rows are published. -/
structure TakesOver (session : Session) (revision : Nat) (token : Token)
    (entries : List Entry) : Prop where
  index_eq : (session.handle (.scanCompleted revision token entries)).1.index.entries = entries
  inFlight_eq : (session.handle (.scanCompleted revision token entries)).1.inFlight = none
  published : ∃ scroll, (session.handle (.scanCompleted revision token entries)).2 =
    some (.batch [.publish, scroll])

theorem takesOver_iff (ordered : entries.Pairwise Entry.Before) :
    session.TakesOver revision token entries ↔
      session.rebuildScope.isCurrent token = true ∧ session.revision = revision := by
  rcases session.completeScan_cases revision token entries with
    ⟨hcurrent, hrevision, focused, first, scroll, hcomplete⟩ | ⟨hfail, hcomplete⟩
  · refine ⟨fun _ => ⟨hcurrent, hrevision⟩, fun _ => ⟨?_, ?_, scroll, ?_⟩⟩
    · simp only [handle, hcomplete]
      exact Index.entries_ofEntries ordered
    · simp only [handle, hcomplete]
    · simp only [handle, hcomplete]
  · refine ⟨fun taken => ?_, fun hpass => absurd hpass hfail⟩
    obtain ⟨scroll, hscroll⟩ := taken.published
    simp [handle, hcomplete] at hscroll

/-- A report that is not taken over changes nothing and asks for nothing. -/
theorem handle_of_not_takesOver (ordered : entries.Pairwise Entry.Before)
    (h : ¬ session.TakesOver revision token entries) :
    session.handle (.scanCompleted revision token entries) = (session, none) := by
  rw [takesOver_iff ordered] at h
  rcases session.completeScan_cases revision token entries with
    ⟨hcurrent, hrevision, _⟩ | ⟨_, hcomplete⟩
  · exact absurd ⟨hcurrent, hrevision⟩ h
  · exact hcomplete

/-- A report is taken over exactly if no rebuild and no close came after the
message that asked for it. -/
theorem takesOver_iff_of_asked
    (asked : Asked settings messages revision source token later) :
    (afterMessages settings messages).TakesOver revision token (scan source) ↔
      ∀ message ∈ later, message.supersedes = false := by
  rw [takesOver_iff (pairwise_scan source), isCurrent_iff_of_asked asked, and_self,
    revision_of_asked asked]
  constructor
  · intro h
    have hzero : later.countP Message.supersedes = 0 := by omega
    simpa using hzero
  · intro h
    have hzero : later.countP Message.supersedes = 0 := by simpa using h
    omega

/-- The runs of a fresh session in which every report is that of a scan asked
for before, however late or often it comes. -/
inductive Faithful (settings : Settings) : List Message → Prop
  | fresh : Faithful settings []
  | request {messages : List Message} (run : Faithful settings messages) (message : Message)
      (request : message.isReport = false) : Faithful settings (messages ++ [message])
  | report {messages : List Message} {revision : Nat} {source : String} {token : Token}
      {later : List Message} (run : Faithful settings messages)
      (asked : Asked settings messages revision source token later) :
      Faithful settings (messages ++ [.scanCompleted revision token (scan source)])

/-- The last message of a run is the one singled out, or it is the last of those
after it. -/
theorem concat_eq_append_cons {α : Type} {first second rest : List α} {last x : α}
    (h : first ++ [last] = second ++ x :: rest) :
    (first = second ∧ last = x ∧ rest = []) ∨
      ∃ init, rest = init ++ [last] ∧ first = second ++ x :: init := by
  rcases List.eq_nil_or_concat rest with rfl | ⟨init, z, rfl⟩
  · obtain ⟨hfirst, hlast⟩ := List.append_inj' h rfl
    exact Or.inl ⟨hfirst, List.singleton_inj.1 hlast, rfl⟩
  · rw [List.concat_eq_append] at h ⊢
    rw [← List.cons_append, ← List.append_assoc] at h
    obtain ⟨hfirst, hlast⟩ := List.append_inj' h rfl
    obtain rfl := List.singleton_inj.1 hlast
    exact Or.inr ⟨init, rfl, hfirst⟩

theorem Faithful.of_append {past rest : List Message}
    (faithful : Faithful settings (past ++ rest)) : Faithful settings past := by
  induction rest using List.reverseRecOn with
  | nil => simpa using faithful
  | append_singleton rest last ih =>
      apply ih
      generalize hmessages : past ++ (rest ++ [last]) = messages at faithful
      rw [← List.append_assoc] at hmessages
      cases faithful with
      | fresh => simp at hmessages
      | request run message request => exact (List.append_inj' hmessages rfl).1 ▸ run
      | report run asked => exact (List.append_inj' hmessages rfl).1 ▸ run

/-- Every report of a faithful run is that of a scan asked for before it. -/
theorem Faithful.exists_asked {past rest : List Message}
    (faithful : Faithful settings (past ++ .scanCompleted revision token entries :: rest)) :
    ∃ source later, Asked settings past revision source token later ∧ entries = scan source := by
  rw [List.append_cons] at faithful
  generalize hmessages : past ++ [.scanCompleted revision token entries] = messages at faithful
  have run := faithful.of_append
  cases run with
  | fresh => simp at hmessages
  | request run message request =>
      obtain ⟨_, hlast⟩ := List.append_inj' hmessages rfl
      obtain rfl := List.singleton_inj.1 hlast
      cases request
  | @report messages revision' source token' later run asked =>
      obtain ⟨rfl, hlast⟩ := List.append_inj' hmessages rfl
      cases hlast
      exact ⟨source, later, asked, rfl⟩

/-- The message, coming next, is a report that is taken over. -/
def TakenNext (settings : Settings) (messages : List Message) (message : Message) : Prop :=
  ∃ revision token entries, message = .scanCompleted revision token entries ∧
    (afterMessages settings messages).TakesOver revision token entries

/-- The entries are those of the report taken over last, and no close came after
it. -/
def LastTaken (settings : Settings) (messages : List Message) (entries : List Entry) : Prop :=
  ∃ past revision token later,
    messages = past ++ .scanCompleted revision token entries :: later ∧
    (afterMessages settings past).TakesOver revision token entries ∧
    ∀ between message rest, later = between ++ message :: rest → message ≠ .close ∧
      ¬ TakenNext settings (past ++ .scanCompleted revision token entries :: between) message

theorem not_lastTaken_nil (settings : Settings) (entries : List Entry) :
    ¬ LastTaken settings [] entries := by
  rintro ⟨past, revision, token, later, hmessages, _⟩
  simp at hmessages

theorem not_lastTaken_close (settings : Settings) (messages : List Message)
    (entries : List Entry) : ¬ LastTaken settings (messages ++ [.close]) entries := by
  rintro ⟨past, revision, token, later, hmessages, _, hlater⟩
  rcases concat_eq_append_cons hmessages with ⟨_, hlast, _⟩ | ⟨init, rfl, _⟩
  · cases hlast
  · exact (hlater init .close [] rfl).1 rfl

theorem lastTaken_of_takesOver
    (h : (afterMessages settings messages).TakesOver revision token entries) :
    LastTaken settings (messages ++ [.scanCompleted revision token entries]) entries := by
  refine ⟨messages, revision, token, [], rfl, h, ?_⟩
  intro between message rest hnil
  simp at hnil

/-- A message that neither closes the document nor is taken over leaves the last
report what it was. -/
theorem lastTaken_concat
    (hclose : message ≠ .close) (hnext : ¬ TakenNext settings messages message)
    (entries : List Entry) :
    LastTaken settings (messages ++ [message]) entries ↔ LastTaken settings messages entries := by
  constructor
  · rintro ⟨past, revision, token, later, hmessages, htaken, hlater⟩
    rcases concat_eq_append_cons hmessages with ⟨rfl, rfl, rfl⟩ | ⟨init, rfl, rfl⟩
    · exact absurd ⟨revision, token, entries, rfl, htaken⟩ hnext
    · refine ⟨past, revision, token, init, rfl, htaken, ?_⟩
      rintro between other rest rfl
      exact hlater between other (rest ++ [message]) (by simp)
  · rintro ⟨past, revision, token, later, rfl, htaken, hlater⟩
    refine ⟨past, revision, token, later ++ [message], by simp, htaken, ?_⟩
    intro between other rest hsplit
    rcases concat_eq_append_cons hsplit with ⟨rfl, rfl, rfl⟩ | ⟨init, rfl, rfl⟩
    · exact ⟨hclose, hnext⟩
    · exact hlater between other init rfl

/-- The index holds the outline taken over last since the last close, or nothing
if there is none. -/
def ShowsLastTaken (settings : Settings) (messages : List Message) : Prop :=
  (∃ source, LastTaken settings messages (scan source) ∧
    (afterMessages settings messages).index.entries = scan source) ∨
  ((∀ entries, ¬ LastTaken settings messages entries) ∧
    (afterMessages settings messages).index = .empty)

theorem showsLastTaken_concat
    (hclose : message ≠ .close) (hnext : ¬ TakenNext settings messages message)
    (hindex : ((afterMessages settings messages).handle message).1.index =
      (afterMessages settings messages).index)
    (shows : ShowsLastTaken settings messages) : ShowsLastTaken settings (messages ++ [message]) := by
  unfold ShowsLastTaken
  simp only [lastTaken_concat hclose hnext, afterMessages_concat, hindex]
  exact shows

theorem index_handle_request (session : Session)
    (request : message.isReport = false) (hclose : message ≠ .close) :
    (session.handle message).1.index = session.index := by
  cases hsupersedes : message.supersedes with
  | false =>
      obtain ⟨scope, pending, focused, first, hquiet⟩ :=
        session.handle_quiet_eq hsupersedes request
      rw [hquiet]
  | true =>
      match message with
      | .rebuild source =>
          obtain ⟨inFlight, pending, focused, first, hrebuild⟩ := session.rebuild_eq source
          simp only [handle, hrebuild]
      | .close => exact absurd rfl hclose

theorem Faithful.showsLastTaken
    (faithful : Faithful settings messages) : ShowsLastTaken settings messages := by
  induction faithful with
  | fresh => exact Or.inr ⟨not_lastTaken_nil settings, rfl⟩
  | @request messages run message request ih =>
      by_cases hclose : message = .close
      · subst hclose
        exact Or.inr ⟨not_lastTaken_close settings messages, by rw [afterMessages_concat]; rfl⟩
      · refine showsLastTaken_concat hclose ?_ (index_handle_request _ request hclose) ih
        rintro ⟨revision, token, entries, rfl, _⟩
        cases request
  | @report messages revision source token later run asked ih =>
      by_cases htaken :
          (afterMessages settings messages).TakesOver revision token (scan source)
      · refine Or.inl ⟨source, lastTaken_of_takesOver htaken, ?_⟩
        rw [afterMessages_concat]
        exact htaken.index_eq
      · have hdropped := handle_of_not_takesOver (pairwise_scan source) htaken
        refine showsLastTaken_concat (by simp) ?_ (by rw [hdropped]) ih
        rintro ⟨revision', token', entries, heq, htaken'⟩
        cases heq
        exact htaken htaken'

/-- What becomes of a report, if `later` came after the message that asked for
its scan. -/
structure Judged (session : Session) (revision : Nat) (token : Token) (entries : List Entry)
    (later : List Message) : Prop where
  takesOver_iff : session.TakesOver revision token entries ↔
    ∀ message ∈ later, message.supersedes = false
  tests_agree : session.rebuildScope.isCurrent token = true ↔ session.revision = revision
  dropped : ¬ session.TakesOver revision token entries →
    session.handle (.scanCompleted revision token entries) = (session, none)

/-- In every run whose reports are true, a report is taken over exactly if no
rebuild and no close came after the message that asked for its scan, both tests
decide alike, a report that is dropped leaves no trace, and the index is at every
point the outline taken over last. -/
theorem scan_supersession {settings : Settings} {messages : List Message}
    (faithful : Faithful settings messages) :
    (∀ past revision token entries rest,
      messages = past ++ .scanCompleted revision token entries :: rest →
      ∃ source later, Asked settings past revision source token later ∧ entries = scan source ∧
        Judged (afterMessages settings past) revision token entries later) ∧
    (∀ past rest, messages = past ++ rest → ShowsLastTaken settings past) := by
  constructor
  · rintro past revision token entries rest rfl
    obtain ⟨source, later, asked, rfl⟩ := faithful.exists_asked
    exact ⟨source, later, asked, rfl, takesOver_iff_of_asked asked, isCurrent_iff_of_asked asked,
      handle_of_not_takesOver (pairwise_scan source)⟩
  · rintro past rest rfl
    exact faithful.of_append.showsLastTaken

/-- The report of the first scan comes after the second was asked for. -/
def overtakenRun : List Message :=
  [.rebuild (some "#pragma region Methods"), .rebuild (some "public:"),
    .scanCompleted 1 ⟨0, 0⟩ (scan "#pragma region Methods"), .scanCompleted 2 ⟨0, 1⟩ (scan "public:")]

theorem faithful_overtakenRun : Faithful {} overtakenRun := by
  have start : Faithful {} [] := .fresh
  have first := start.request (.rebuild (some "#pragma region Methods")) rfl
  have second := first.request (.rebuild (some "public:")) rfl
  have late := second.report ⟨[], .rebuild (some "#pragma region Methods"), rfl, rfl⟩
  exact late.report
    ⟨[.rebuild (some "#pragma region Methods")], .rebuild (some "public:"), rfl, rfl⟩

theorem overtaken_report_judged :
    Faithful {} overtakenRun ∧
      (∃ source later, Asked {} (overtakenRun.take 2) 1 source ⟨0, 0⟩ later ∧
        scan "#pragma region Methods" = scan source ∧
        Judged (afterMessages {} (overtakenRun.take 2)) 1 ⟨0, 0⟩ (scan "#pragma region Methods")
          later) ∧
      ShowsLastTaken {} overtakenRun := by
  obtain ⟨judged, shown⟩ := scan_supersession faithful_overtakenRun
  exact ⟨faithful_overtakenRun, judged _ 1 ⟨0, 0⟩ _ (overtakenRun.drop 3) rfl,
    shown overtakenRun [] (List.append_nil _).symm⟩

end Session

end RegionOutline
