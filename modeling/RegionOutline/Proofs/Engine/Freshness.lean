import RegionOutline.Proofs.Engine.Idle
import RegionOutline.Proofs.Engine.Schedule

/-!
# What an idle machine shows

A machine publishes nothing but the outline of the text that it was last asked to
show, or an empty one after a close, and once it is idle it shows just that. A
report is judged by its revision and its token alone, so this holds as long as
nobody posts a made-up report under those of the last request.
-/

namespace RegionOutline

namespace Message

/-- What is to be shown in answer to a request. A rebuild without a text leaves
that open. -/
def outline? : Message → Option (List Entry)
  | .rebuild (some text) => some (scan text)
  | .close => some []
  | .rebuild none | .caretMoved _ | .entryActivated _ _ | .scanCompleted _ _ _ => none

end Message

namespace Session

variable {settings : Settings} {messages later echoes : List Message} {message : Message}
variable {revision : Nat} {source : String} {token : Token} {entries : List Entry}

/-- The last rebuild or close among the messages. -/
def lastRequest (messages : List Message) : Option Message :=
  (messages.filter Message.supersedes).getLast?

/-- What is to be shown after the messages, if the last request tells. -/
def wanted (messages : List Message) : Option (List Entry) :=
  (lastRequest messages).bind Message.outline?

theorem lastRequest_append_quiet (messages : List Message)
    (quiet : ∀ message ∈ later, message.supersedes = false) :
    lastRequest (messages ++ later) = lastRequest messages := by
  have hnone : later.filter Message.supersedes = [] := by simpa using quiet
  rw [lastRequest, List.filter_append, hnone, List.append_nil]
  rfl

theorem lastRequest_superseding (messages : List Message) (h : message.supersedes = true)
    (quiet : ∀ message ∈ later, message.supersedes = false) :
    lastRequest (messages ++ message :: later) = some message := by
  rw [List.append_cons, lastRequest_append_quiet _ quiet, lastRequest, List.filter_append]
  simp [h]

/-- A scan whose revision is the current one was asked for by the last request. -/
theorem lastRequest_of_asked (asked : Asked settings messages revision source token later)
    (current : (afterMessages settings messages).revision = revision) :
    lastRequest messages = some (.rebuild (some source)) := by
  have hcount := revision_of_asked asked
  have hzero : later.countP Message.supersedes = 0 := by omega
  obtain ⟨earlier, asking, rfl, hasking⟩ := asked
  obtain ⟨rfl, _, _⟩ := eq_rebuild_of_runScan hasking
  apply lastRequest_superseding earlier rfl
  simpa using hzero

theorem revision_le_hear (session : Session) (messages : List Message) :
    session.revision ≤ (session.hear messages).revision := by
  induction messages generalizing session with
  | nil => exact Nat.le_refl _
  | cons message rest ih =>
      calc session.revision ≤ (session.handle message).1.revision :=
            session.revision_le_handle message
        _ ≤ ((session.handle message).1.hear rest).revision := ih _

/-- No report, or that of a scan asked for, or one that is never taken over: its
token comes from elsewhere, does not go with the revision, or was superseded. -/
def Trusted (settings : Settings) (handled : List Message) : Message → Prop
  | .scanCompleted revision token entries =>
      (∃ source later, Asked settings handled revision source token later ∧
        entries = scan source) ∨
      token.scope ≠ 0 ∨ revision ≠ token.serial + 1 ∨
      token.serial + 1 < (afterMessages settings handled).revision
  | .rebuild _ | .close | .caretMoved _ | .entryActivated _ _ => True

theorem trusted_of_request (messages : List Message) (request : message.isReport = false) :
    Trusted settings messages message := by
  match message with
  | .rebuild _ | .close | .caretMoved _ | .entryActivated _ _ => trivial
  | .scanCompleted _ _ _ => cases request

theorem Trusted.append (trusted : Trusted settings messages message) (more : List Message) :
    Trusted settings (messages ++ more) message := by
  match message with
  | .rebuild _ | .close | .caretMoved _ | .entryActivated _ _ => trivial
  | .scanCompleted revision token entries =>
      rcases trusted with
        ⟨source, later, ⟨earlier, asking, rfl, hasking⟩, hentries⟩ | hscope | hother | hold
      · exact Or.inl ⟨source, later ++ more, ⟨earlier, asking, by simp, hasking⟩, hentries⟩
      · exact Or.inr (Or.inl hscope)
      · exact Or.inr (Or.inr (Or.inl hother))
      · refine Or.inr (Or.inr (Or.inr ?_))
        rw [afterMessages_append]
        exact Nat.lt_of_lt_of_le hold (revision_le_hear _ more)

/-- A trusted report that passes both tests is that of a scan asked for. -/
theorem Trusted.asked (trusted : Trusted settings messages (.scanCompleted revision token entries))
    (pass : (afterMessages settings messages).rebuildScope.isCurrent token = true ∧
      (afterMessages settings messages).revision = revision) :
    ∃ source later, Asked settings messages revision source token later ∧
      entries = scan source := by
  have inStep := inStep_afterMessages settings messages
  obtain ⟨houtstanding, hlive⟩ := (CancelScope.isCurrent_iff _ _).1 pass.1
  have hrevision := (inStep.outstanding_iff token.serial).1 houtstanding
  rcases trusted with genuine | hscope | hother | hold
  · exact genuine
  · simp only [CancelScope.isLive, Bool.and_eq_true, beq_iff_eq, inStep.id_eq] at hlive
    exact absurd hlive.1 hscope
  · exact absurd (pass.2.symm.trans hrevision) hother
  · omega

/-- What a trusted message makes the session publish is what is wanted after it. -/
theorem Trusted.wanted_eq (trusted : Trusted settings messages message)
    (publishes : (afterMessages settings messages).publishes message = true)
    (quiet : ∀ message ∈ echoes, message.supersedes = false) :
    wanted (messages ++ message :: echoes) =
      some ((afterMessages settings messages).handle message).1.index.entries := by
  match message with
  | .rebuild _ | .caretMoved _ | .entryActivated _ _ => cases publishes
  | .close =>
      rw [wanted, lastRequest_superseding messages rfl quiet]
      rfl
  | .scanCompleted revision token entries =>
      have pass := publishes_report.1 publishes
      obtain ⟨source, later, asked, rfl⟩ := trusted.asked pass
      have taken := (takesOver_iff (pairwise_scan source)).2 pass
      have hquiet : ∀ other ∈ .scanCompleted revision token (scan source) :: echoes,
          other.supersedes = false := by
        intro other hother
        rcases List.mem_cons.1 hother with rfl | hecho
        · rfl
        · exact quiet other hecho
      rw [wanted, lastRequest_append_quiet messages hquiet, lastRequest_of_asked asked pass.2,
        taken.index_eq]
      rfl

end Session

/-- The entries are those of the index, those published last and the rows of the
view. -/
structure Engine.Displays (engine : Engine) (entries : List Entry) : Prop where
  index_eq : engine.session.index.entries = entries
  published_eq : engine.published.getLast? = some entries
  rows_eq : engine.view.entries = entries

theorem Engine.Displays.of_eq {engine other : Engine} {entries : List Entry}
    (displays : engine.Displays entries) (hsession : other.session = engine.session)
    (hjournal : other.journal = engine.journal) (hview : other.view = engine.view) :
    other.Displays entries := by
  obtain ⟨hindex, hpublished, hrows⟩ := displays
  constructor
  · rw [hsession, hindex]
  · rw [Engine.published, hjournal]
    exact hpublished
  · rw [hview, hrows]

namespace Machine

variable {settings : Settings} {machine after : Machine} {action : Action}
variable {schedule : List Action} {message : Message} {waiting echoes : List Message}

/-- A message that anyone may post. A report has a token that was handed out, if
not one from elsewhere, and if it passes both tests as it is posted, it is that of
the scan asked for. -/
def Honest (settings : Settings) (machine : Machine) : Message → Prop
  | .scanCompleted revision token entries =>
      (token.scope = machine.engine.session.rebuildScope.id →
        token.serial < machine.engine.session.rebuildScope.cancelled.size) ∧
      (machine.engine.session.publishes (.scanCompleted revision token entries) = true →
        ∃ source later, Session.Asked settings machine.handled revision source token later ∧
          entries = scan source)
  | .rebuild _ | .close | .caretMoved _ | .entryActivated _ _ => True

theorem Sound.trusted_of_honest (sound : machine.Sound settings)
    (honest : machine.Honest settings message) :
    Session.Trusted settings machine.handled message := by
  match message with
  | .rebuild _ | .close | .caretMoved _ | .entryActivated _ _ => trivial
  | .scanCompleted revision ⟨scope, serial⟩ entries =>
      have inStep := Session.inStep_afterMessages settings machine.handled
      simp only [Honest, sound.session_eq, inStep.id_eq, inStep.size_eq] at honest
      obtain ⟨issued, genuine⟩ := honest
      by_cases hscope : scope = 0
      · subst hscope
        have hissued := issued rfl
        by_cases hother : revision = serial + 1
        · by_cases hcurrent : (Session.afterMessages settings machine.handled).revision = serial + 1
          · left
            apply genuine
            apply Session.publishes_report.2
            exact ⟨(inStep.isCurrent_iff serial).2 hcurrent, hcurrent.trans hother.symm⟩
          · refine Or.inr (Or.inr (Or.inr ?_))
            change serial + 1 < _
            omega
        · exact Or.inr (Or.inr (Or.inl hother))
      · exact Or.inr (Or.inl hscope)

/-- Only trusted reports wait, and a machine with no scan under way shows what is
wanted. -/
structure Truthful (settings : Settings) (machine : Machine) : Prop where
  trusted : ∀ message ∈ machine.engine.queue, Session.Trusted settings machine.handled message
  shows : ∀ entries, Session.wanted machine.handled = some entries →
    machine.engine.session.inFlight = none → machine.engine.Displays entries

theorem truthful_start (settings : Settings) (host : Host) (view : View) :
    (start settings host view).Truthful settings where
  trusted := by simp [start]
  shows := by simp [start, Session.wanted, Session.lastRequest]

theorem Handles.quiet (handles : machine.Handles message waiting echoes after) :
    ∀ echo ∈ echoes, echo.supersedes = false := by
  intro echo hecho
  obtain ⟨line, rfl⟩ := handles.caret echo hecho
  rfl

/-- What is published when a message is handled is what is wanted then. -/
theorem Truthful.wanted_of_publishes (truthful : machine.Truthful settings)
    (sound : machine.Sound settings) (handles : machine.Handles message waiting echoes after)
    (source : machine.engine.queue = message :: waiting ∨
      machine.engine.queue = waiting ∧ message.isReport = false)
    (publishes : machine.engine.session.publishes message = true) :
    Session.wanted after.handled =
      some (machine.engine.session.handle message).1.index.entries := by
  have trusted : Session.Trusted settings machine.handled message := by
    rcases source with hqueue | ⟨_, hrequest⟩
    · apply truthful.trusted
      rw [hqueue]
      exact List.mem_cons_self
    · exact Session.trusted_of_request _ hrequest
  rw [sound.session_eq] at publishes ⊢
  rw [handles.handled_eq]
  exact trusted.wanted_eq publishes handles.quiet

/-- A message that publishes makes the machine show what is wanted; any other one
but a rebuild keeps both, and after a rebuild nothing is wanted yet. -/
theorem Truthful.handle (truthful : machine.Truthful settings) (sound : machine.Sound settings)
    (handles : machine.Handles message waiting echoes after)
    (source : machine.engine.queue = message :: waiting ∨
      machine.engine.queue = waiting ∧ message.isReport = false) :
    after.Truthful settings := by
  constructor
  · intro other hother
    rw [handles.queue_eq] at hother
    rw [handles.handled_eq]
    apply (truthful.trusted other _).append
    rcases source with hqueue | ⟨hqueue, _⟩
    · rw [hqueue]
      exact List.mem_cons_of_mem _ hother
    · rwa [hqueue]
  · intro entries hwanted hidle
    have same := handles.sameOutline
    rw [← same.inFlight_eq] at hidle
    cases hpublishes : machine.engine.session.publishes message with
    | true =>
        rw [truthful.wanted_of_publishes sound handles source hpublishes] at hwanted
        obtain rfl := Option.some.inj hwanted
        constructor
        · rw [same.index_eq]
        · rw [handles.published_eq, if_pos hpublishes, List.getLast?_concat]
        · rw [handles.rows_eq, if_pos hpublishes]
    | false =>
        cases hsupersedes : message.supersedes with
        | true =>
            rw [handles.handled_eq, Session.wanted,
              Session.lastRequest_superseding _ hsupersedes handles.quiet] at hwanted
            match message with
            | .rebuild none => cases hwanted
            | .rebuild (some text) =>
                rw [Session.handle, Session.inFlight_rebuild] at hidle
                cases hidle
            | .close => cases hpublishes
        | false =>
            have kept := machine.engine.session.sameOutline_of_dropped hsupersedes hpublishes
            have hquiet : ∀ other ∈ message :: echoes, other.supersedes = false := by
              intro other hother
              rcases List.mem_cons.1 hother with rfl | hecho
              · exact hsupersedes
              · exact handles.quiet other hecho
            rw [handles.handled_eq, Session.wanted,
              Session.lastRequest_append_quiet _ hquiet] at hwanted
            rw [← kept.inFlight_eq] at hidle
            have shown := truthful.shows entries hwanted hidle
            constructor
            · rw [← same.index_eq, ← kept.index_eq, shown.index_eq]
            · rw [handles.published_eq, hpublishes]
              simpa using shown.published_eq
            · rw [handles.rows_eq, hpublishes]
              exact shown.rows_eq

/-- One step keeps a machine truthful, unless someone posts a made-up report. -/
theorem Truthful.moves (truthful : machine.Truthful settings) (sound : machine.Sound settings)
    (moves : machine.Moves action after)
    (honest : ∀ message, action = .post message → machine.Honest settings message) :
    after.Truthful settings := by
  cases moves with
  | rest host control accounted =>
      refine ⟨truthful.trusted, ?_⟩
      intro entries hwanted hidle
      exact (truthful.shows entries hwanted hidle).of_eq rfl rfl rfl
  | post message =>
      constructor
      · intro other hother
        rcases List.mem_append.1 hother with hother | hother
        · exact truthful.trusted other hother
        · obtain rfl := List.mem_singleton.1 hother
          exact sound.trusted_of_honest (honest other rfl)
      · intro entries hwanted hidle
        exact (truthful.shows entries hwanted hidle).of_eq rfl rfl rfl
  | @work position thread standing =>
      constructor
      · intro other hother
        rcases List.mem_append.1 hother with hother | hother
        · exact truthful.trusted other hother
        · obtain ⟨entries, hprogress, rfl⟩ := Thread.mem_sends hother
          obtain ⟨⟨later, asked⟩, scans⟩ := sound.serves thread (List.mem_of_getElem? standing)
          rw [hprogress] at scans
          exact Or.inl ⟨thread.source, later, asked, scans⟩
      · intro entries hwanted hidle
        exact (truthful.shows entries hwanted hidle).of_eq rfl rfl rfl
  | reap standing ended looking => exact ⟨truthful.trusted, truthful.shows⟩
  | handle message waiting control source moving =>
      exact truthful.handle sound (handles_dispatch sound.workers_eq message waiting control) source

/-- A step publishes nothing, or else what is wanted after it. -/
theorem Truthful.published_moves (truthful : machine.Truthful settings)
    (sound : machine.Sound settings) (moves : machine.Moves action after) :
    after.engine.published = machine.engine.published ∨
      ∃ entries, Session.wanted after.handled = some entries ∧
        after.engine.published = machine.engine.published ++ [entries] := by
  cases moves with
  | rest host control accounted => exact Or.inl rfl
  | post message => exact Or.inl rfl
  | work standing => exact Or.inl rfl
  | reap standing ended looking => exact Or.inl rfl
  | handle message waiting control source moving =>
      have handles := handles_dispatch sound.workers_eq message waiting control
      cases hpublishes : machine.engine.session.publishes message with
      | false =>
          left
          rw [handles.published_eq, hpublishes]
          exact List.append_nil _
      | true =>
          right
          refine ⟨_, truthful.wanted_of_publishes sound handles source hpublishes, ?_⟩
          rw [handles.published_eq, if_pos hpublishes]

/-- Every report posted in the course of a schedule is honest when it is posted. -/
def HonestPosts (settings : Settings) (first : Machine) (schedule : List Action) : Prop :=
  ∀ earlier message later machine, schedule = earlier ++ .post message :: later →
    first.run earlier = some machine → machine.Honest settings message

theorem HonestPosts.of_concat {first : Machine}
    (honest : HonestPosts settings first (schedule ++ [action])) :
    HonestPosts settings first schedule := by
  rintro earlier message later machine rfl hrun
  exact honest earlier message (later ++ [action]) machine (by simp) hrun

theorem truthful_of_run {host : Host} {view : View}
    (h : (start settings host view).run schedule = some machine)
    (honest : HonestPosts settings (start settings host view) schedule) :
    machine.Truthful settings := by
  induction schedule using List.reverseRecOn generalizing machine with
  | nil =>
      cases h
      exact truthful_start settings host view
  | append_singleton schedule action ih =>
      obtain ⟨before, hbefore, hact⟩ := run_concat_eq_some h
      apply (ih hbefore honest.of_concat).moves (sound_of_run hbefore) (moves_of_act hact)
      rintro message rfl
      exact honest schedule message [] before rfl hbefore

theorem honestPosts_of_requests (settings : Settings) (first : Machine)
    (requests : ∀ action ∈ schedule, action.postsReport = false) :
    HonestPosts settings first schedule := by
  rintro earlier message later machine rfl _
  have request : message.isReport = false := requests (.post message) (by simp)
  match message with
  | .rebuild _ | .close | .caretMoved _ | .entryActivated _ _ => trivial
  | .scanCompleted _ _ _ => cases request

/-- What is true of a machine that a schedule has led to from the first one. -/
structure Settles (settings : Settings) (first : Machine) (schedule : List Action)
    (machine : Machine) : Prop where
  /-- The session is what the messages on record have made of it. -/
  session_eq : machine.engine.session = Session.afterMessages settings machine.handled
  /-- The owner goes on waiting until no thread, no message and no scan is left,
  whatever is posted. -/
  idle : ∀ last, machine.act .leave = some last →
    last.threads = [] ∧ last.engine.queue = [] ∧ last.engine.session.inFlight = none
  /-- If the last request among the messages was a rebuild from a text, the outline
  of that text is shown then, and nothing if it was a close. -/
  shown : HonestPosts settings first schedule → ∀ last, machine.act .leave = some last →
    ∀ entries, Session.wanted last.handled = some entries → last.engine.Displays entries
  /-- At no step is the outline of any other text published. -/
  fresh : HonestPosts settings first schedule → ∀ action next, machine.act action = some next →
    next.engine.published = machine.engine.published ∨
      ∃ entries, Session.wanted next.handled = some entries ∧
        next.engine.published = machine.engine.published ++ [entries]

/-- However threads, host, posted messages and owner take their turns, no report is
lost: an owner that has waited for idleness finds no thread, message or scan left,
and the view shows the outline of the last text asked for, or nothing after a close,
and has never been shown one that was superseded. An engine, which lets its workers
end at once, takes one of these turns. -/
theorem idle_shows_last_request (settings : Settings) (host : Host) (view : View)
    {schedule : List Action} {machine : Machine}
    (run : (start settings host view).run schedule = some machine) :
    Settles settings (start settings host view) schedule machine ∧
      ∀ calls : List Engine.Call, (∀ call ∈ calls, call.postsReport = false) →
        ∃ turns last record, HonestPosts settings (start settings host view) turns ∧
          (start settings host view).run turns = some last ∧
          last.act .leave = some (ofEngine record .free
            (calls.foldl Engine.perform { session := { settings }, host, view }).runUntilIdle) := by
  have sound := sound_of_run run
  constructor
  · constructor
    · exact sound.session_eq
    · intro last hleave
      exact sound.idle_of_leave hleave
    · intro honest last hleave entries hwanted
      have truthful := truthful_of_run run honest
      have after := truthful.moves sound (moves_of_act hleave) (by simp)
      exact after.shows entries hwanted (sound.idle_of_leave hleave).2.2
    · intro honest action next hact
      exact (truthful_of_run run honest).published_moves sound (moves_of_act hact)
  · intro calls requests
    obtain ⟨called, first⟩ :=
      reaches_calls [] { session := { settings }, host, view } calls requests
    obtain ⟨record, last, second, hleave⟩ := reaches_runUntilIdle called
      (calls.foldl Engine.perform { session := { settings }, host, view })
    obtain ⟨turns, hturns, hrun⟩ := first.trans second
    exact ⟨turns, last, record, honestPosts_of_requests settings _ hturns, hrun, hleave⟩

/-- The host of a document with a text. -/
def showing (content : String) : Host :=
  { document := { content } }

/-- The text changes while the first scan runs. That scan gives up, the other one
reports while the owner waits. -/
def overtaken : List Action :=
  [.event .opened, .work 0, .change (showing "public:"), .event .textChanged, .enter, .look, .look,
    .look, .work 0, .work 1, .work 0, .work 1, .work 1, .work 1, .timeOut, .look, .look, .look,
    .receive, .look, .work 0, .look, .timeOut, .look, .look]

theorem overtaken_shows_last_text :
    ∃ machine last,
      (start {} (showing "#pragma region Methods") {}).run overtaken = some machine ∧
      machine.act .leave = some last ∧
      HonestPosts {} (start {} (showing "#pragma region Methods") {}) overtaken ∧
      Session.wanted last.handled = some (scan "public:") ∧
      last.engine.Displays (scan "public:") := by
  have hrun : ((start {} (showing "#pragma region Methods") {}).run (overtaken ++ [.leave])).map
      (fun last => Session.wanted last.handled) = some (some (scan "public:")) := by
    decide +kernel
  obtain ⟨last, hlast, hwanted⟩ := Option.map_eq_some_iff.1 hrun
  obtain ⟨machine, run, hleave⟩ := run_concat_eq_some hlast
  have honest : HonestPosts {} (start {} (showing "#pragma region Methods") {}) overtaken :=
    honestPosts_of_requests {} _ (by decide)
  obtain ⟨settles, _⟩ := idle_shows_last_request {} (showing "#pragma region Methods") {} run
  exact ⟨machine, last, run, hleave, honest, hwanted,
    settles.shown honest last hleave _ hwanted⟩

/-- Someone posts a report with no entries under the token of the scan, once that
has ended. -/
def forged : List Action :=
  [.event .opened, .work 0, .work 0, .work 0, .work 0, .work 0, .enter, .look, .look, .receive,
    .look, .leave, .post (.scanCompleted 1 ⟨0, 0⟩ []), .enter, .look, .receive, .look]

theorem not_idle_shows_last_text :
    ¬ ∀ schedule last text,
      (start {} (showing "public:") {}).run (schedule ++ [.leave]) = some last →
      Session.lastRequest last.handled = some (.rebuild (some text)) →
      last.engine.session.index.entries = scan text := by
  intro h
  have hrun : ((start {} (showing "public:") {}).run (forged ++ [.leave])).map
      (fun last => (Session.lastRequest last.handled, last.engine.session.index.entries)) =
        some (some (.rebuild (some "public:")), []) := by
    decide +kernel
  obtain ⟨last, hlast, hend⟩ := Option.map_eq_some_iff.1 hrun
  obtain ⟨hrequest, hentries⟩ := Prod.mk.inj hend
  have hscan := h forged last "public:" hlast hrequest
  rw [hentries] at hscan
  exact absurd hscan (by decide)

end Machine

end RegionOutline
