import RegionOutline.Proofs.Session.Supersession

/-!
# Plays and their ledger

Runs of a session told by cues: a request, or the report of the scan with a given
number, where scans are numbered in the order in which they were asked for. The
plays of such cues are exactly the runs whose reports are true. What they leave in
the index can be read off a ledger that knows nothing of revisions and tokens: the
texts asked for, the scan that nothing superseded, and the scan shown.
-/

namespace RegionOutline

/-- A step of a run, with reports named by the number of their scan. -/
inductive Cue where
  | request (message : Message) (request : message.isReport = false)
  | report (number : Nat)

/-- A scan that was asked for. -/
structure ScanOrder where
  revision : Nat
  source : String
  token : Token

namespace ScanOrder

def ofCommand? : Command → Option ScanOrder
  | .runScan revision source token => some ⟨revision, source, token⟩
  | _ => none

/-- The true report of the scan. -/
def report (order : ScanOrder) : Message :=
  .scanCompleted order.revision order.token (scan order.source)

end ScanOrder

/-- A session at work, with what it was told and the scans that it asked for. -/
structure Play where
  session : Session
  messages : List Message := []
  orders : List ScanOrder := []

namespace Play

variable {settings : Settings} {play : Play}

def tell (play : Play) (message : Message) : Play where
  session := (play.session.handle message).1
  messages := play.messages ++ [message]
  orders := play.orders ++ ((play.session.handle message).2.bind ScanOrder.ofCommand?).toList

/-- Tell the session what the cue stands for. The report of a scan that was not
asked for yet does not exist. -/
def step (play : Play) : Cue → Play
  | .request message _ => play.tell message
  | .report number =>
      match play.orders[number]? with
      | none => play
      | some order => play.tell order.report

theorem step_report {number : Nat} {order : ScanOrder} (h : play.orders[number]? = some order) :
    play.step (.report number) = play.tell order.report := by
  simp only [step, h]

theorem step_report_none {number : Nat} (h : play.orders[number]? = none) :
    play.step (.report number) = play := by
  simp only [step, h]

/-- The play of the cues from a fresh session. -/
def ofCues (settings : Settings) (cues : List Cue) : Play :=
  cues.foldl step { session := { settings } }

@[simp] theorem ofCues_nil (settings : Settings) :
    ofCues settings [] = { session := { settings } } := rfl

@[simp] theorem ofCues_concat (settings : Settings) (cues : List Cue) (cue : Cue) :
    ofCues settings (cues ++ [cue]) = (ofCues settings cues).step cue := by
  simp [ofCues]

theorem ofCues_append (settings : Settings) (first second : List Cue) :
    ofCues settings (first ++ second) = second.foldl step (ofCues settings first) := by
  simp [ofCues]

/-- The play is a run with true reports, and its orders are the scans asked for. -/
structure Genuine (settings : Settings) (play : Play) : Prop where
  session_eq : play.session = Session.afterMessages settings play.messages
  faithful : Session.Faithful settings play.messages
  mem_orders_iff : ∀ order : ScanOrder, order ∈ play.orders ↔
    ∃ later, Session.Asked settings play.messages order.revision order.source order.token later

/-- A message more: the scans asked for are the former ones and perhaps the one
that it asks for. -/
theorem asked_concat_iff {messages : List Message} {message : Message} {revision : Nat}
    {source : String} {token : Token} :
    (∃ later, Session.Asked settings (messages ++ [message]) revision source token later) ↔
      (∃ later, Session.Asked settings messages revision source token later) ∨
        ((Session.afterMessages settings messages).handle message).2 =
          some (.runScan revision source token) := by
  constructor
  · rintro ⟨later, earlier, asking, hmessages, hasking⟩
    rcases Session.concat_eq_append_cons hmessages with ⟨rfl, rfl, rfl⟩ | ⟨init, rfl, rfl⟩
    · exact Or.inr hasking
    · exact Or.inl ⟨init, earlier, asking, rfl, hasking⟩
  · rintro (⟨later, earlier, asking, rfl, hasking⟩ | hasking)
    · exact ⟨later ++ [message], earlier, asking, by simp, hasking⟩
    · exact ⟨[], messages, message, rfl, hasking⟩

theorem mem_ofCommand?_iff {command : Option Command} {order : ScanOrder} :
    order ∈ (command.bind ScanOrder.ofCommand?).toList ↔
      command = some (.runScan order.revision order.source order.token) := by
  obtain ⟨revision, source, token⟩ := order
  cases command with
  | none => simp
  | some command => cases command <;> simp [ScanOrder.ofCommand?, eq_comm]

theorem Genuine.tell (genuine : Genuine settings play) {message : Message}
    (faithful : Session.Faithful settings (play.messages ++ [message])) :
    Genuine settings (play.tell message) where
  session_eq := by
    change (play.session.handle message).1 = _
    rw [genuine.session_eq]
    exact (Session.afterMessages_concat _ _ _).symm
  faithful := faithful
  mem_orders_iff order := by
    change order ∈ play.orders ++ _ ↔ _
    rw [List.mem_append, genuine.mem_orders_iff, mem_ofCommand?_iff, genuine.session_eq]
    exact asked_concat_iff.symm

theorem Genuine.step (genuine : Genuine settings play) (cue : Cue) :
    Genuine settings (play.step cue) := by
  match cue with
  | .request message request => exact genuine.tell (genuine.faithful.request message request)
  | .report number =>
      cases horder : play.orders[number]? with
      | none =>
          rw [step_report_none horder]
          exact genuine
      | some order =>
          obtain ⟨later, asked⟩ := (genuine.mem_orders_iff order).1 (List.mem_of_getElem? horder)
          rw [step_report horder]
          exact genuine.tell (genuine.faithful.report asked)

theorem genuine_ofCues (settings : Settings) (cues : List Cue) :
    Genuine settings (ofCues settings cues) := by
  induction cues using List.reverseRecOn with
  | nil =>
      refine ⟨rfl, .fresh, fun order => ?_⟩
      simp [Session.Asked]
  | append_singleton cues cue ih =>
      rw [ofCues_concat]
      exact ih.step cue

/-- The runs with true reports are the plays of cues. -/
theorem faithful_iff_exists_cues {messages : List Message} :
    Session.Faithful settings messages ↔ ∃ cues, (ofCues settings cues).messages = messages := by
  constructor
  · intro faithful
    induction faithful with
    | fresh => exact ⟨[], rfl⟩
    | @request messages run message request ih =>
        obtain ⟨cues, rfl⟩ := ih
        exact ⟨cues ++ [.request message request], by rw [ofCues_concat]; rfl⟩
    | @report messages revision source token later run asked ih =>
        obtain ⟨cues, rfl⟩ := ih
        have genuine := genuine_ofCues settings cues
        have hmem := (genuine.mem_orders_iff ⟨revision, source, token⟩).2 ⟨later, asked⟩
        obtain ⟨number, hnumber⟩ := List.mem_iff_getElem?.1 hmem
        refine ⟨cues ++ [.report number], ?_⟩
        rw [ofCues_concat, step_report hnumber]
        rfl
  · rintro ⟨cues, rfl⟩
    exact (genuine_ofCues settings cues).faithful

/-- The revision of an order belongs to its token and is not past the session's. -/
theorem Genuine.order_issued (genuine : Genuine settings play) {order : ScanOrder}
    (h : order ∈ play.orders) :
    (play.session.rebuildScope.isCurrent order.token = true ↔
      play.session.revision = order.revision) ∧ order.revision ≤ play.session.revision := by
  obtain ⟨later, asked⟩ := (genuine.mem_orders_iff order).1 h
  have hrevision := Session.revision_of_asked asked
  rw [genuine.session_eq]
  exact ⟨Session.isCurrent_iff_of_asked asked, by omega⟩

end Play

/-- What the cues of a play make of the outline. -/
structure Ledger where
  /-- The texts of the scans asked for, by their numbers. -/
  texts : List String := []
  /-- The scan that nothing superseded. -/
  current : Option Nat := none
  /-- The scan whose outline is shown. -/
  shown : Option Nat := none
  deriving DecidableEq

namespace Ledger

def step (ledger : Ledger) : Cue → Ledger
  | .request (.rebuild (some text)) _ =>
      { ledger with texts := ledger.texts ++ [text], current := some ledger.texts.length }
  | .request (.rebuild none) _ => { ledger with current := none }
  | .request .close _ => { ledger with current := none, shown := none }
  | .request _ _ => ledger
  | .report number =>
      if ledger.current = some number then { ledger with shown := some number } else ledger

def ofCues (cues : List Cue) : Ledger := cues.foldl step {}

@[simp] theorem ofCues_concat (cues : List Cue) (cue : Cue) :
    ofCues (cues ++ [cue]) = (ofCues cues).step cue := by
  simp [ofCues]

theorem ofCues_append (first second : List Cue) :
    ofCues (first ++ second) = second.foldl step (ofCues first) := by
  simp [ofCues]

/-- The outline shown, if there is one. -/
def outline (ledger : Ledger) : List Entry :=
  ((ledger.shown.bind fun number => ledger.texts[number]?).map scan).getD []

/-- More texts do not change the outline of the scan shown. -/
theorem outline_eq_of_shown {first second : Ledger} (grown : first.texts <+: second.texts)
    (shown_lt : ∀ number, first.shown = some number → number < first.texts.length)
    (hshown : second.shown = first.shown) : second.outline = first.outline := by
  obtain ⟨more, hmore⟩ := grown
  unfold outline
  rw [hshown]
  cases hnumber : first.shown with
  | none => rfl
  | some number =>
      have hlt := shown_lt number hnumber
      rw [Option.bind_some, Option.bind_some, ← hmore, List.getElem?_append_left hlt]

/-- The ledger tells what a play left in the session. -/
structure Tells (ledger : Ledger) (play : Play) : Prop where
  texts_eq : play.orders.map ScanOrder.source = ledger.texts
  current_iff : ∀ number order, play.orders[number]? = some order →
    (ledger.current = some number ↔ play.session.revision = order.revision)
  current_last : ∀ number, ledger.current = some number → number + 1 = ledger.texts.length
  shown_lt : ∀ number, ledger.shown = some number → number < ledger.texts.length
  inFlight_iff : play.session.inFlight.isSome = true ↔
    ledger.current ≠ none ∧ ledger.shown ≠ ledger.current
  index_eq : play.session.index.entries = ledger.outline

variable {settings : Settings} {ledger : Ledger} {play : Play}

/-- Only a rebuild from a text adds an order. -/
theorem orders_tell {message : Message} (h : ∀ text, message ≠ .rebuild (some text)) :
    (play.tell message).orders = play.orders := by
  change play.orders ++ ((play.session.handle message).2.bind ScanOrder.ofCommand?).toList = _
  cases hcommand : (play.session.handle message).2.bind ScanOrder.ofCommand? with
  | none => simp
  | some order =>
      have hmem : order ∈ ((play.session.handle message).2.bind ScanOrder.ofCommand?).toList := by
        rw [hcommand]
        simp
      have hrunScan := Play.mem_ofCommand?_iff.1 hmem
      exact absurd (Session.eq_rebuild_of_runScan hrunScan).1 (h order.source)

theorem Tells.length_eq (tells : ledger.Tells play) : ledger.texts.length = play.orders.length := by
  rw [← tells.texts_eq, List.length_map]

/-- A message that supersedes all scans and asks for none passes every order by. -/
theorem revision_ne_of_supersedes (genuine : play.Genuine settings) {message : Message}
    (supersedes : message.supersedes = true) (h : ∀ text, message ≠ .rebuild (some text))
    {number : Nat} {order : ScanOrder}
    (horder : (play.tell message).orders[number]? = some order) :
    (play.tell message).session.revision ≠ order.revision := by
  rw [orders_tell h] at horder
  have hle := (genuine.order_issued (List.mem_of_getElem? horder)).2
  have hrevision := (play.session.handle_superseding supersedes).1
  change (play.session.handle message).1.revision ≠ order.revision
  omega

theorem Tells.tell_quiet (tells : ledger.Tells play) {message : Message}
    (quiet : message.supersedes = false) (request : message.isReport = false) :
    ledger.Tells (play.tell message) := by
  have horders : (play.tell message).orders = play.orders := by
    apply orders_tell
    rintro text rfl
    cases quiet
  obtain ⟨scope, pending, focused, first, hsession⟩ := play.session.handle_quiet_eq quiet request
  have htold : (play.tell message).session = _ := hsession
  refine ⟨?_, ?_, tells.current_last, tells.shown_lt, ?_, ?_⟩
  · rw [horders]
    exact tells.texts_eq
  · rw [horders, htold]
    exact tells.current_iff
  · rw [htold]
    exact tells.inFlight_iff
  · rw [htold]
    exact tells.index_eq

theorem Tells.tell_textless (genuine : play.Genuine settings) (tells : ledger.Tells play) :
    Tells { ledger with current := none } (play.tell (.rebuild none)) := by
  have htextless : ∀ text, Message.rebuild none ≠ .rebuild (some text) := by simp
  obtain ⟨inFlight, pending, focused, first, hrebuild⟩ := play.session.rebuild_eq none
  refine ⟨?_, ?_, by simp, tells.shown_lt, ?_, ?_⟩
  · rw [orders_tell htextless]
    exact tells.texts_eq
  · intro number order horder
    have hne := revision_ne_of_supersedes genuine rfl htextless horder
    simp [hne]
  · change (play.session.rebuild none).1.inFlight.isSome = true ↔ _
    rw [Session.inFlight_rebuild]
    simp
  · change (play.session.rebuild none).1.index.entries = _
    rw [hrebuild]
    exact tells.index_eq

theorem Tells.tell_close (genuine : play.Genuine settings) (tells : ledger.Tells play) :
    Tells { ledger with current := none, shown := none } (play.tell .close) := by
  have hclose : ∀ text, Message.close ≠ .rebuild (some text) := by simp
  refine ⟨?_, ?_, by simp, by simp, ?_, rfl⟩
  · rw [orders_tell hclose]
    exact tells.texts_eq
  · intro number order horder
    have hne := revision_ne_of_supersedes genuine rfl hclose horder
    simp [hne]
  · change (none : Option Nat).isSome = true ↔ _
    simp

theorem Tells.tell_text (genuine : play.Genuine settings) (tells : ledger.Tells play)
    (text : String) :
    Tells { ledger with texts := ledger.texts ++ [text], current := some ledger.texts.length }
      (play.tell (.rebuild (some text))) := by
  have hlength := tells.length_eq
  have horders : (play.tell (.rebuild (some text))).orders = play.orders ++
      [⟨play.session.revision + 1, text, play.session.rebuildScope.nextToken⟩] := rfl
  have hrevision : (play.tell (.rebuild (some text))).session.revision =
      play.session.revision + 1 := rfl
  refine ⟨?_, ?_, ?_, ?_, ?_, ?_⟩
  · rw [horders, List.map_append, tells.texts_eq]
    rfl
  · intro number order horder
    rw [horders] at horder
    rw [hrevision]
    by_cases hnew : number = play.orders.length
    · subst hnew
      obtain rfl : _ = order := by simpa using horder
      simp [hlength]
    · have hlt : number < play.orders.length := by
        have hbound := (List.getElem?_eq_some_iff.1 horder).1
        simp only [List.length_append, List.length_singleton] at hbound
        omega
      rw [List.getElem?_append_left hlt] at horder
      have hle := (genuine.order_issued (List.mem_of_getElem? horder)).2
      have hother : ledger.texts.length ≠ number := by omega
      have hpassed : play.session.revision + 1 ≠ order.revision := by omega
      simp [hother, hpassed]
  · intro number hnumber
    cases hnumber
    simp
  · intro number hnumber
    have hlt := tells.shown_lt number hnumber
    simp only [List.length_append, List.length_singleton]
    omega
  · have hshown : ledger.shown ≠ some ledger.texts.length := by
      intro heq
      exact Nat.lt_irrefl _ (tells.shown_lt _ heq)
    change (some (play.session.revision + 1)).isSome = true ↔ _
    simp [hshown]
  · refine tells.index_eq.trans (Eq.symm ?_)
    apply outline_eq_of_shown _ tells.shown_lt
    · rfl
    · exact List.prefix_append _ _

/-- The report of the current scan is shown, and that of any other one changes
nothing. -/
theorem Tells.tell_report (genuine : play.Genuine settings) (tells : ledger.Tells play)
    {number : Nat} {order : ScanOrder} (horder : play.orders[number]? = some order) :
    Tells (ledger.step (.report number)) (play.tell order.report) := by
  have horders : (play.tell order.report).orders = play.orders := by
    apply orders_tell
    intro text heq
    cases heq
  have hcurrent := tells.current_iff number order horder
  have hissued := (genuine.order_issued (List.mem_of_getElem? horder)).1
  by_cases hshow : ledger.current = some number
  · have hrevision := hcurrent.1 hshow
    have hstep : ledger.step (.report number) = { ledger with shown := some number } := by
      simp only [step, hshow, if_true]
    rw [hstep]
    rcases play.session.completeScan_cases order.revision order.token (scan order.source) with
      ⟨_, _, focused, first, scroll, hcomplete⟩ | ⟨hfail, _⟩
    · have htext : ledger.texts[number]? = some order.source := by
        rw [← tells.texts_eq, List.getElem?_map, horder]
        rfl
      have htold : (play.tell order.report).session = _ := congrArg Prod.fst hcomplete
      refine ⟨?_, ?_, tells.current_last, ?_, ?_, ?_⟩
      · rw [horders]
        exact tells.texts_eq
      · rw [horders, htold]
        exact tells.current_iff
      · intro other hother
        cases hother
        have hlast := tells.current_last number hshow
        change number < ledger.texts.length
        omega
      · rw [htold]
        simp [hshow]
      · rw [htold]
        simp only [outline, Option.bind_some, htext, Option.map_some, Option.getD_some]
        exact Index.entries_ofEntries (pairwise_scan order.source)
    · exact absurd ⟨hissued.2 hrevision, hrevision⟩ hfail
  · have hstep : ledger.step (.report number) = ledger := by
      simp only [step, hshow, if_false]
    rw [hstep]
    rcases play.session.completeScan_cases order.revision order.token (scan order.source) with
      ⟨_, hrevision, _⟩ | ⟨_, hcomplete⟩
    · exact absurd (hcurrent.2 hrevision) hshow
    · have htold : (play.tell order.report).session = play.session := congrArg Prod.fst hcomplete
      refine ⟨?_, ?_, tells.current_last, tells.shown_lt, ?_, ?_⟩
      · rw [horders]
        exact tells.texts_eq
      · rw [horders, htold]
        exact tells.current_iff
      · rw [htold]
        exact tells.inFlight_iff
      · rw [htold]
        exact tells.index_eq

/-- One cue keeps the ledger true. -/
theorem Tells.step (genuine : play.Genuine settings) (tells : ledger.Tells play) (cue : Cue) :
    (ledger.step cue).Tells (play.step cue) := by
  match cue with
  | .request (.rebuild none) _ => exact tells.tell_textless genuine
  | .request (.rebuild (some text)) _ => exact tells.tell_text genuine text
  | .request .close _ => exact tells.tell_close genuine
  | .request (.caretMoved line) request => exact tells.tell_quiet rfl request
  | .request (.entryActivated line documentLines) request => exact tells.tell_quiet rfl request
  | .report number =>
      cases horder : play.orders[number]? with
      | none =>
          have hcurrent : ledger.current ≠ some number := by
            intro heq
            have hlast := tells.current_last number heq
            rw [tells.length_eq] at hlast
            have hge := List.getElem?_eq_none_iff.1 horder
            omega
          rw [Play.step_report_none horder]
          simp only [Ledger.step, hcurrent, if_false]
          exact tells
      | some order =>
          rw [Play.step_report horder]
          exact tells.tell_report genuine horder

/-- The ledger of the cues tells what their play left in the session. -/
theorem tells_ofCues (settings : Settings) (cues : List Cue) :
    (ofCues cues).Tells (Play.ofCues settings cues) := by
  induction cues using List.reverseRecOn with
  | nil =>
      refine ⟨rfl, ?_, ?_, ?_, ?_, rfl⟩
      · simp
      · simp [ofCues]
      · simp [ofCues]
      · simp [ofCues]
  | append_singleton cues cue ih =>
      rw [ofCues_concat, Play.ofCues_concat]
      exact ih.step (Play.genuine_ofCues settings cues) cue

end Ledger

end RegionOutline
