import RegionOutline.Proofs.Session.Answers
import RegionOutline.Proofs.Session.Ledger

/-!
# The books of a session

What a session keeps about its requests is consistent after any messages, whether
or not the reports among them are true. The scan under way is the one asked for
last and holds the only live token; every token given to a scan before is
cancelled. A scroll waits only while a scan is under way, and under the current
token of its scope, so the test made when it is let go never turns it away.
-/

namespace RegionOutline

namespace Session

variable {session waiting : Session} {message : Message}

theorem oneLive_handle (oneLive : session.rebuildScope.OneLive) (message : Message) :
    (session.handle message).1.rebuildScope.OneLive := by
  cases h : message.supersedes with
  | false =>
      rw [(session.handle_not_superseding h).2]
      exact oneLive
  | true =>
      rw [(session.handle_superseding h).2]
      exact oneLive.renew

/-- The session that comes to let its waiting scroll go when it hears the message,
if it comes to that. -/
def releasing? (session : Session) : Message → Option Session
  | .rebuild none =>
      some
        { session with
          rebuildScope := session.rebuildScope.renew
          revision := session.revision + 1
          inFlight := none }
  | .scanCompleted revision token entries =>
      if session.rebuildScope.isCurrent token ∧ session.revision = revision then
        some { session with index := .ofEntries entries, inFlight := none }
      else none
  | .rebuild (some _) | .close | .caretMoved _ | .entryActivated _ _ => none

theorem handle_of_releasing (h : session.releasing? message = some waiting) :
    (session.handle message).1 = waiting.replayPending.1 := by
  match message with
  | .rebuild none =>
      cases h
      rfl
  | .scanCompleted revision token entries =>
      simp only [releasing?] at h
      split at h
      · rename_i pass
        cases h
        rw [handle, completeScan_of_pass entries pass]
      · cases h
  | .rebuild (some text) => cases h
  | .close => cases h
  | .caretMoved line => cases h
  | .entryActivated line documentLines => cases h

/-- Up to that point the scroll requests are as they were. -/
theorem scroll_of_releasing (h : session.releasing? message = some waiting) :
    waiting.pending = session.pending ∧ waiting.scrollScope = session.scrollScope := by
  match message with
  | .rebuild none =>
      cases h
      exact ⟨rfl, rfl⟩
  | .scanCompleted revision token entries =>
      simp only [releasing?] at h
      split at h
      · cases h
        exact ⟨rfl, rfl⟩
      · cases h
  | .rebuild (some text) => cases h
  | .close => cases h
  | .caretMoved line => cases h
  | .entryActivated line documentLines => cases h

end Session

namespace Play

variable {settings : Settings} {play : Play}

/-- The play of any messages from a fresh session, true reports or not. -/
def ofMessages (settings : Settings) (messages : List Message) : Play :=
  messages.foldl tell { session := { settings } }

@[simp] theorem ofMessages_concat (settings : Settings) (messages : List Message)
    (message : Message) :
    ofMessages settings (messages ++ [message]) = (ofMessages settings messages).tell message := by
  simp [ofMessages]

/-- What the orders of a play have to do with the session. -/
structure Booked (play : Play) : Prop where
  inStep : play.session.InStep
  oneLive : play.session.rebuildScope.OneLive
  pendingLive : play.session.PendingLive
  issued : ∀ order ∈ play.orders, order.token.scope = 0 ∧
    order.revision = order.token.serial + 1 ∧ order.revision ≤ play.session.revision
  increasing : play.orders.Pairwise fun first second => first.revision < second.revision
  underWay : ∀ revision, play.session.inFlight = some revision →
    revision = play.session.revision ∧
      ∃ order, play.orders.getLast? = some order ∧ order.revision = revision

theorem booked_fresh (settings : Settings) : Booked { session := { settings } } where
  inStep := Session.inStep_initial settings
  oneLive := CancelScope.oneLive_fresh 0
  pendingLive := by
    intro pending hpending
    cases hpending
  issued := by simp
  increasing := List.Pairwise.nil
  underWay := by simp

/-- A message that asks for no scan adds no order, and no scan is under way after
it that was not before. -/
theorem Booked.tell_other (booked : play.Booked) {message : Message}
    (h : ∀ text, message ≠ .rebuild (some text)) : (play.tell message).Booked := by
  have horders : (play.tell message).orders = play.orders := Ledger.orders_tell h
  constructor
  · exact booked.inStep.handle message
  · exact Session.oneLive_handle booked.oneLive message
  · exact booked.pendingLive.handle message
  · intro order horder
    rw [horders] at horder
    obtain ⟨hscope, hserial, hle⟩ := booked.issued order horder
    exact ⟨hscope, hserial, Nat.le_trans hle (play.session.revision_le_handle message)⟩
  · rw [horders]
    exact booked.increasing
  · intro revision hinFlight
    rcases Session.inFlight_handle hinFlight with ⟨text, rfl, _⟩ | ⟨quiet, _, hbefore⟩
    · exact absurd rfl (h text)
    · have hrevision : (play.tell message).session.revision = play.session.revision :=
        (play.session.handle_not_superseding quiet).1
      rw [horders, hrevision]
      exact booked.underWay revision hbefore

/-- A rebuild from a text adds the order of the new revision. -/
theorem Booked.tell_text (booked : play.Booked) (text : String) :
    (play.tell (.rebuild (some text))).Booked := by
  have horders : (play.tell (.rebuild (some text))).orders = play.orders ++
      [⟨play.session.revision + 1, text, play.session.rebuildScope.nextToken⟩] := rfl
  have hrevision : (play.tell (.rebuild (some text))).session.revision =
      play.session.revision + 1 := rfl
  constructor
  · exact booked.inStep.handle _
  · exact Session.oneLive_handle booked.oneLive _
  · exact booked.pendingLive.handle _
  · intro order horder
    rw [horders] at horder
    rw [hrevision]
    rcases List.mem_append.1 horder with hbefore | hnew
    · obtain ⟨hscope, hserial, hle⟩ := booked.issued order hbefore
      exact ⟨hscope, hserial, Nat.le_succ_of_le hle⟩
    · obtain rfl := List.mem_singleton.1 hnew
      refine ⟨booked.inStep.id_eq, ?_, Nat.le_refl _⟩
      exact congrArg (· + 1) booked.inStep.size_eq.symm
  · rw [horders, List.pairwise_append]
    refine ⟨booked.increasing, List.pairwise_singleton _ _, ?_⟩
    intro order horder new hnew
    obtain rfl := List.mem_singleton.1 hnew
    exact Nat.lt_succ_of_le (booked.issued order horder).2.2
  · intro revision hinFlight
    obtain rfl : play.session.revision + 1 = revision := Option.some.inj hinFlight
    rw [horders, List.getLast?_concat]
    exact ⟨rfl, _, rfl, rfl⟩

theorem Booked.tell (booked : play.Booked) (message : Message) : (play.tell message).Booked := by
  match message with
  | .rebuild (some text) => exact booked.tell_text text
  | .rebuild none => exact booked.tell_other (by simp)
  | .close => exact booked.tell_other (by simp)
  | .caretMoved line => exact booked.tell_other (by simp)
  | .entryActivated line documentLines => exact booked.tell_other (by simp)
  | .scanCompleted revision token entries => exact booked.tell_other (by simp)

theorem booked_ofMessages (settings : Settings) (messages : List Message) :
    (ofMessages settings messages).Booked := by
  induction messages using List.reverseRecOn with
  | nil => exact booked_fresh settings
  | append_singleton messages message ih =>
      rw [ofMessages_concat]
      exact ih.tell message

/-- The token of an order is current exactly while its revision is. -/
theorem Booked.isCurrent_iff (booked : play.Booked) {order : ScanOrder}
    (horder : order ∈ play.orders) :
    play.session.rebuildScope.isCurrent order.token = true ↔
      play.session.revision = order.revision := by
  obtain ⟨revision, source, scope, serial⟩ := order
  obtain ⟨hscope, hserial, _⟩ := booked.issued _ horder
  change scope = 0 at hscope
  change revision = serial + 1 at hserial
  subst hscope hserial
  exact booked.inStep.isCurrent_iff serial

theorem Booked.isLive_iff (booked : play.Booked) {order : ScanOrder}
    (horder : order ∈ play.orders) :
    play.session.rebuildScope.isLive order.token = true ↔
      play.session.revision = order.revision := by
  rw [← booked.isCurrent_iff horder]
  constructor
  · exact booked.oneLive order.token
  · intro hcurrent
    exact ((CancelScope.isCurrent_iff _ _).1 hcurrent).2

/-- An order that another one came after has lost its token. -/
theorem Booked.isCancelled_of_followed (booked : play.Booked) {earlier later : List ScanOrder}
    {order : ScanOrder} (horders : play.orders = earlier ++ order :: later) (hlater : later ≠ []) :
    play.session.rebuildScope.isCancelled order.token = true := by
  have horder : order ∈ play.orders := by simp [horders]
  obtain ⟨hscope, hserial, hle⟩ := booked.issued order horder
  -- Revisions increase, so the next order has taken the session past this one.
  have hpassed : order.revision < play.session.revision := by
    obtain ⟨next, rest, rfl⟩ := List.exists_cons_of_ne_nil hlater
    have hincreasing := booked.increasing
    rw [horders] at hincreasing
    have htail := (List.pairwise_append.1 hincreasing).2.1
    calc order.revision < next.revision := List.rel_of_pairwise_cons htail List.mem_cons_self
      _ ≤ play.session.revision := (booked.issued next (by simp [horders])).2.2
  apply CancelScope.isCancelled_of_issued
  · rw [hscope, booked.inStep.id_eq]
  · rw [booked.inStep.size_eq]
    omega
  · intro hlive
    have hcurrent := (booked.isLive_iff horder).1 hlive
    omega

/-- Orders with one revision are one order, as revisions increase. -/
theorem length_le_one_of_increasing {orders : List ScanOrder} {revision : Nat}
    (increasing : orders.Pairwise fun first second => first.revision < second.revision)
    (same : ∀ order ∈ orders, order.revision = revision) : orders.length ≤ 1 := by
  match orders with
  | [] => exact Nat.zero_le _
  | [_] => exact Nat.le_refl _
  | first :: second :: rest =>
      have hlt := List.rel_of_pairwise_cons increasing List.mem_cons_self
      rw [same first (by simp), same second (by simp)] at hlt
      exact absurd hlt (Nat.lt_irrefl _)

/-- What a session knows of its requests fits together. -/
structure Consistent (play : Play) : Prop where
  /-- The scan under way is the one asked for last. It has the revision of the
  session and the current token. -/
  underWay : ∀ revision, play.session.inFlight = some revision →
    revision = play.session.revision ∧
      ∃ order, play.orders.getLast? = some order ∧ order.revision = revision ∧
        play.session.rebuildScope.current? = some order.token
  /-- All scans asked for before the last one are cancelled. -/
  superseded : ∀ earlier order later, play.orders = earlier ++ order :: later → later ≠ [] →
    play.session.rebuildScope.isCancelled order.token = true
  one_live : (play.orders.filter fun order =>
    play.session.rebuildScope.isLive order.token).length ≤ 1
  increasing : play.orders.Pairwise fun first second => first.revision < second.revision
  /-- A scroll waits for a scan that is under way, under the current token. -/
  parked : ∀ pending, play.session.pending = some pending →
    play.session.inFlight.isSome = true ∧
      play.session.scrollScope.current? = some pending.token
  /-- A message that lets the waiting scroll go finds its token current. -/
  wanted : ∀ message waiting, play.session.releasing? message = some waiting →
    (play.session.handle message).1 = waiting.replayPending.1 ∧
      ∀ pending, waiting.pending = some pending →
        waiting.scrollScope.isCurrent pending.token = true

/-- After any messages, the scan under way is the last one asked for and the only
one that is live, revisions have only grown, and a scroll that waits does so for
that scan and will be let go. -/
theorem session_books_consistent (settings : Settings) (messages : List Message) :
    (ofMessages settings messages).Consistent := by
  have booked := booked_ofMessages settings messages
  constructor
  · intro revision hinFlight
    obtain ⟨hrevision, order, hlast, horder⟩ := booked.underWay revision hinFlight
    refine ⟨hrevision, order, hlast, horder, ?_⟩
    apply (CancelScope.current?_eq_some_iff _ _).2
    apply (booked.isCurrent_iff (List.mem_of_getLast? hlast)).2
    exact hrevision.symm.trans horder.symm
  · intro earlier order later horders hlater
    exact booked.isCancelled_of_followed horders hlater
  · apply length_le_one_of_increasing (booked.increasing.filter _)
    intro order horder
    obtain ⟨hmem, hlive⟩ := List.mem_filter.1 horder
    exact ((booked.isLive_iff hmem).1 hlive).symm
  · exact booked.increasing
  · intro pending hpending
    obtain ⟨hbusy, hcurrent⟩ := booked.pendingLive pending hpending
    exact ⟨hbusy, (CancelScope.current?_eq_some_iff _ _).2 hcurrent⟩
  · intro message waiting hreleasing
    obtain ⟨hpending, hscope⟩ := Session.scroll_of_releasing hreleasing
    refine ⟨Session.handle_of_releasing hreleasing, ?_⟩
    intro pending hwaiting
    rw [hscope]
    exact (booked.pendingLive pending (hpending ▸ hwaiting)).2

end Play

end RegionOutline
