import RegionOutline.Proofs.Session.Scrolling
import RegionOutline.Scan

/-!
# Parked scrolls

A caret that moves while a scan is under way parks its scroll. The scroll is let
go by the message that ends the wait, once and with the index that this message
leaves behind, unless a later caret or a close took its place before. Every
scroll is asked for under the token that its caret was given, so a token that
waits no longer is never seen again.
-/

namespace RegionOutline

namespace Session

variable {session : Session} {message : Message} {token : Token} {scroll : Scroll} {line : Nat}

theorem size_cancelled_le_handle (session : Session) (message : Message) :
    session.scrollScope.cancelled.size ≤
      (session.handle message).1.scrollScope.cancelled.size := by
  rcases session.scrollScope_handle message with hscope | hscope | hscope
  · exact Nat.le_of_eq (by rw [hscope])
  · exact Nat.le_of_eq (by rw [hscope, CancelScope.size_cancelled_cancel])
  · rw [hscope, CancelScope.size_cancelled_renew]
    exact Nat.le_succ _

/-- A scroll that is asked for has a token that is handed out by then. -/
theorem PendingLive.serial_lt (live : session.PendingLive)
    (h : scroll ∈ session.scrollsAsked message) :
    scroll.token.serial < (session.handle message).1.scrollScope.cancelled.size := by
  obtain ⟨_, ⟨⟨caret, rfl⟩, htoken⟩ | ⟨pending, hpending, htoken⟩⟩ := mem_scrollsAsked h
  · rw [htoken, (session.handle_caretMoved caret).1, CancelScope.size_cancelled_renew]
    exact Nat.lt_succ_self _
  · rw [htoken]
    have hcurrent := (live pending hpending).2
    have hlive := ((CancelScope.isCurrent_iff _ _).1 hcurrent).2
    exact Nat.lt_of_lt_of_le (CancelScope.serial_lt_of_isLive hlive)
      (session.size_cancelled_le_handle message)

/-- The token was handed out and no scroll waits under it. -/
structure Spent (session : Session) (token : Token) : Prop where
  issued : token.serial < session.scrollScope.cancelled.size
  idle : ∀ pending ∈ session.pending, pending.token ≠ token

theorem Spent.handle (spent : session.Spent token) (message : Message) :
    (session.handle message).1.Spent token := by
  refine ⟨Nat.lt_of_lt_of_le spent.issued (session.size_cancelled_le_handle message), ?_⟩
  intro pending hpending
  cases hdrops : message.dropsScroll with
  | false =>
      obtain ⟨_, ⟨hkept, _⟩ | ⟨hnone, _⟩⟩ := session.handle_keeping hdrops
      · exact spent.idle pending (hkept ▸ hpending)
      · rw [hnone] at hpending
        cases hpending
  | true =>
      match message with
      | .caretMoved caret =>
          rw [(session.handle_caretMoved caret).2.2] at hpending
          split at hpending
          · cases hpending
            rintro rfl
            exact Nat.lt_irrefl _ spent.issued
          · cases hpending
      | .close => cases hpending

/-- Nothing is asked for under a spent token. -/
theorem Spent.not_asked (spent : session.Spent token)
    (h : scroll ∈ session.scrollsAsked message) : scroll.token ≠ token := by
  obtain ⟨_, ⟨_, htoken⟩ | ⟨pending, hpending, htoken⟩⟩ := mem_scrollsAsked h
  · rintro rfl
    have hissued := spent.issued
    rw [htoken] at hissued
    exact Nat.lt_irrefl _ hissued
  · rw [htoken]
    exact spent.idle pending hpending

/-- The scroll for the line waits under a current token for a scan under way. -/
structure Waits (session : Session) (line : Nat) (token : Token) : Prop where
  pending : session.pending = some ⟨some line, token⟩
  current : session.scrollScope.isCurrent token = true
  busy : session.inFlight.isSome = true

theorem Waits.issued (waits : session.Waits line token) :
    token.serial < session.scrollScope.cancelled.size :=
  CancelScope.serial_lt_of_isLive ((CancelScope.isCurrent_iff _ _).1 waits.current).2

/-- While the scan stays under way the scroll goes on waiting. -/
theorem Waits.handle (waits : session.Waits line token) (keeps : message.dropsScroll = false)
    (busy : (session.handle message).1.inFlight.isSome = true) :
    (session.handle message).1.Waits line token := by
  obtain ⟨hscope, ⟨hkept, _⟩ | ⟨_, hidle⟩⟩ := session.handle_keeping keeps
  · exact ⟨hkept.trans waits.pending, hscope ▸ waits.current, busy⟩
  · rw [hidle] at busy
    cases busy

/-- While a scan stays under way nothing is asked for at all. -/
theorem not_mem_scrollsAsked (busy : (session.handle message).1.inFlight.isSome = true) :
    scroll ∉ session.scrollsAsked message := by
  intro h
  rw [(mem_scrollsAsked h).1] at busy
  cases busy

/-- A caret or a close that comes first asks for no scroll, cancels the token and
leaves no scroll waiting under it. -/
theorem Waits.dropped (waits : session.Waits line token) (drops : message.dropsScroll = true) :
    (∀ scroll, scroll ∉ session.scrollsAsked message) ∧
      (session.handle message).1.Spent token ∧
      (session.handle message).1.scrollScope.isLive token ≠ true := by
  have hissued := waits.issued
  have hdead := CancelScope.not_isLive_cancel_of_isCurrent waits.current
  match message with
  | .caretMoved caret =>
      obtain ⟨hscope, hinFlight, hparked⟩ := session.handle_caretMoved caret
      rw [if_pos waits.busy] at hparked
      refine ⟨?_, ⟨?_, ?_⟩, ?_⟩
      · intro scroll
        exact not_mem_scrollsAsked (hinFlight ▸ waits.busy)
      · rw [hscope, CancelScope.size_cancelled_renew]
        exact Nat.lt_succ_of_lt hissued
      · intro pending hpending
        rw [hparked] at hpending
        cases hpending
        rintro rfl
        exact Nat.lt_irrefl _ hissued
      · rw [hscope]
        exact CancelScope.not_isLive_renew hissued hdead
  | .close =>
      refine ⟨by simp [scrollsAsked, Session.handle, close, Command.scrolls], ⟨?_, ?_⟩, hdead⟩
      · change token.serial < session.scrollScope.cancel.cancelled.size
        rw [CancelScope.size_cancelled_cancel]
        exact hissued
      · intro pending hpending
        cases hpending

/-- The message lets the scroll for the line go: without a text on its own, and
with a report behind the publication of its entries. Either way it goes where the
index that is left puts the line, and the session takes the viewport over. -/
structure LetsGo (session : Session) (message : Message) (line : Nat) (token : Token) :
    Prop where
  asked :
    (message = .rebuild none ∧ (session.handle message).2 =
      some (.scroll ⟨(session.handle message).1.scrollTarget line, token⟩)) ∨
    (∃ revision reported entries, message = .scanCompleted revision reported entries ∧
      (session.handle message).1.index = .ofEntries entries ∧ (session.handle message).2 =
        some (.batch [.publish,
          .scroll ⟨(session.handle message).1.scrollTarget line, token⟩]))
  first_eq : (session.handle message).1.firstVisible =
    ((session.handle message).1.scrollTarget line).first
  focused_eq : (session.handle message).1.focused =
    ((session.handle message).1.scrollTarget line).focused

/-- The message that ends the wait lets the scroll go, and only that. -/
theorem Waits.letsGo (waits : session.Waits line token) (keeps : message.dropsScroll = false)
    (idle : (session.handle message).1.inFlight = none) :
    session.LetsGo message line token ∧ (session.handle message).1.Spent token := by
  have hspent : (session.handle message).1.Spent token := by
    obtain ⟨hscope, ⟨_, hbusy⟩ | ⟨hnone, _⟩⟩ := session.handle_keeping keeps
    · have hstill := hbusy waits.busy
      rw [idle] at hstill
      cases hstill
    · refine ⟨by rw [hscope]; exact waits.issued, ?_⟩
      rw [hnone]
      intro pending hpending
      cases hpending
  refine ⟨?_, hspent⟩
  match message with
  | .rebuild none =>
      have hreplay := replayPending_eq_of_waiting
        { session with
          rebuildScope := session.rebuildScope.renew
          revision := session.revision + 1
          inFlight := none } waits.pending waits.current
      refine ⟨Or.inl ⟨rfl, ?_⟩, ?_, ?_⟩
      · simp only [Session.handle, rebuild, hreplay]
        rfl
      · simp only [Session.handle, rebuild, hreplay]
        rfl
      · simp only [Session.handle, rebuild, hreplay]
        rfl
  | .rebuild (some text) => cases idle
  | .close => cases keeps
  | .caretMoved caret => cases keeps
  | .entryActivated row documentLines =>
      obtain ⟨focused, hactivate⟩ := session.activate_eq row documentLines
      have hbusy := waits.busy
      simp only [Session.handle, hactivate] at idle
      rw [idle] at hbusy
      cases hbusy
  | .scanCompleted revision reported entries =>
      by_cases hpass :
          session.rebuildScope.isCurrent reported = true ∧ session.revision = revision
      · have hcomplete := completeScan_of_pass entries hpass
        have hreplay := replayPending_eq_of_waiting
          { session with index := .ofEntries entries, inFlight := none }
          waits.pending waits.current
        rw [hreplay] at hcomplete
        refine ⟨Or.inr ⟨revision, reported, entries, rfl, ?_, ?_⟩, ?_, ?_⟩
        · rw [Session.handle, hcomplete]
          rfl
        · rw [Session.handle, hcomplete]
          rfl
        · rw [Session.handle, hcomplete]
          rfl
        · rw [Session.handle, hcomplete]
          rfl
      · have hdropped : session.completeScan revision reported entries = (session, none) := by
          rw [completeScan, if_neg hpass]
        have hbusy := waits.busy
        simp only [Session.handle, hdropped] at idle
        rw [idle] at hbusy
        cases hbusy

/-- A token that was handed out and is cancelled stays so. -/
theorem not_isLive_handle (session : Session) (message : Message)
    (issued : token.serial < session.scrollScope.cancelled.size)
    (dead : session.scrollScope.isLive token ≠ true) :
    (session.handle message).1.scrollScope.isLive token ≠ true := by
  have hcancel : session.scrollScope.cancel.isLive token ≠ true := by
    intro hlive
    exact dead ((CancelScope.isLive_cancel _ _).1 hlive).1
  rcases session.scrollScope_handle message with hscope | hscope | hscope
  · rw [hscope]
    exact dead
  · rw [hscope]
    exact hcancel
  · rw [hscope]
    exact CancelScope.not_isLive_renew issued hcancel

section Runs

variable {settings : Settings} {past between later : List Message}

theorem spent_append (spent : (afterMessages settings past).Spent token)
    (later : List Message) : (afterMessages settings (past ++ later)).Spent token := by
  induction later using List.reverseRecOn with
  | nil => simpa using spent
  | append_singleton later message ih =>
      rw [← List.append_assoc, afterMessages_concat]
      exact ih.handle message

theorem not_isLive_append (spent : (afterMessages settings past).Spent token)
    (dead : (afterMessages settings past).scrollScope.isLive token ≠ true)
    (later : List Message) :
    (afterMessages settings (past ++ later)).scrollScope.isLive token ≠ true := by
  induction later using List.reverseRecOn with
  | nil => simpa using dead
  | append_singleton later message ih =>
      rw [← List.append_assoc, afterMessages_concat]
      exact not_isLive_handle _ message (spent_append spent later).issued ih

theorem size_cancelled_le_append (settings : Settings) (past later : List Message) :
    (afterMessages settings past).scrollScope.cancelled.size ≤
      (afterMessages settings (past ++ later)).scrollScope.cancelled.size := by
  induction later using List.reverseRecOn with
  | nil => simp
  | append_singleton later message ih =>
      rw [← List.append_assoc, afterMessages_concat]
      exact Nat.le_trans ih (size_cancelled_le_handle _ message)

/-- A place in a list lies before, at or after another one. -/
theorem append_cons_eq_append_cons {α : Type} {first second tail rest : List α} {x y : α}
    (h : first ++ x :: tail = second ++ y :: rest) :
    (∃ middle, second = first ++ x :: middle) ∨ (first = second ∧ x = y) ∨
      ∃ middle, first = second ++ y :: middle := by
  rcases List.append_eq_append_iff.1 h with ⟨middle, hsecond, htail⟩ | ⟨middle, hfirst, hrest⟩
  · cases middle with
    | nil =>
        cases htail
        exact Or.inr (Or.inl ⟨by simpa using hsecond.symm, rfl⟩)
    | cons z middle =>
        cases htail
        exact Or.inl ⟨middle, hsecond⟩
  · cases middle with
    | nil =>
        cases hrest
        exact Or.inr (Or.inl ⟨by simpa using hfirst, rfl⟩)
    | cons z middle =>
        cases hrest
        exact Or.inr (Or.inr ⟨middle, hfirst⟩)

/-- The run up to a caret that moves to the line. -/
def parking (past : List Message) (line : Nat) : List Message :=
  past ++ [.caretMoved (some line)]

/-- The token of a caret that moves after the messages. -/
def caretToken (settings : Settings) (past : List Message) : Token :=
  (afterMessages settings past).scrollScope.nextToken

/-- A scan is under way before the messages and after each of them. -/
def BusyThroughout (settings : Settings) (past between : List Message) : Prop :=
  ∀ part, part <+: between → (afterMessages settings (past ++ part)).inFlight.isSome = true

/-- No message of the run makes the session ask for a scroll under the token,
except perhaps the one that comes after so many others. -/
def AskedOnlyAfter (settings : Settings) (run : List Message) (count : Option Nat)
    (token : Token) : Prop :=
  ∀ earlier message later, run = earlier ++ message :: later → some earlier.length ≠ count →
    ∀ scroll ∈ (afterMessages settings earlier).scrollsAsked message, scroll.token ≠ token

/-- Nothing is asked for under a token before the caret moves that it goes to. -/
theorem token_ne_caretToken {earlier : List Message} {tail : List Message}
    (hpast : past = earlier ++ message :: tail)
    (h : scroll ∈ (afterMessages settings earlier).scrollsAsked message) :
    scroll.token ≠ caretToken settings past := by
  have hlt := (pendingLive_afterMessages settings earlier).serial_lt h
  have hle := size_cancelled_le_append settings (earlier ++ [message]) tail
  rw [afterMessages_concat, List.append_assoc, List.singleton_append, ← hpast] at hle
  intro htoken
  rw [htoken] at hlt
  exact Nat.lt_irrefl _ (Nat.lt_of_lt_of_le hlt hle)

theorem waits_parking (busy : (afterMessages settings past).inFlight.isSome = true) :
    (afterMessages settings (parking past line)).Waits line (caretToken settings past) := by
  obtain ⟨hscope, hinFlight, hparked⟩ :=
    (afterMessages settings past).handle_caretMoved (some line)
  rw [parking, afterMessages_concat]
  refine ⟨?_, ?_, ?_⟩
  · rw [hparked, if_pos busy]
    rfl
  · rw [hscope]
    exact CancelScope.isCurrent_renew _
  · rw [hinFlight]
    exact busy

/-- The scroll waits as long as the scan is under way and no caret or close comes. -/
theorem waits_append (waits : (afterMessages settings past).Waits line token)
    (keeps : ∀ message ∈ between, message.dropsScroll = false)
    (busy : BusyThroughout settings past between) :
    (afterMessages settings (past ++ between)).Waits line token := by
  induction between using List.reverseRecOn with
  | nil => simpa using waits
  | append_singleton between message ih =>
      have hbefore := ih (fun other hother => keeps other (List.mem_append_left _ hother))
        (fun part hpart => busy part (hpart.trans (List.prefix_append _ _)))
      have hbusy := busy (between ++ [message]) List.prefix_rfl
      rw [← List.append_assoc, afterMessages_concat] at hbusy ⊢
      exact hbefore.handle (keeps message (by simp)) hbusy

/-- Up to the end of the wait nothing is asked for under the token of the caret. -/
theorem not_asked_while_waiting
    (busy : BusyThroughout settings (parking past line) between) {earlier tail : List Message}
    (hrun : parking past line ++ between = earlier ++ message :: tail)
    (h : scroll ∈ (afterMessages settings earlier).scrollsAsked message) :
    scroll.token ≠ caretToken settings past := by
  rw [parking, List.append_assoc, List.singleton_append] at hrun
  rcases append_cons_eq_append_cons hrun.symm with ⟨middle, hpast⟩ | ⟨rfl, rfl⟩ | ⟨middle, rfl⟩
  · exact token_ne_caretToken hpast h
  · -- The caret itself only parks its scroll.
    have hbusy := busy [] List.nil_prefix
    rw [List.append_nil, parking, afterMessages_concat] at hbusy
    exact absurd h (not_mem_scrollsAsked hbusy)
  · have hbetween : between = middle ++ message :: tail := by
      rw [List.append_assoc, List.cons_append] at hrun
      exact (List.cons.inj (List.append_cancel_left hrun)).2
    have hbusy := busy (middle ++ [message]) ⟨tail, by simp [hbetween]⟩
    rw [parking, List.append_assoc, List.singleton_append, ← List.cons_append,
      ← List.append_assoc, afterMessages_concat] at hbusy
    exact absurd h (not_mem_scrollsAsked hbusy)

/-- Around the message that ends the wait nothing is asked for under the token. -/
theorem askedOnlyAfter_of_spent {ending : Message}
    (busy : BusyThroughout settings (parking past line) between)
    (spent : ((afterMessages settings (parking past line ++ between)).handle ending).1.Spent
      (caretToken settings past)) (later : List Message) :
    AskedOnlyAfter settings (parking past line ++ between ++ ending :: later)
      (some (parking past line ++ between).length) (caretToken settings past) := by
  intro earlier message tail hrun hplace scroll hscroll
  rcases append_cons_eq_append_cons hrun with ⟨middle, rfl⟩ | ⟨hsame, _⟩ | ⟨middle, hbefore⟩
  · -- After the end of the wait the token is spent.
    have hspent : (afterMessages settings (parking past line ++ between ++ [ending])).Spent
        (caretToken settings past) := by
      rw [afterMessages_concat]
      exact spent
    rw [List.append_cons] at hscroll
    exact (spent_append hspent middle).not_asked hscroll
  · exact absurd (by rw [hsame]) hplace
  · exact not_asked_while_waiting busy hbefore hscroll

/-- If the message at the place asks for nothing under the token either, then no
message does. -/
theorem askedOnlyAfter_none {upto : List Message} {ending : Message}
    (h : AskedOnlyAfter settings (upto ++ ending :: later) (some upto.length) token)
    (here : ∀ scroll, scroll ∉ (afterMessages settings upto).scrollsAsked ending) :
    AskedOnlyAfter settings (upto ++ ending :: later) none token := by
  intro earlier message tail hrun _ scroll hscroll
  by_cases hplace : some earlier.length = some upto.length
  · obtain ⟨rfl, hrest⟩ := List.append_inj hrun (Option.some.inj hplace).symm
    cases hrest
    exact absurd hscroll (here scroll)
  · exact h earlier message tail hrun hplace scroll hscroll

/-- What becomes of the scroll of a caret that moves to the line after the
messages. -/
structure RunsOnce (settings : Settings) (past : List Message) (line : Nat) : Prop where
  /-- The caret asks for nothing. -/
  parked : ((afterMessages settings past).handle (.caretMoved (some line))).2 = none
  /-- The message that ends the wait lets the scroll go, and no other message of
  the run does. -/
  released : ∀ between ending later,
    (∀ message ∈ between ++ [ending], message.dropsScroll = false) →
    BusyThroughout settings (parking past line) between →
    (afterMessages settings (parking past line ++ between ++ [ending])).inFlight = none →
    (afterMessages settings (parking past line ++ between)).LetsGo ending line
        (caretToken settings past) ∧
      AskedOnlyAfter settings (parking past line ++ between ++ ending :: later)
        (some (parking past line ++ between).length) (caretToken settings past)
  /-- A caret or a close that comes before cancels the token for good, and no
  message of the run lets the scroll go. -/
  dropped : ∀ between dropping later,
    (∀ message ∈ between, message.dropsScroll = false) → dropping.dropsScroll = true →
    BusyThroughout settings (parking past line) between →
    (∀ part, part <+: later →
      (afterMessages settings (parking past line ++ between ++ dropping :: part)).scrollScope.isLive
        (caretToken settings past) ≠ true) ∧
      AskedOnlyAfter settings (parking past line ++ between ++ dropping :: later) none
        (caretToken settings past)

/-- A scroll that is parked while a scan is under way is run exactly once, by the
message that ends the scan, unless another caret or a close comes before. -/
theorem parked_scroll_runs_once (settings : Settings) (past : List Message) (line : Nat)
    (busy : (afterMessages settings past).inFlight.isSome = true) :
    RunsOnce settings past line := by
  have waits : (afterMessages settings (parking past line)).Waits line
      (caretToken settings past) := waits_parking busy
  constructor
  · obtain ⟨revision, hrevision⟩ := Option.isSome_iff_exists.1 busy
    simp [handle, moveCaret, isRebuilding, hrevision]
  · intro between ending later keeps hbusy hidle
    have hwaits := waits_append waits
      (fun message hmessage => keeps message (List.mem_append_left _ hmessage)) hbusy
    rw [afterMessages_concat] at hidle
    obtain ⟨letsGo, spent⟩ := hwaits.letsGo (keeps ending (by simp)) hidle
    exact ⟨letsGo, askedOnlyAfter_of_spent hbusy spent later⟩
  · intro between dropping later keeps hdrops hbusy
    obtain ⟨hsilent, spent, hdead⟩ := (waits_append waits keeps hbusy).dropped hdrops
    constructor
    · intro part _
      rw [← afterMessages_concat] at spent hdead
      rw [List.append_cons]
      exact not_isLive_append spent hdead part
    · exact askedOnlyAfter_none (askedOnlyAfter_of_spent hbusy spent later) hsilent

/-- The scroll waits through a second rebuild and is run by its report. -/
theorem parked_scroll_outlasts_rebuild :
    (afterMessages {} [.rebuild (some "public:")]).inFlight.isSome = true ∧
      (afterMessages {} (parking [.rebuild (some "public:")] 1 ++
        [.rebuild (some "private:")])).LetsGo (.scanCompleted 2 ⟨0, 1⟩ (scan "private:")) 1
          ⟨1, 0⟩ := by
  have busy : (afterMessages {} [.rebuild (some "public:")]).inFlight.isSome = true := rfl
  refine ⟨busy, ((parked_scroll_runs_once {} [.rebuild (some "public:")] 1 busy).released
    [.rebuild (some "private:")] (.scanCompleted 2 ⟨0, 1⟩ (scan "private:")) []
    ?_ ?_ ?_).1⟩
  · intro message hmessage
    rcases List.mem_cons.1 hmessage with rfl | hmessage
    · rfl
    · obtain rfl := List.mem_singleton.1 hmessage
      rfl
  · intro part hpart
    rcases List.prefix_cons_iff.1 hpart with rfl | ⟨tail, rfl, htail⟩
    · rfl
    · obtain rfl := List.prefix_nil.1 htail
      rfl
  · rfl

end Runs

end Session

end RegionOutline
