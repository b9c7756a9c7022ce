import RegionOutline.Proofs.Cancellation

/-!
# Tokens over a history

Any number of scopes are renewed and cancelled, free-standing tokens are made, and
tokens are copied and cancelled, in any order. Copies are further handles of the same
token. A log keeps what was done and which token it was done to, and the log alone
decides which tokens are live: a token of a scope is live while the last thing done to
the scope is the renewal that handed it out and the token itself was not cancelled.
-/

namespace RegionOutline

namespace CancelRegistry

/-- What can be asked of scopes and tokens. A token is named by one of its handles. -/
inductive Call where
  | renew (scope : Nat)
  | cancelScope (scope : Nat)
  | cancelToken (handle : Nat)
  | newToken
  | clone (handle : Nat)

/-- What was done, and to which token. -/
inductive Event where
  | renewed (scope : Nat) (token : Token)
  | scopeCancelled (scope : Nat)
  | tokenCancelled (token : Token)
  | created (token : Token)
  | cloned (token : Token)
  deriving DecidableEq

namespace Event

/-- Whether the event renews or cancels a scope. -/
def concerns (scope : Nat) : Event → Bool
  | .renewed owner _ | .scopeCancelled owner => owner == scope
  | .tokenCancelled _ | .created _ | .cloned _ => false

/-- The token of an event. -/
def token? : Event → Option Token
  | .renewed _ token | .tokenCancelled token | .created token | .cloned token => some token
  | .scopeCancelled _ => none

/-- The token that a renewal of the scope hands out. -/
def handedOut? (scope : Nat) : Event → Option Token
  | .renewed owner token => if owner = scope then some token else none
  | .scopeCancelled _ | .tokenCancelled _ | .created _ | .cloned _ => none

/-- The token that comes into being. -/
def made? : Event → Option Token
  | .renewed _ token | .created token => some token
  | .scopeCancelled _ | .tokenCancelled _ | .cloned _ => none

/-- The token of the handle that comes into being. -/
def handle? : Event → Option Token
  | .renewed _ token | .created token | .cloned token => some token
  | .scopeCancelled _ | .tokenCancelled _ => none

theorem token?_of_made? {event : Event} {token : Token} (h : event.made? = some token) :
    event.token? = some token := by
  cases event with
  | renewed scope other => exact h
  | created other => exact h
  | scopeCancelled scope => cases h
  | tokenCancelled other => cases h
  | cloned other => cases h

/-- What an event does to the scope at a position. -/
def react (position : Nat) (event : Event) (scope : CancelScope) : CancelScope :=
  match event with
  | .renewed owner _ => if owner = position then scope.renew else scope
  | .scopeCancelled owner => if owner = position then scope.cancel else scope
  | .tokenCancelled token => scope.cancelToken token
  | .created _ | .cloned _ => scope

end Event

/-- The registry after an event. -/
def apply (registry : CancelRegistry) : Event → CancelRegistry
  | .renewed scope _ => registry.renew scope
  | .scopeCancelled scope => registry.cancelScope scope
  | .tokenCancelled token => registry.cancelToken token
  | .created _ => registry.issue
  | .cloned _ => registry

/-- A registry with everything that was done to it, the oldest first. -/
structure History where
  registry : CancelRegistry
  log : List Event := []

namespace History

/-- The tokens of the handles, in the order in which the handles were made. -/
def handles (history : History) : List Token :=
  history.log.filterMap Event.handle?

/-- The tokens that a scope has handed out, the oldest first. -/
def handedOut (history : History) (scope : Nat) : List Token :=
  history.log.filterMap (Event.handedOut? scope)

/-- What a call comes to; none if there is no such scope or handle. -/
def event? (history : History) : Call → Option Event
  | .renew scope =>
      history.registry.scopes[scope]?.map fun owner => .renewed scope owner.nextToken
  | .cancelScope scope =>
      if scope < history.registry.scopes.length then some (.scopeCancelled scope) else none
  | .cancelToken handle => history.handles[handle]?.map .tokenCancelled
  | .newToken => some (.created history.registry.loose.nextToken)
  | .clone handle => history.handles[handle]?.map .cloned

def record (history : History) (event : Event) : History :=
  ⟨history.registry.apply event, history.log ++ [event]⟩

/-- Do what a call asks for, if it can be done. -/
def perform (history : History) (call : Call) : History :=
  (history.event? call).elim history history.record

/-- The history of so many fresh scopes after the calls. -/
def ofCalls (count : Nat) (calls : List Call) : History :=
  calls.foldl perform ⟨.ofCount count, []⟩

/-- All that can happen next. -/
inductive Possible (history : History) : Event → Prop
  | renewed {scope : Nat} {owner : CancelScope}
      (found : history.registry.scopes[scope]? = some owner) :
      Possible history (.renewed scope owner.nextToken)
  | scopeCancelled {scope : Nat} (found : scope < history.registry.scopes.length) :
      Possible history (.scopeCancelled scope)
  | tokenCancelled {token : Token} (held : token ∈ history.handles) :
      Possible history (.tokenCancelled token)
  | created : Possible history (.created history.registry.loose.nextToken)
  | cloned {token : Token} (held : token ∈ history.handles) : Possible history (.cloned token)

variable {history : History} {count : Nat} {event : Event} {token : Token}

theorem possible_of_event? {call : Call} (h : history.event? call = some event) :
    history.Possible event := by
  cases call with
  | renew scope =>
      obtain ⟨owner, hfound, rfl⟩ := Option.map_eq_some_iff.1 h
      exact .renewed hfound
  | cancelScope scope =>
      simp only [event?] at h
      split at h
      · cases h
        exact .scopeCancelled ‹_›
      · cases h
  | cancelToken handle =>
      obtain ⟨token, hheld, rfl⟩ := Option.map_eq_some_iff.1 h
      exact .tokenCancelled (List.mem_of_getElem? hheld)
  | newToken =>
      cases h
      exact .created
  | clone handle =>
      obtain ⟨token, hheld, rfl⟩ := Option.map_eq_some_iff.1 h
      exact .cloned (List.mem_of_getElem? hheld)

/-- The last thing done to the scope is the renewal that handed the token out, and the
token itself was not cancelled. -/
def HeldBy (log : List Event) (scope : Nat) (token : Token) : Prop :=
  (log.filter (Event.concerns scope)).getLast? = some (.renewed scope token) ∧
    .tokenCancelled token ∉ log

theorem heldBy_concat (log : List Event) (event : Event) (scope : Nat) (token : Token) :
    HeldBy (log ++ [event]) scope token ↔
      (event = .renewed scope token ∧ .tokenCancelled token ∉ log) ∨
        (event.concerns scope = false ∧ event ≠ .tokenCancelled token ∧
          HeldBy log scope token) := by
  unfold HeldBy
  rw [List.filter_append, List.mem_append, List.mem_singleton, not_or]
  cases hconcerns : event.concerns scope with
  | true =>
      rw [List.filter_cons_of_pos hconcerns, List.filter_nil, List.getLast?_concat]
      constructor
      · rintro ⟨hlast, hbefore, _⟩
        exact Or.inl ⟨Option.some.inj hlast, hbefore⟩
      · rintro (⟨rfl, hbefore⟩ | ⟨hfalse, _⟩)
        · exact ⟨rfl, hbefore, Event.noConfusion⟩
        · cases hfalse
  | false =>
      rw [List.filter_cons_of_neg (by simp [hconcerns]), List.filter_nil, List.append_nil]
      constructor
      · rintro ⟨hlast, hbefore, hother⟩
        exact Or.inr ⟨rfl, Ne.symm hother, hlast, hbefore⟩
      · rintro (⟨rfl, _⟩ | ⟨_, hother, hlast, hbefore⟩)
        · simp [Event.concerns] at hconcerns
        · exact ⟨hlast, hbefore, Ne.symm hother⟩

/-- The tokens that the log speaks of. -/
def mentioned (log : List Event) : List Token :=
  log.filterMap Event.token?

theorem mem_mentioned_concat (log : List Event) (event : Event) (token : Token) :
    token ∈ mentioned (log ++ [event]) ↔ token ∈ mentioned log ∨ event.token? = some token := by
  simp [mentioned]

theorem mem_mentioned_of_handles (held : token ∈ history.handles) :
    token ∈ mentioned history.log := by
  obtain ⟨event, hevent, hhandle⟩ := List.mem_filterMap.1 held
  refine List.mem_filterMap.2 ⟨event, hevent, ?_⟩
  cases event with
  | renewed scope other => exact hhandle
  | created other => exact hhandle
  | cloned other => exact hhandle
  | scopeCancelled scope => cases hhandle
  | tokenCancelled other => cases hhandle

/-- Every token of the scope that the log speaks of was handed out. -/
def Issued (log : List Event) (scope : CancelScope) : Prop :=
  ∀ token ∈ mentioned log, token.scope = scope.id → token.serial < scope.cancelled.size

section Scopes

variable {log : List Event} {scope : CancelScope}

theorem Issued.nextToken_not_mem (issued : Issued log scope) : scope.nextToken ∉ mentioned log := by
  intro hmem
  exact Nat.lt_irrefl _ (issued _ hmem rfl)

theorem tokenCancelled_not_mem (fresh : token ∉ mentioned log) : .tokenCancelled token ∉ log := by
  intro hmem
  exact fresh (List.mem_filterMap.2 ⟨_, hmem, rfl⟩)

/-- More tokens can be spoken of once they are handed out. -/
theorem Issued.concat {after : CancelScope} (issued : Issued log scope)
    (sameId : after.id = scope.id) (grown : scope.cancelled.size ≤ after.cancelled.size)
    (known : ∀ token, event.token? = some token → token.scope = scope.id →
      token.serial < after.cancelled.size) : Issued (log ++ [event]) after := by
  intro token hmem howner
  rw [sameId] at howner
  cases (mem_mentioned_concat log event token).1 hmem with
  | inl hbefore => exact Nat.lt_of_lt_of_le (issued token hbefore howner) grown
  | inr hevent => exact known token hevent howner

/-- The log decides which token of the scope is live. -/
structure Follows (log : List Event) (scope : CancelScope) : Prop where
  oneLive : scope.OneLive
  issued : Issued log scope
  live_iff : ∀ token, scope.isLive token = true ↔ HeldBy log scope.id token

theorem follows_fresh (id : Nat) : Follows [] { id } where
  oneLive := CancelScope.oneLive_fresh id
  issued := by simp [Issued, mentioned]
  live_iff := by simp [CancelScope.isLive, HeldBy]

theorem Follows.renew (follows : Follows log scope) :
    Follows (log ++ [.renewed scope.id scope.nextToken]) scope.renew where
  oneLive := follows.oneLive.renew
  issued := by
    apply follows.issued.concat scope.id_renew
    · simp
    · rintro token ⟨⟩ _
      simp [CancelScope.nextToken]
  live_iff := by
    intro token
    have hfresh := tokenCancelled_not_mem follows.issued.nextToken_not_mem
    rw [CancelScope.isLive_renew, heldBy_concat, CancelScope.id_renew]
    constructor
    · rintro (rfl | hlive)
      · exact Or.inl ⟨rfl, hfresh⟩
      · exact absurd hlive (follows.oneLive.not_isLive_cancel token)
    · rintro (⟨hsame, _⟩ | ⟨hquiet, _⟩)
      · exact Or.inl (Event.renewed.inj hsame).2.symm
      · simp [Event.concerns] at hquiet

theorem Follows.cancel (follows : Follows log scope) :
    Follows (log ++ [.scopeCancelled scope.id]) scope.cancel where
  oneLive := by
    intro token hlive
    exact absurd hlive (follows.oneLive.not_isLive_cancel token)
  issued := by
    apply follows.issued.concat scope.id_cancel
    · simp
    · rintro token ⟨⟩
  live_iff := by
    intro token
    rw [heldBy_concat, CancelScope.id_cancel]
    constructor
    · intro hlive
      exact absurd hlive (follows.oneLive.not_isLive_cancel token)
    · rintro (⟨hsame, _⟩ | ⟨hquiet, _⟩)
      · cases hsame
      · simp [Event.concerns] at hquiet

theorem Follows.cancelToken (follows : Follows log scope) (known : token ∈ mentioned log) :
    Follows (log ++ [.tokenCancelled token]) (scope.cancelToken token) where
  oneLive := follows.oneLive.cancelToken token
  issued := by
    apply follows.issued.concat (scope.id_cancelToken token)
    · simp
    · rintro other ⟨⟩ howner
      simpa using follows.issued token known howner
  live_iff := by
    intro other
    rw [CancelScope.isLive_cancelToken, follows.live_iff, heldBy_concat,
      CancelScope.id_cancelToken]
    constructor
    · rintro ⟨held, hother⟩
      refine Or.inr ⟨rfl, ?_, held⟩
      rintro ⟨⟩
      exact hother rfl
    · rintro (⟨hsame, _⟩ | ⟨_, hother, held⟩)
      · cases hsame
      · refine ⟨held, ?_⟩
        rintro rfl
        exact hother rfl

/-- What neither is done to the scope nor cancels a token leaves it as it is. -/
theorem Follows.still (follows : Follows log scope) (quiet : event.concerns scope.id = false)
    (sparing : ∀ token, event ≠ .tokenCancelled token)
    (known : ∀ token, event.token? = some token → token.scope = scope.id →
      token ∈ mentioned log) : Follows (log ++ [event]) scope where
  oneLive := follows.oneLive
  issued := by
    apply follows.issued.concat rfl (Nat.le_refl _)
    intro token hevent howner
    exact follows.issued token (known token hevent howner) howner
  live_iff := by
    intro token
    rw [follows.live_iff, heldBy_concat]
    constructor
    · intro held
      exact Or.inr ⟨quiet, sparing token, held⟩
    · rintro (⟨rfl, _⟩ | ⟨_, _, held⟩)
      · simp [Event.concerns] at quiet
      · exact held

/-- The log decides which free-standing tokens are live. -/
structure FollowsLoose (log : List Event) (scope : CancelScope) : Prop where
  issued : Issued log scope
  live_iff : ∀ token, scope.isLive token = true ↔ .created token ∈ log ∧ .tokenCancelled token ∉ log

theorem followsLoose_fresh (id : Nat) : FollowsLoose [] { id } where
  issued := by simp [Issued, mentioned]
  live_iff := by simp [CancelScope.isLive]

theorem FollowsLoose.issue (follows : FollowsLoose log scope) :
    FollowsLoose (log ++ [.created scope.nextToken]) scope.issue where
  issued := by
    have sameId : scope.issue.id = scope.id := rfl
    apply follows.issued.concat sameId
    · simp [CancelScope.issue]
    · rintro token ⟨⟩ _
      simp [CancelScope.nextToken, CancelScope.issue]
  live_iff := by
    intro token
    have hfresh := tokenCancelled_not_mem follows.issued.nextToken_not_mem
    rw [CancelScope.isLive_issue, follows.live_iff]
    simp only [List.mem_append, List.mem_singleton, Event.created.injEq, reduceCtorEq, or_false]
    constructor
    · rintro (rfl | ⟨hmade, hkept⟩)
      · exact ⟨Or.inr rfl, hfresh⟩
      · exact ⟨Or.inl hmade, hkept⟩
    · rintro ⟨hmade | rfl, hkept⟩
      · exact Or.inr ⟨hmade, hkept⟩
      · exact Or.inl rfl

theorem FollowsLoose.cancelToken (follows : FollowsLoose log scope)
    (known : token ∈ mentioned log) :
    FollowsLoose (log ++ [.tokenCancelled token]) (scope.cancelToken token) where
  issued := by
    apply follows.issued.concat (scope.id_cancelToken token)
    · simp
    · rintro other ⟨⟩ howner
      simpa using follows.issued token known howner
  live_iff := by
    intro other
    rw [CancelScope.isLive_cancelToken, follows.live_iff]
    simp only [List.mem_append, List.mem_singleton, reduceCtorEq, or_false, not_or,
      Event.tokenCancelled.injEq, and_assoc, ne_eq]

theorem FollowsLoose.still (follows : FollowsLoose log scope)
    (sparing : ∀ token, event ≠ .tokenCancelled token)
    (other : ∀ token, event ≠ .created token)
    (known : ∀ token, event.token? = some token → token.scope = scope.id →
      token ∈ mentioned log) : FollowsLoose (log ++ [event]) scope where
  issued := by
    apply follows.issued.concat rfl (Nat.le_refl _)
    intro token hevent howner
    exact follows.issued token (known token hevent howner) howner
  live_iff := by
    intro token
    rw [follows.live_iff]
    simp only [List.mem_append, List.mem_singleton, (sparing token).symm, (other token).symm,
      or_false]

end Scopes

end History

end CancelRegistry

end RegionOutline
