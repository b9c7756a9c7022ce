import RegionOutline.Cancellation

/-!
# Tokens of one scope

What cancelling and renewing do to a scope and to the tokens that it handed out.
Cancelling ends the outstanding token and no other one; renewing does the same
and makes one more token live. A scope that is used in no other way never has more
than one live token.
-/

namespace RegionOutline

namespace CancelScope

@[simp] theorem id_cancel (scope : CancelScope) : scope.cancel.id = scope.id := by
  unfold cancel
  split <;> rfl

@[simp] theorem size_cancelled_cancel (scope : CancelScope) :
    scope.cancel.cancelled.size = scope.cancelled.size := by
  unfold cancel
  split <;> simp

@[simp] theorem id_renew (scope : CancelScope) : scope.renew.id = scope.id := by
  simp [renew, issue]

@[simp] theorem size_cancelled_renew (scope : CancelScope) :
    scope.renew.cancelled.size = scope.cancelled.size + 1 := by
  simp [renew, issue]

@[simp] theorem outstanding_renew (scope : CancelScope) :
    scope.renew.outstanding = some scope.cancelled.size := rfl

/-- The token handed out last is not cancelled. -/
theorem getElem?_cancelled_renew (scope : CancelScope) :
    scope.renew.cancelled[scope.cancelled.size]? = some false := by
  have hsize := scope.size_cancelled_cancel
  change (scope.cancel.cancelled.push false)[scope.cancelled.size]? = some false
  rw [← hsize]
  exact Array.getElem?_push_size

/-- Cancelling a scope ends its outstanding token only. -/
theorem isLive_cancel (scope : CancelScope) (token : Token) :
    scope.cancel.isLive token = true ↔
      scope.isLive token = true ∧ scope.outstanding ≠ some token.serial := by
  unfold cancel
  cases houtstanding : scope.outstanding with
  | none => simp
  | some serial =>
      by_cases hserial : serial = token.serial
      · simp [isLive, hserial, Array.getElem?_setIfInBounds]
      · simp [isLive, hserial]

/-- Renewing a scope cancels it and makes the next token live. -/
theorem isLive_renew (scope : CancelScope) (token : Token) :
    scope.renew.isLive token = true ↔
      token = scope.nextToken ∨ scope.cancel.isLive token = true := by
  obtain ⟨owner, serial⟩ := token
  have hsize := scope.size_cancelled_cancel
  change (owner == scope.renew.id &&
    (scope.cancel.cancelled.push false)[serial]? == some false) = true ↔ _
  rw [Array.getElem?_push, hsize, id_renew]
  by_cases hserial : serial = scope.cancelled.size
  · have hnone : scope.cancel.cancelled[serial]? = none := by
      rw [Array.getElem?_eq_none_iff, hsize]
      omega
    simp [isLive, nextToken, hserial]
  · simp [isLive, nextToken, hserial]

theorem isCurrent_iff (scope : CancelScope) (token : Token) :
    scope.isCurrent token = true ↔
      scope.outstanding = some token.serial ∧ scope.isLive token = true := by
  simp [isCurrent]

theorem isCurrent_renew (scope : CancelScope) :
    scope.renew.isCurrent scope.nextToken = true :=
  (isCurrent_iff _ _).2 ⟨rfl, (isLive_renew _ _).2 (Or.inl rfl)⟩

theorem serial_lt_of_isLive {scope : CancelScope} {token : Token}
    (h : scope.isLive token = true) : token.serial < scope.cancelled.size := by
  simp only [isLive, Bool.and_eq_true, beq_iff_eq] at h
  exact (Array.getElem?_eq_some_iff.1 h.2).1

/-- A token that was handed out and is cancelled stays so, whatever happens to
its scope. -/
theorem not_isLive_renew {scope : CancelScope} {token : Token}
    (issued : token.serial < scope.cancelled.size) (dead : scope.cancel.isLive token ≠ true) :
    scope.renew.isLive token ≠ true := by
  intro hlive
  rcases (isLive_renew _ _).1 hlive with rfl | hlive
  · exact Nat.lt_irrefl _ issued
  · exact dead hlive

/-- Cancelling the scope ends a token that was current. -/
theorem not_isLive_cancel_of_isCurrent {scope : CancelScope} {token : Token}
    (h : scope.isCurrent token = true) : scope.cancel.isLive token ≠ true := by
  intro hlive
  exact ((isLive_cancel _ _).1 hlive).2 ((isCurrent_iff _ _).1 h).1

/-- Whether a token was handed out here and is cancelled. -/
def isCancelled (scope : CancelScope) (token : Token) : Bool :=
  token.scope == scope.id && scope.cancelled[token.serial]? == some true

/-- A token that was handed out is cancelled if it is not live. -/
theorem isCancelled_of_issued {scope : CancelScope} {token : Token} (owner : token.scope = scope.id)
    (issued : token.serial < scope.cancelled.size) (dead : scope.isLive token ≠ true) :
    scope.isCancelled token = true := by
  have hflag := Array.getElem?_eq_getElem issued
  cases hcancelled : scope.cancelled[token.serial] with
  | false => simp [isLive, owner, hflag, hcancelled] at dead
  | true => simp [isCancelled, owner, hflag, hcancelled]

/-- The outstanding token is the one that passes for current. -/
theorem current?_eq_some_iff (scope : CancelScope) (token : Token) :
    scope.current? = some token ↔ scope.isCurrent token = true := by
  obtain ⟨owner, serial⟩ := token
  rw [isCurrent_iff, current?, Option.filter_eq_some_iff, Option.map_eq_some_iff]
  constructor
  · rintro ⟨⟨_, houtstanding, hsame⟩, hlive⟩
    cases hsame
    exact ⟨houtstanding, hlive⟩
  · rintro ⟨houtstanding, hlive⟩
    have howner : owner = scope.id := by
      simp only [isLive, Bool.and_eq_true, beq_iff_eq] at hlive
      exact hlive.1
    exact ⟨⟨serial, houtstanding, by rw [howner]⟩, hlive⟩

/-- No token is live but the outstanding one. -/
def OneLive (scope : CancelScope) : Prop :=
  ∀ token, scope.isLive token = true → scope.isCurrent token = true

theorem oneLive_fresh (id : Nat) : OneLive { id } := by
  intro token hlive
  simp [isLive] at hlive

/-- Renewing leaves the new token as the only live one. -/
theorem OneLive.renew {scope : CancelScope} (oneLive : scope.OneLive) : scope.renew.OneLive := by
  intro token hlive
  rcases (isLive_renew _ _).1 hlive with rfl | hcancel
  · exact isCurrent_renew scope
  · obtain ⟨hbefore, hother⟩ := (isLive_cancel _ _).1 hcancel
    exact absurd ((isCurrent_iff _ _).1 (oneLive token hbefore)).1 hother

theorem OneLive.not_isLive_cancel {scope : CancelScope} (oneLive : scope.OneLive) (token : Token) :
    scope.cancel.isLive token ≠ true := by
  intro hlive
  obtain ⟨hbefore, hother⟩ := (isLive_cancel _ _).1 hlive
  exact hother ((isCurrent_iff _ _).1 (oneLive token hbefore)).1

theorem isLive_iff (scope : CancelScope) (token : Token) :
    scope.isLive token = true ↔
      token.scope = scope.id ∧ scope.cancelled[token.serial]? = some false := by
  simp [isLive]

@[simp] theorem id_cancelToken (scope : CancelScope) (token : Token) :
    (scope.cancelToken token).id = scope.id := by
  unfold cancelToken
  split <;> rfl

@[simp] theorem outstanding_cancelToken (scope : CancelScope) (token : Token) :
    (scope.cancelToken token).outstanding = scope.outstanding := by
  unfold cancelToken
  split <;> rfl

@[simp] theorem size_cancelled_cancelToken (scope : CancelScope) (token : Token) :
    (scope.cancelToken token).cancelled.size = scope.cancelled.size := by
  unfold cancelToken
  split
  · exact Array.size_setIfInBounds
  · rfl

/-- Cancelling a token ends it and no other one. -/
theorem isLive_cancelToken (scope : CancelScope) (gone token : Token) :
    (scope.cancelToken gone).isLive token = true ↔ scope.isLive token = true ∧ token ≠ gone := by
  obtain ⟨goneOwner, goneSerial⟩ := gone
  obtain ⟨owner, serial⟩ := token
  rw [isLive_iff, isLive_iff, id_cancelToken, and_assoc]
  apply and_congr_right
  intro howner
  unfold cancelToken
  by_cases hgone : goneOwner = scope.id
  · rw [if_pos hgone]
    by_cases hserial : goneSerial = serial
    · have hsame : Token.mk owner serial = ⟨goneOwner, goneSerial⟩ := by
        rw [hserial, hgone, ← howner]
      simp [hserial, hsame, Array.getElem?_setIfInBounds]
    · simp [hserial, Ne.symm hserial]
  · have hother : owner ≠ goneOwner := by
      intro heq
      exact hgone (heq.symm.trans howner)
    simp [hgone, hother]

theorem OneLive.cancelToken {scope : CancelScope} (oneLive : scope.OneLive) (gone : Token) :
    (scope.cancelToken gone).OneLive := by
  intro token hlive
  have hbefore := ((isLive_cancelToken _ _ _).1 hlive).1
  have hcurrent := (isCurrent_iff _ _).1 (oneLive token hbefore)
  refine (isCurrent_iff _ _).2 ⟨?_, hlive⟩
  rw [outstanding_cancelToken]
  exact hcurrent.1

/-- Handing out a free-standing token ends none. -/
theorem isLive_issue (scope : CancelScope) (token : Token) :
    scope.issue.isLive token = true ↔ token = scope.nextToken ∨ scope.isLive token = true := by
  obtain ⟨owner, serial⟩ := token
  simp only [isLive, issue, nextToken, Array.getElem?_push]
  by_cases hserial : serial = scope.cancelled.size
  · simp [hserial]
  · simp [hserial]

end CancelScope

end RegionOutline
