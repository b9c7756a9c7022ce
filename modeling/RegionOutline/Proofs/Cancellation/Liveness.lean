import RegionOutline.Proofs.Cancellation.History

/-!
# Live tokens over a history

The registry follows its log: the scopes stay in their places, the tokens that come
into being are new, and the log decides of each token whether it is live. The main
statement holds of every sequence of calls, over any number of scopes.
-/

namespace RegionOutline

namespace CancelRegistry

namespace History

variable {history : History} {count : Nat} {event : Event} {token : Token} {call : Call}

theorem getElem?_scopes_apply (registry : CancelRegistry) (event : Event) (position : Nat) :
    (registry.apply event).scopes[position]? =
      registry.scopes[position]?.map (event.react position) := by
  cases event with
  | renewed owner token => exact List.getElem?_modify _ _ _ _
  | scopeCancelled owner => exact List.getElem?_modify _ _ _ _
  | tokenCancelled token => exact List.getElem?_map
  | created token => exact Option.map_id'.symm
  | cloned token => exact Option.map_id'.symm

/-- A scope has handed the token out, or it was made free-standing. -/
def Traced (log : List Event) (token : Token) : Prop :=
  (∃ scope, .renewed scope token ∈ log) ∨ .created token ∈ log

theorem Traced.append {log : List Event} (traced : Traced log token) (more : List Event) :
    Traced (log ++ more) token := by
  cases traced with
  | inl hrenewed =>
      obtain ⟨scope, hmem⟩ := hrenewed
      exact Or.inl ⟨scope, List.mem_append_left more hmem⟩
  | inr hmem => exact Or.inr (List.mem_append_left more hmem)

/-- The scopes are in their places, each token comes from where it was handed out, and
the log decides which tokens are live. -/
structure Kept (count : Nat) (history : History) : Prop where
  length_eq : history.registry.scopes.length = count
  loose_id : history.registry.loose.id = count
  follows : ∀ position scope, history.registry.scopes[position]? = some scope →
    scope.id = position ∧ Follows history.log scope
  followsLoose : FollowsLoose history.log history.registry.loose
  renewed_scope : ∀ scope token, .renewed scope token ∈ history.log →
    token.scope = scope ∧ scope < count
  created_scope : ∀ token, .created token ∈ history.log → token.scope = count
  traced : ∀ token ∈ history.handles, Traced history.log token
  distinct : (history.log.filterMap Event.made?).Nodup

theorem kept_fresh (count : Nat) : Kept count ⟨.ofCount count, []⟩ where
  length_eq := by simp [ofCount]
  loose_id := rfl
  follows := by
    intro position scope hfound
    simp only [ofCount, List.getElem?_map, Option.map_eq_some_iff] at hfound
    obtain ⟨id, hid, rfl⟩ := hfound
    refine ⟨?_, follows_fresh id⟩
    obtain ⟨hinside, rfl⟩ := List.getElem?_eq_some_iff.1 hid
    exact List.getElem_range hinside
  followsLoose := followsLoose_fresh count
  renewed_scope := by simp
  created_scope := by simp
  traced := by simp [handles]
  distinct := by simp

/-- A token that is handed out now was not spoken of before. -/
theorem Kept.fresh (kept : Kept count history) (possible : history.Possible event)
    (made : event.made? = some token) : token ∉ mentioned history.log := by
  cases possible with
  | @renewed scope owner found =>
      cases made
      exact (kept.follows scope owner found).2.issued.nextToken_not_mem
  | created =>
      cases made
      exact kept.followsLoose.issued.nextToken_not_mem
  | scopeCancelled found => cases made
  | tokenCancelled held => cases made
  | cloned held => cases made

/-- A scope follows the log also after the next event. -/
theorem Kept.follows_react (kept : Kept count history) (possible : history.Possible event)
    {position : Nat} {scope : CancelScope}
    (found : history.registry.scopes[position]? = some scope) :
    (event.react position scope).id = position ∧
      Follows (history.log ++ [event]) (event.react position scope) := by
  obtain ⟨hid, follows⟩ := kept.follows position scope found
  cases possible with
  | @renewed other owner hother =>
      by_cases hposition : other = position
      · subst hposition
        obtain rfl : owner = scope := Option.some.inj (hother.symm.trans found)
        have renewed := follows.renew
        rw [hid] at renewed
        simp only [Event.react, if_true]
        exact ⟨owner.id_renew.trans hid, renewed⟩
      · simp only [Event.react, hposition, if_false]
        have howner := (kept.follows other owner hother).1
        refine ⟨hid, follows.still ?_ (by simp) ?_⟩
        · simp [Event.concerns, hid, hposition]
        · rintro token ⟨⟩ hscope
          exact absurd (howner.symm.trans (hscope.trans hid)) hposition
  | @scopeCancelled other hother =>
      by_cases hposition : other = position
      · subst hposition
        have cancelled := follows.cancel
        rw [hid] at cancelled
        simp only [Event.react, if_true]
        exact ⟨scope.id_cancel.trans hid, cancelled⟩
      · simp only [Event.react, hposition, if_false]
        refine ⟨hid, follows.still ?_ (by simp) ?_⟩
        · simp [Event.concerns, hid, hposition]
        · rintro token ⟨⟩
  | @tokenCancelled token held =>
      exact ⟨(scope.id_cancelToken token).trans hid,
        follows.cancelToken (mem_mentioned_of_handles held)⟩
  | created =>
      refine ⟨hid, follows.still rfl (by simp) ?_⟩
      rintro token ⟨⟩ hscope
      have hinside := (List.getElem?_eq_some_iff.1 found).1
      have hcount : history.registry.loose.id = scope.id := hscope
      rw [kept.loose_id, hid, ← kept.length_eq] at hcount
      omega
  | @cloned token held =>
      refine ⟨hid, follows.still rfl (by simp) ?_⟩
      rintro other ⟨⟩ _
      exact mem_mentioned_of_handles held

theorem Kept.followsLoose_apply (kept : Kept count history) (possible : history.Possible event) :
    (history.registry.apply event).loose.id = count ∧
      FollowsLoose (history.log ++ [event]) (history.registry.apply event).loose := by
  have follows := kept.followsLoose
  have hid := kept.loose_id
  cases possible with
  | @renewed scope owner found =>
      refine ⟨hid, follows.still (by simp) (by simp) ?_⟩
      rintro token ⟨⟩ hscope
      have hinside := (List.getElem?_eq_some_iff.1 found).1
      have howner : owner.id = history.registry.loose.id := hscope
      rw [(kept.follows scope owner found).1, hid, ← kept.length_eq] at howner
      omega
  | scopeCancelled found =>
      refine ⟨hid, follows.still (by simp) (by simp) ?_⟩
      rintro token ⟨⟩
  | @tokenCancelled token held =>
      exact ⟨(history.registry.loose.id_cancelToken token).trans hid,
        follows.cancelToken (mem_mentioned_of_handles held)⟩
  | created => exact ⟨hid, follows.issue⟩
  | @cloned token held =>
      refine ⟨hid, follows.still (by simp) (by simp) ?_⟩
      rintro other ⟨⟩ _
      exact mem_mentioned_of_handles held

theorem Kept.record (kept : Kept count history) (possible : history.Possible event) :
    Kept count (history.record event) where
  length_eq := by
    rw [← kept.length_eq]
    cases event <;> simp [History.record, apply, CancelRegistry.renew, CancelRegistry.cancelScope,
      CancelRegistry.cancelToken, CancelRegistry.issue]
  loose_id := (kept.followsLoose_apply possible).1
  follows := by
    intro position scope found
    change (history.registry.apply event).scopes[position]? = some scope at found
    rw [getElem?_scopes_apply] at found
    obtain ⟨before, hbefore, rfl⟩ := Option.map_eq_some_iff.1 found
    exact kept.follows_react possible hbefore
  followsLoose := (kept.followsLoose_apply possible).2
  renewed_scope := by
    intro scope token hmem
    cases List.mem_append.1 hmem with
    | inl hbefore => exact kept.renewed_scope scope token hbefore
    | inr hnow =>
        obtain rfl := List.mem_singleton.1 hnow
        cases possible with
        | @renewed _ owner found =>
            have hinside := (List.getElem?_eq_some_iff.1 found).1
            rw [kept.length_eq] at hinside
            exact ⟨(kept.follows scope owner found).1, hinside⟩
  created_scope := by
    intro token hmem
    cases List.mem_append.1 hmem with
    | inl hbefore => exact kept.created_scope token hbefore
    | inr hnow =>
        obtain rfl := List.mem_singleton.1 hnow
        cases possible with
        | created => exact kept.loose_id
  traced := by
    intro token hmem
    obtain ⟨source, hsource, hhandle⟩ := List.mem_filterMap.1 hmem
    cases List.mem_append.1 hsource with
    | inl hbefore =>
        have held : token ∈ history.handles := List.mem_filterMap.2 ⟨source, hbefore, hhandle⟩
        exact (kept.traced token held).append _
    | inr hnow =>
        obtain rfl := List.mem_singleton.1 hnow
        cases possible with
        | @renewed scope owner found =>
            cases hhandle
            exact Or.inl ⟨scope, hsource⟩
        | created =>
            cases hhandle
            exact Or.inr hsource
        | cloned held =>
            cases hhandle
            exact (kept.traced token held).append _
        | scopeCancelled found => cases hhandle
        | tokenCancelled held => cases hhandle
  distinct := by
    change ((history.log ++ [event]).filterMap Event.made?).Nodup
    rw [List.filterMap_append]
    cases hmade : event.made? with
    | none =>
        rw [List.filterMap_cons_none hmade, List.filterMap_nil, List.append_nil]
        exact kept.distinct
    | some token =>
        rw [List.filterMap_cons_some hmade, List.filterMap_nil]
        have hnew : token ∉ history.log.filterMap Event.made? := by
          intro hmem
          apply kept.fresh possible hmade
          obtain ⟨source, hsource, hbefore⟩ := List.mem_filterMap.1 hmem
          exact List.mem_filterMap.2 ⟨source, hsource, Event.token?_of_made? hbefore⟩
        refine List.nodup_append.2 ⟨kept.distinct, by simp, ?_⟩
        intro first hfirst second hsecond
        obtain rfl := List.mem_singleton.1 hsecond
        rintro rfl
        exact hnew hfirst

theorem kept_perform (kept : Kept count history) (call : Call) :
    Kept count (history.perform call) := by
  unfold perform
  cases hevent : history.event? call with
  | none => exact kept
  | some event => exact kept.record (possible_of_event? hevent)

theorem kept_ofCalls (count : Nat) (calls : List Call) : Kept count (ofCalls count calls) := by
  unfold ofCalls
  generalize hstart : (⟨.ofCount count, []⟩ : History) = start
  have kept : Kept count start := hstart ▸ kept_fresh count
  clear hstart
  induction calls generalizing start with
  | nil => exact kept
  | cons call rest ih => exact ih _ (kept_perform kept call)

/-- A token that a scope has handed out is live as the log says. -/
theorem Kept.isLive_renewed (kept : Kept count history) {scope : Nat}
    (handed : .renewed scope token ∈ history.log) :
    history.registry.isLive token = true ↔ HeldBy history.log scope token := by
  obtain ⟨howner, hcount⟩ := kept.renewed_scope scope token handed
  rw [isLive, Bool.or_eq_true, List.any_eq_true]
  constructor
  · rintro (⟨other, hmem, hlive⟩ | hlive)
    · obtain ⟨position, found⟩ := List.mem_iff_getElem?.1 hmem
      obtain ⟨hid, follows⟩ := kept.follows position other found
      have held := (follows.live_iff token).1 hlive
      have hsame := ((CancelScope.isLive_iff _ _).1 hlive).1
      rwa [← hsame, howner] at held
    · have hsame := ((CancelScope.isLive_iff _ _).1 hlive).1
      rw [howner, kept.loose_id] at hsame
      omega
  · intro held
    rw [← kept.length_eq] at hcount
    have found := List.getElem?_eq_getElem hcount
    obtain ⟨hid, follows⟩ := kept.follows scope _ found
    refine Or.inl ⟨_, List.mem_of_getElem? found, (follows.live_iff token).2 ?_⟩
    rwa [hid]

/-- A free-standing token is live until it is cancelled. -/
theorem Kept.isLive_created (kept : Kept count history) (made : .created token ∈ history.log) :
    history.registry.isLive token = true ↔ .tokenCancelled token ∉ history.log := by
  have howner := kept.created_scope token made
  rw [isLive, Bool.or_eq_true, List.any_eq_true]
  constructor
  · rintro (⟨other, hmem, hlive⟩ | hlive)
    · obtain ⟨position, found⟩ := List.mem_iff_getElem?.1 hmem
      have hid := (kept.follows position other found).1
      have hinside := (List.getElem?_eq_some_iff.1 found).1
      have hsame := ((CancelScope.isLive_iff _ _).1 hlive).1
      have hlength := kept.length_eq
      omega
    · exact ((kept.followsLoose.live_iff token).1 hlive).2
  · intro hkept
    exact Or.inr ((kept.followsLoose.live_iff token).2 ⟨made, hkept⟩)

/-- What holds of a history of so many scopes. -/
structure Lawful (count : Nat) (history : History) : Prop where
  /-- All scopes are there. -/
  scopes_length : history.registry.scopes.length = count
  /-- Each handle, copies included, is one of a token that a scope has handed out or
  that was made free-standing; each token comes into being once. -/
  identities : (∀ token ∈ history.handles, Traced history.log token) ∧
    (history.log.filterMap Event.made?).Nodup
  /-- A cancelled token stays cancelled, whatever is done later. -/
  permanent : ∀ token ∈ history.handles, history.registry.isLive token = false →
    ∀ calls : List Call, (calls.foldl perform history).registry.isLive token = false
  /-- Of all tokens that a scope has handed out, none is live but the last. -/
  latest : ∀ scope, ∀ token ∈ history.handedOut scope, history.registry.isLive token = true →
    (history.handedOut scope).getLast? = some token
  /-- A token is current, and is the one told, if the last thing done to the scope is the
  renewal that handed it out and no handle of it was cancelled. -/
  current_iff : ∀ (position : Nat) (scope : CancelScope),
    history.registry.scopes[position]? = some scope → ∀ token,
      (scope.isCurrent token = true ↔ HeldBy history.log position token) ∧
        (scope.current? = some token ↔ HeldBy history.log position token)
  /-- No token is told otherwise. -/
  current_none_iff : ∀ (position : Nat) (scope : CancelScope),
    history.registry.scopes[position]? = some scope →
      (scope.current? = none ↔ ∀ token, ¬ HeldBy history.log position token)
  /-- A free-standing token is live until one of its handles is cancelled. -/
  created_iff : ∀ token, .created token ∈ history.log →
    (history.registry.isLive token = true ↔ .tokenCancelled token ∉ history.log)
  /-- Nothing that is done to other scopes and tokens touches a token. -/
  independent : ∀ call, ∀ token ∈ history.handles,
    (∀ scope, call = .renew scope ∨ call = .cancelScope scope →
      .renewed scope token ∉ history.log) →
    (∀ handle, call = .cancelToken handle → history.handles[handle]? ≠ some token) →
    (history.perform call).registry.isLive token = history.registry.isLive token

theorem Kept.isCurrent_iff (kept : Kept count history) {position : Nat} {scope : CancelScope}
    (found : history.registry.scopes[position]? = some scope) (token : Token) :
    scope.isCurrent token = true ↔ HeldBy history.log position token := by
  obtain ⟨hid, follows⟩ := kept.follows position scope found
  rw [← hid, ← follows.live_iff]
  constructor
  · intro hcurrent
    exact ((CancelScope.isCurrent_iff _ _).1 hcurrent).2
  · exact follows.oneLive token

theorem Kept.current?_eq_some_iff (kept : Kept count history) {position : Nat}
    {scope : CancelScope} (found : history.registry.scopes[position]? = some scope)
    (token : Token) : scope.current? = some token ↔ HeldBy history.log position token :=
  (scope.current?_eq_some_iff token).trans (kept.isCurrent_iff found token)

/-- All tokens that a scope has handed out are in the part of the log that concerns it. -/
theorem handedOut_eq (history : History) (scope : Nat) :
    history.handedOut scope =
      (history.log.filter (Event.concerns scope)).filterMap (Event.handedOut? scope) := by
  unfold handedOut
  rw [List.filterMap_filter]
  congr 1
  ext event : 1
  cases event with
  | renewed owner other =>
      by_cases howner : owner = scope
      · simp [Event.concerns, howner]
      · simp [Event.concerns, Event.handedOut?, howner]
  | scopeCancelled owner => simp [Event.handedOut?]
  | tokenCancelled other => rfl
  | created other => rfl
  | cloned other => rfl

theorem HeldBy.getLast?_handedOut {scope : Nat} (held : HeldBy history.log scope token) :
    (history.handedOut scope).getLast? = some token := by
  obtain ⟨earlier, hearlier⟩ := List.getLast?_eq_some_iff.1 held.1
  rw [handedOut_eq, hearlier, List.filterMap_append]
  simp [Event.handedOut?]

theorem renewed_mem_of_handedOut {scope : Nat} (handed : token ∈ history.handedOut scope) :
    .renewed scope token ∈ history.log := by
  obtain ⟨event, hevent, htoken⟩ := List.mem_filterMap.1 handed
  cases event with
  | renewed owner other =>
      simp only [Event.handedOut?] at htoken
      split at htoken
      · subst owner
        cases htoken
        exact hevent
      · cases htoken
  | scopeCancelled owner => cases htoken
  | tokenCancelled other => cases htoken
  | created other => cases htoken
  | cloned other => cases htoken

/-- Only a call to the scope comes to an event that concerns it. -/
theorem call_of_concerns (hevent : history.event? call = some event) {scope : Nat}
    (hconcerns : event.concerns scope = true) :
    call = .renew scope ∨ call = .cancelScope scope := by
  cases call with
  | renew other =>
      obtain ⟨owner, _, rfl⟩ := Option.map_eq_some_iff.1 hevent
      simp only [Event.concerns, beq_iff_eq] at hconcerns
      exact Or.inl (congrArg Call.renew hconcerns)
  | cancelScope other =>
      simp only [event?] at hevent
      split at hevent
      · cases hevent
        simp only [Event.concerns, beq_iff_eq] at hconcerns
        exact Or.inr (congrArg Call.cancelScope hconcerns)
      · cases hevent
  | cancelToken handle =>
      obtain ⟨other, _, rfl⟩ := Option.map_eq_some_iff.1 hevent
      cases hconcerns
  | newToken =>
      cases hevent
      cases hconcerns
  | clone handle =>
      obtain ⟨other, _, rfl⟩ := Option.map_eq_some_iff.1 hevent
      cases hconcerns

/-- Only a call to one of its handles cancels a token by itself. -/
theorem call_of_tokenCancelled (hevent : history.event? call = some (.tokenCancelled token)) :
    ∃ handle, call = .cancelToken handle ∧ history.handles[handle]? = some token := by
  cases call with
  | renew other =>
      obtain ⟨owner, _, hother⟩ := Option.map_eq_some_iff.1 hevent
      cases hother
  | cancelScope other =>
      simp only [event?] at hevent
      split at hevent
      · cases hevent
      · cases hevent
  | cancelToken handle =>
      obtain ⟨other, hfound, hsame⟩ := Option.map_eq_some_iff.1 hevent
      cases hsame
      exact ⟨handle, rfl, hfound⟩
  | newToken => cases hevent
  | clone handle =>
      obtain ⟨other, _, hother⟩ := Option.map_eq_some_iff.1 hevent
      cases hother

/-- A token that is in somebody's hands is not handed out again. -/
theorem Kept.made_ne (kept : Kept count history) (possible : history.Possible event)
    (held : token ∈ history.handles) : event.made? ≠ some token := by
  intro hmade
  exact kept.fresh possible hmade (mem_mentioned_of_handles held)

/-- A cancelled token does not come back to life. -/
theorem Kept.isLive_of_record (kept : Kept count history) (possible : history.Possible event)
    (held : token ∈ history.handles) (live : (history.record event).registry.isLive token = true) :
    history.registry.isLive token = true := by
  cases kept.traced token held with
  | inl hrenewed =>
      obtain ⟨scope, handed⟩ := hrenewed
      have heldAfter := ((kept.record possible).isLive_renewed
        (List.mem_append_left [event] handed)).1 live
      apply (kept.isLive_renewed handed).2
      cases (heldBy_concat history.log event scope token).1 heldAfter with
      | inl hnow =>
          obtain ⟨rfl, _⟩ := hnow
          exact absurd rfl (kept.made_ne possible held)
      | inr hbefore => exact hbefore.2.2
  | inr made =>
      have hspared := ((kept.record possible).isLive_created
        (List.mem_append_left [event] made)).1 live
      apply (kept.isLive_created made).2
      intro hcancelled
      exact hspared (List.mem_append_left [event] hcancelled)

/-- What neither concerns the scope of a token nor cancels it leaves it as it is. -/
theorem Kept.isLive_record_of_live (kept : Kept count history) (possible : history.Possible event)
    (held : token ∈ history.handles) (live : history.registry.isLive token = true)
    (quiet : ∀ scope, .renewed scope token ∈ history.log → event.concerns scope = false)
    (sparing : event ≠ .tokenCancelled token) :
    (history.record event).registry.isLive token = true := by
  cases kept.traced token held with
  | inl hrenewed =>
      obtain ⟨scope, handed⟩ := hrenewed
      apply ((kept.record possible).isLive_renewed (List.mem_append_left [event] handed)).2
      apply (heldBy_concat history.log event scope token).2
      exact Or.inr ⟨quiet scope handed, sparing, (kept.isLive_renewed handed).1 live⟩
  | inr made =>
      apply ((kept.record possible).isLive_created (List.mem_append_left [event] made)).2
      intro hcancelled
      cases List.mem_append.1 hcancelled with
      | inl hbefore => exact (kept.isLive_created made).1 live hbefore
      | inr hnow => exact sparing (List.mem_singleton.1 hnow).symm

theorem mem_handles_perform (held : token ∈ history.handles) (call : Call) :
    token ∈ (history.perform call).handles := by
  unfold perform
  cases history.event? call with
  | none => exact held
  | some event =>
      obtain ⟨source, hsource, hhandle⟩ := List.mem_filterMap.1 held
      exact List.mem_filterMap.2 ⟨source, List.mem_append_left [event] hsource, hhandle⟩

theorem Kept.isLive_of_perform (kept : Kept count history) (held : token ∈ history.handles)
    (call : Call) (live : (history.perform call).registry.isLive token = true) :
    history.registry.isLive token = true := by
  unfold perform at live
  cases hevent : history.event? call with
  | none =>
      rw [hevent] at live
      exact live
  | some event =>
      rw [hevent] at live
      exact kept.isLive_of_record (possible_of_event? hevent) held live

theorem Kept.isLive_of_calls (kept : Kept count history) (held : token ∈ history.handles)
    (calls : List Call) (live : (calls.foldl perform history).registry.isLive token = true) :
    history.registry.isLive token = true := by
  induction calls generalizing history with
  | nil => exact live
  | cons call rest ih =>
      apply kept.isLive_of_perform held call
      exact ih (kept_perform kept call) (mem_handles_perform held call) live

theorem Kept.isLive_perform (kept : Kept count history) (held : token ∈ history.handles)
    (elsewhere : ∀ scope, call = .renew scope ∨ call = .cancelScope scope →
      .renewed scope token ∉ history.log)
    (sparing : ∀ handle, call = .cancelToken handle → history.handles[handle]? ≠ some token) :
    (history.perform call).registry.isLive token = history.registry.isLive token := by
  apply Bool.eq_iff_iff.2
  constructor
  · exact kept.isLive_of_perform held call
  · intro live
    unfold perform
    cases hevent : history.event? call with
    | none => exact live
    | some event =>
        apply kept.isLive_record_of_live (possible_of_event? hevent) held live
        · intro scope handed
          apply Bool.eq_false_iff.2
          intro hconcerns
          exact elsewhere scope (call_of_concerns hevent hconcerns) handed
        · rintro rfl
          obtain ⟨handle, hcall, hfound⟩ := call_of_tokenCancelled hevent
          exact sparing handle hcall hfound

/-- Whatever is asked of any number of scopes and of their tokens, in whatever order:
cancelled tokens stay cancelled, only the last token that a scope has handed out can be
live, the log decides which token is current, and nothing reaches over to the tokens
of other scopes. -/
theorem supersession_lawful (count : Nat) (calls : List Call) :
    Lawful count (ofCalls count calls) := by
  have kept := kept_ofCalls count calls
  constructor
  · exact kept.length_eq
  · exact ⟨kept.traced, kept.distinct⟩
  · intro token held dead later
    apply Bool.eq_false_iff.2
    intro live
    have hlive := kept.isLive_of_calls held later live
    rw [dead] at hlive
    cases hlive
  · intro scope token handed live
    have hmem := renewed_mem_of_handedOut handed
    exact ((kept.isLive_renewed hmem).1 live).getLast?_handedOut
  · intro position scope found token
    exact ⟨kept.isCurrent_iff found token, kept.current?_eq_some_iff found token⟩
  · intro position scope found
    rw [Option.eq_none_iff_forall_ne_some]
    exact forall_congr' fun token => not_congr (kept.current?_eq_some_iff found token)
  · intro token made
    exact kept.isLive_created made
  · intro call token held elsewhere sparing
    exact kept.isLive_perform held elsewhere sparing

end History

end CancelRegistry

end RegionOutline
