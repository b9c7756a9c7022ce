/-! # Cancellation by supersession

A scope hands out tokens one after the other; a new token cancels the one before
it. Work carries its token and is worth finishing only while that token is
live. Tokens are plain identities, and each scope remembers which of its own are
cancelled. -/

namespace RegionOutline

/-- A token, named by the scope that handed it out and its number there. -/
structure Token where
  scope : Nat
  serial : Nat
  deriving DecidableEq

structure CancelScope where
  id : Nat
  /-- For each token handed out, in order, whether it is cancelled. -/
  cancelled : Array Bool := #[]
  /-- The number of the token that is outstanding. -/
  outstanding : Option Nat := none
  deriving DecidableEq

namespace CancelScope

/-- Whether a token was handed out here and is not cancelled. -/
def isLive (scope : CancelScope) (token : Token) : Bool :=
  token.scope == scope.id && scope.cancelled[token.serial]? == some false

/-- Mark a token of this scope cancelled; tokens of other scopes mean nothing
here. -/
def cancelToken (scope : CancelScope) (token : Token) : CancelScope :=
  if token.scope = scope.id then
    { scope with cancelled := scope.cancelled.setIfInBounds token.serial true }
  else scope

/-- Cancel the outstanding token, if there is one. -/
def cancel (scope : CancelScope) : CancelScope :=
  match scope.outstanding with
  | none => scope
  | some serial =>
      { scope with
        cancelled := scope.cancelled.setIfInBounds serial true
        outstanding := none }

/-- The token handed out next. -/
def nextToken (scope : CancelScope) : Token :=
  ⟨scope.id, scope.cancelled.size⟩

/-- The scope after handing out a token that supersedes no other. -/
def issue (scope : CancelScope) : CancelScope :=
  { scope with cancelled := scope.cancelled.push false }

/-- The scope after cancelling the outstanding token and handing out the next
one in its place. -/
def renew (scope : CancelScope) : CancelScope :=
  { scope.cancel.issue with outstanding := some scope.cancelled.size }

/-- Whether a token is the outstanding one and not cancelled. -/
def isCurrent (scope : CancelScope) (token : Token) : Bool :=
  scope.outstanding == some token.serial && scope.isLive token

/-- The outstanding token, unless it is cancelled. -/
def current? (scope : CancelScope) : Option Token :=
  (scope.outstanding.map (Token.mk scope.id)).filter scope.isLive

end CancelScope

/-- Any number of scopes side by side, and one that hands out free-standing
tokens. The scope at position `k` has the identity `k`. -/
structure CancelRegistry where
  scopes : List CancelScope
  loose : CancelScope
  deriving DecidableEq

namespace CancelRegistry

def ofCount (count : Nat) : CancelRegistry :=
  ⟨(List.range count).map fun id => { id }, { id := count }⟩

def renew (registry : CancelRegistry) (scope : Nat) : CancelRegistry :=
  { registry with scopes := registry.scopes.modify scope CancelScope.renew }

def cancelScope (registry : CancelRegistry) (scope : Nat) : CancelRegistry :=
  { registry with scopes := registry.scopes.modify scope CancelScope.cancel }

def cancelToken (registry : CancelRegistry) (token : Token) : CancelRegistry :=
  ⟨registry.scopes.map (·.cancelToken token), registry.loose.cancelToken token⟩

/-- Hand out a free-standing token. -/
def issue (registry : CancelRegistry) : CancelRegistry :=
  { registry with loose := registry.loose.issue }

def isLive (registry : CancelRegistry) (token : Token) : Bool :=
  registry.scopes.any (·.isLive token) || registry.loose.isLive token

end CancelRegistry

end RegionOutline
