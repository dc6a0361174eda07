import Echadron.Lib.Runs
import Mathlib.Data.List.Perm.Basic

namespace Echadron.OAuth
open Lib

/-! Token transactions of one key: several instances, each with effects that it remembers, over one storage. The lock
makes each operation one step; steps are numbered. -/

structure OAuthTokens (Refresh Fields : Type) where
  refreshToken : Option Refresh
  fields : Fields
deriving DecidableEq

inductive GrantType where
  | refreshToken
  | authorizationCode
deriving DecidableEq

inductive GrantError where
  | invalidGrant
  | invalidClient
  | unauthorizedClient
  | other
deriving DecidableEq

inductive Effect (Refresh Fields : Type) where
  | save (tokens : OAuthTokens Refresh Fields)
  | invalidate (grantType : GrantType) (error : GrantError) (tokensAtFailure : Option (OAuthTokens Refresh Fields))
      (alreadyRemoved preserveCurrent : Bool)
deriving DecidableEq

inductive InvalidateScope where
  | tokens
  | all
deriving DecidableEq

/-- What the server answers; a payload is absent where it is no JSON object. -/
inductive TokenResponse (Refresh Fields : Type) where
  | failed (error : GrantError)
  | ok (payload : Option (OAuthTokens Refresh Fields))
deriving DecidableEq

/-- `stored` is what is read back when tokens were written in a step. -/
structure TransactionOptions (Refresh Fields : Type) where
  parse : OAuthTokens Refresh Fields → Option (OAuthTokens Refresh Fields)
  normalize : OAuthTokens Refresh Fields → OAuthTokens Refresh Fields
  stored : Nat → OAuthTokens Refresh Fields → OAuthTokens Refresh Fields

/-- A grant that the SDK has not reported yet; `effect` is what the transaction remembered of it, absent where the
response was not committed. -/
structure TransactionGrant (Instance Refresh Fields : Type) where
  number : Nat
  owner : Instance
  effect : Option (Effect Refresh Fields)
deriving DecidableEq

inductive TransactionRecord (Refresh : Type) where
  | forwarded (requested stored : Option Refresh)
  | cleared (number : Nat)
  /-- The callback of a grant has changed what the step `madeBy` had made current. -/
  | wrote (grant madeBy : Nat) (committed : Bool)
  | removed (grant madeBy : Nat)
deriving DecidableEq

structure Transactions (Instance Refresh Fields : Type) where
  storage : Option (OAuthTokens Refresh Fields) := none
  madeBy : Nat := 0
  clock : Nat := 1
  effects : Instance → List (Effect Refresh Fields) := fun _ => []
  waiting : List (TransactionGrant Instance Refresh Fields) := []
  trace : List (TransactionRecord Refresh) := []

/-- `reportSave` and `reportFailure` are the SDK's callbacks for a grant; `invalidate` is one for another failure. -/
inductive TransactionEvent (Instance Refresh Fields : Type) where
  | grant (owner : Instance) (grantType : GrantType) (requested : Option Refresh)
      (response : TokenResponse Refresh Fields)
  | reportSave (grant : Nat) (tokens : OAuthTokens Refresh Fields)
  | reportFailure (grant : Nat)
  | invalidate (owner : Instance) (scope : InvalidateScope)
  | clear
deriving DecidableEq

def TransactionRecord.isClearAfter (grant : Nat) : TransactionRecord Refresh → Bool
  | .cleared number => grant < number
  | _ => false

variable {Instance Refresh Fields : Type} [DecidableEq Instance] [DecidableEq Refresh] [DecidableEq Fields]

def refreshToken (tokens : Option (OAuthTokens Refresh Fields)) : Option Refresh :=
  tokens.bind OAuthTokens.refreshToken

def sameRefreshSave (expected actual : OAuthTokens Refresh Fields) : Bool :=
  expected.refreshToken.isSome && actual.refreshToken.isNone && expected.fields = actual.fields

namespace Effect

def isSave : Effect Refresh Fields → Bool
  | .save _ => true
  | .invalidate .. => false

def matchesSave (o : TransactionOptions Refresh Fields) (tokens : OAuthTokens Refresh Fields) :
    Effect Refresh Fields → Bool
  | .save expected => o.normalize expected = o.normalize tokens ||
    sameRefreshSave (o.normalize expected) (o.normalize tokens)
  | .invalidate .. => false

def isIn (scope : InvalidateScope) : Effect Refresh Fields → Bool
  | .save _ => false
  | .invalidate _ error _ _ _ =>
    match scope with
    | .tokens => error = .invalidGrant
    | .all => error = .invalidClient || error = .unauthorizedClient

def tokensAtFailure : Effect Refresh Fields → Option (OAuthTokens Refresh Fields)
  | .save _ => none
  | .invalidate _ _ tokens _ _ => tokens

end Effect

def GrantError.scope : GrantError → InvalidateScope
  | .invalidGrant => .tokens
  | _ => .all

namespace Transactions

section

variable (s : Transactions Instance Refresh Fields)

def remember (owner : Instance) (effect : Effect Refresh Fields) : Transactions Instance Refresh Fields :=
  { s with
    effects := fun i => if i = owner then s.effects i ++ [effect] else s.effects i
    waiting := s.waiting ++ [⟨s.clock, owner, some effect⟩] }

def passOn (owner : Instance) : Transactions Instance Refresh Fields :=
  { s with waiting := s.waiting ++ [⟨s.clock, owner, none⟩] }

/-- Storage is changed by this step. -/
def put (tokens : Option (OAuthTokens Refresh Fields)) :
    Transactions Instance Refresh Fields := { s with storage := tokens, madeBy := s.clock }

def record (r : TransactionRecord Refresh) :
    Transactions Instance Refresh Fields := { s with trace := s.trace ++ [r] }

def resolveRefreshWinner (requested : Option Refresh) : Option (Effect Refresh Fields) :=
  if refreshToken s.storage = requested then none
  else
    match s.storage with
    | none => some (.invalidate .refreshToken .invalidGrant none true false)
    | some current =>
      if current.refreshToken.isNone then
        some (.invalidate .refreshToken .invalidGrant (some current) false true)
      else some (.save current)

end

section

variable (o : TransactionOptions Refresh Fields)

/-- The tokens that a response commits. -/
def committed (grantType : GrantType) (requested : Option Refresh)
    (payload : Option (OAuthTokens Refresh Fields)) : Option (OAuthTokens Refresh Fields) :=
  (payload.bind o.parse).map fun parsed =>
    if grantType = .refreshToken ∧ parsed.refreshToken = none then
      (o.parse { parsed with refreshToken := requested }).getD parsed
    else parsed

section

variable (s : Transactions Instance Refresh Fields) (owner : Instance) (grantType : GrantType)
  (requested : Option Refresh)

def commitResponse : TokenResponse Refresh Fields → Transactions Instance Refresh Fields
  | .failed .other => s
  | .failed error =>
    if grantType = .refreshToken ∧ error = .invalidGrant ∧ refreshToken s.storage = requested then
      (s.put none).remember owner (.invalidate grantType error s.storage true false)
    else s.remember owner (.invalidate grantType error s.storage false false)
  | .ok payload =>
    match committed o grantType requested payload with
    | none => s.passOn owner
    | some tokens => (s.put (some (o.stored s.clock tokens))).remember owner (.save tokens)

def runTokenRequest (response : TokenResponse Refresh Fields) : Transactions Instance Refresh Fields :=
  match grantType with
  | .authorizationCode => s.commitResponse o owner .authorizationCode none response
  | .refreshToken =>
    match s.resolveRefreshWinner requested with
    | some winner => s.remember owner winner
    | none =>
      let s := s.record (.forwarded requested (refreshToken s.storage))
      match s.resolveRefreshWinner requested with
      | some winner => s.remember owner winner
      | none => s.commitResponse o owner .refreshToken requested response

end

end

def forget (s : Transactions Instance Refresh Fields) (owner : Instance) (p : Effect Refresh Fields → Bool) :
    Transactions Instance Refresh Fields :=
  { s with effects := fun i => if i = owner then (s.effects i).eraseP p else s.effects i }

def save (o : TransactionOptions Refresh Fields) (s : Transactions Instance Refresh Fields)
    (g : TransactionGrant Instance Refresh Fields) (tokens : OAuthTokens Refresh Fields) :
    Transactions Instance Refresh Fields :=
  if (s.effects g.owner).any (Effect.matchesSave o tokens) then s.forget g.owner (Effect.matchesSave o tokens)
  else (s.put (some (o.stored s.clock tokens))).record (.wrote g.number s.madeBy g.effect.isSome)

section

variable (s : Transactions Instance Refresh Fields)

/-- Whether storage is removed for a remembered failure. -/
def removesFor : Effect Refresh Fields → Bool
  | .save _ => false
  | .invalidate grantType error tokensAtFailure alreadyRemoved preserveCurrent =>
    !preserveCurrent && !(grantType = .authorizationCode && error = .invalidGrant) && !alreadyRemoved &&
      s.storage = tokensAtFailure

def invalidateFromSdk (owner : Instance) (grant : Option Nat)
    (scope : InvalidateScope) : Transactions Instance Refresh Fields :=
  match (s.effects owner).find? (Effect.isIn scope) with
  | none => s
  | some effect =>
    let after := s.forget owner (Effect.isIn scope)
    if s.removesFor effect then
      match grant with
      | some number => if s.storage.isSome then (after.put none).record (.removed number s.madeBy) else after.put none
      | none => after.put none
    else after

def clear : Transactions Instance Refresh Fields := (s.put none).record (.cleared s.clock)

def findWaiting (number : Nat) :
    Option (TransactionGrant Instance Refresh Fields) := s.waiting.find? fun g => g.number = number

def reported (number : Nat) : Transactions Instance Refresh Fields :=
  { s with waiting := s.waiting.filter fun g => g.number ≠ number }

end

section

variable (o : TransactionOptions Refresh Fields) (s : Transactions Instance Refresh Fields)

/-- What a step does to the state; absent where the event cannot happen. -/
def act : TransactionEvent Instance Refresh Fields → Option (Transactions Instance Refresh Fields)
  | .grant owner grantType requested response => some (s.runTokenRequest o owner grantType requested response)
  | .reportSave grant tokens =>
    (s.findWaiting grant).bind fun g =>
      match g.effect with
      | some (.invalidate ..) => none
      | _ => some ((s.save o g tokens).reported grant)
  | .reportFailure grant =>
    (s.findWaiting grant).bind fun g =>
      match g.effect with
      | some (.invalidate _ error _ _ _) =>
        some ((s.invalidateFromSdk g.owner (some grant) error.scope).reported grant)
      | _ => none
  | .invalidate owner scope => some (s.invalidateFromSdk owner none scope)
  | .clear => some s.clear

def step (e : TransactionEvent Instance Refresh Fields) : Option (Transactions Instance Refresh Fields) :=
  (s.act o e).map fun after => { after with clock := s.clock + 1 }

end

/-- Tokens that become current are none that a failed client found when its grant failed, as long as the SDK has not
reported the failure. -/
def Fresh (s : Transactions Instance Refresh Fields) (tokens : OAuthTokens Refresh Fields) : Prop :=
  ∀ g ∈ s.waiting, ∀ effect ∈ g.effect, effect.isIn .all = true → effect.tokensAtFailure ≠ some tokens

section

variable (o : TransactionOptions Refresh Fields) (s : Transactions Instance Refresh Fields)

/-- The save of a grant answers to what is remembered of the grant, and to nothing else that is remembered. -/
def SaveUndisturbed (tokens : OAuthTokens Refresh Fields) (g : TransactionGrant Instance Refresh Fields) : Prop :=
  (∀ own ∈ g.effect, own.matchesSave o tokens = true ∧
    ∀ effect ∈ s.effects g.owner, effect.matchesSave o tokens = true → effect = own) ∧
  (g.effect = none → s.Fresh (o.stored s.clock tokens) ∧
    (∀ effect ∈ s.effects g.owner, effect.matchesSave o tokens = false) ∧
    ∀ r ∈ s.trace, r.isClearAfter g.number = false)

/-- Callbacks are not mistaken for those of other grants. -/
def Undisturbed : TransactionEvent Instance Refresh Fields → Prop
  | .grant _ grantType requested (.ok payload) => (grantType = .refreshToken → refreshToken s.storage = requested) →
    ∀ tokens ∈ committed o grantType requested payload, s.Fresh (o.stored s.clock tokens)
  | .reportSave grant tokens => ∀ g ∈ s.findWaiting grant, s.SaveUndisturbed o tokens g
  | .reportFailure grant => ∀ g ∈ s.findWaiting grant, ∀ own ∈ g.effect, own.isIn .all = true →
    ∀ effect ∈ (s.effects g.owner).find? (Effect.isIn .all), effect.tokensAtFailure = own.tokensAtFailure
  | _ => True

end

instance (s : Transactions Instance Refresh Fields) (tokens : OAuthTokens Refresh Fields) :
    Decidable (s.Fresh tokens) :=
  inferInstanceAs (Decidable (∀ g ∈ s.waiting, ∀ effect ∈ g.effect, effect.isIn .all = true → _))

instance (o : TransactionOptions Refresh Fields) (s : Transactions Instance Refresh Fields)
    (tokens : OAuthTokens Refresh Fields) (g : TransactionGrant Instance Refresh Fields) :
    Decidable (s.SaveUndisturbed o tokens g) := inferInstanceAs (Decidable (_ ∧ _))

instance (o : TransactionOptions Refresh Fields) (s : Transactions Instance Refresh Fields)
    (e : TransactionEvent Instance Refresh Fields) : Decidable (s.Undisturbed o e) :=
  match e with
  | .grant _ _ _ (.ok _) => inferInstanceAs (Decidable (_ → _))
  | .grant _ _ _ (.failed _) | .invalidate _ _ | .clear => isTrue trivial
  | .reportSave grant tokens => inferInstanceAs (Decidable (∀ g ∈ s.findWaiting grant, s.SaveUndisturbed o tokens g))
  | .reportFailure grant => inferInstanceAs (Decidable (∀ g ∈ s.findWaiting grant, ∀ own ∈ g.effect, _ → _))

end Transactions

/-- What a record of the history may follow: a refresh is forwarded with the stored refresh token, the callback of a
committed grant changes only what was made current before the grant, and no callback restores tokens that were cleared
after its grant. -/
def LawfulTransaction (before : List (TransactionRecord Refresh)) : TransactionRecord Refresh → Prop
  | .forwarded requested stored => requested = stored
  | .wrote grant madeBy committed => (committed = true → madeBy ≤ grant) ∧ ∀ number, .cleared number ∈ before → number ≤ grant
  | .removed grant madeBy => madeBy ≤ grant
  | .cleared _ => True

end Echadron.OAuth
