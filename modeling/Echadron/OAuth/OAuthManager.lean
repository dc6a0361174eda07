import Echadron.Lib.Runs

namespace Echadron.OAuth
open Lib

/-! The managers of one provider's token, in several processes over one token store. -/

structure TokenInfo where
  accessToken : String
  refreshToken : String
  expiresAt : Int
  scope : String
  tokenType : String
  expiresIn : Int
deriving DecidableEq

inductive TokenState where
  | valid (token : TokenInfo)
  | revoked (scope tokenType : String)
  | missing
deriving DecidableEq

def classifyToken : Option TokenInfo → TokenState
  | none => .missing
  | some token => if token.accessToken.length = 0 then .revoked token.scope token.tokenType else .valid token

def revokedTombstone (prior : TokenInfo) : TokenInfo :=
  { accessToken := "", refreshToken := "", expiresAt := 0, scope := prior.scope,
    tokenType := prior.tokenType, expiresIn := 0 }

inductive OAuthError where
  | unauthorized (message : String)
  | other (message : String)
deriving DecidableEq

/-- How a promise of an access token settles. -/
inductive Outcome where
  | accessToken (token : String)
  | failed (error : OAuthError)
deriving DecidableEq

inductive RefreshResponse where
  | refreshed (token : TokenInfo)
  | failed (error : OAuthError)
deriving DecidableEq

/-- Where a call of `doEnsureFresh` has got to. -/
inductive Phase where
  | loading
  | acquiring (token : TokenInfo)
  | locked (token : TokenInfo)
  | refreshing (activeToken : TokenInfo)
  | saving (refreshed : TokenInfo)
  | rejected (activeToken : TokenInfo) (message : String)
  | tombstoning (activeToken : TokenInfo) (message : String)
  | releasing (outcome : Outcome)
  | settled (outcome : Outcome)
  /-- The slot of the manager has been cleared as well. -/
  | finished (outcome : Outcome)
deriving DecidableEq

structure Call where
  manager : Nat
  force : Bool
  phase : Phase
deriving DecidableEq

structure OAuthManager where
  /-- The call that `inFlightRefresh` holds. -/
  inFlightRefresh : Option Nat := none
  /-- The calls that forced callers wait for before they start their own. -/
  queued : List Nat := []
deriving DecidableEq

/-- The options of the managers that the calls read. -/
structure OAuthManagerOptions where
  name : String
  refreshThreshold : Nat → Int → Int

namespace OAuthManagerOptions

variable (options : OAuthManagerOptions)

def noToken : OAuthError := .unauthorized ("No token for \"" ++ options.name ++ "\". Run /login to authenticate.")

def tokenRejected : OAuthError :=
  .unauthorized ("Stored token for \"" ++ options.name ++ "\" was rejected; re-login required.")

def noRefreshToken : OAuthError :=
  .unauthorized ("Token for \"" ++ options.name ++ "\" has no refresh_token; re-login required.")

def lockUnavailable (message : String) : OAuthError :=
  .other ("Unable to acquire OAuth refresh lock for \"" ++ options.name ++ "\": " ++ message)

def shouldRefreshToken (manager : Nat) (now : Int) (token : TokenInfo) (force : Bool) : Bool :=
  if force then true
  else if token.expiresAt = 0 then false
  else token.expiresAt - now < options.refreshThreshold manager token.expiresIn

/-- The first read, before the lock. -/
def afterLoad (call : Call) (now : Int) (stored : Option TokenInfo) : Phase :=
  match classifyToken stored with
  | .missing => .settled (.failed options.noToken)
  | .revoked _ _ => .settled (.failed options.tokenRejected)
  | .valid token =>
    if options.shouldRefreshToken call.manager now token call.force then .acquiring token
    else .settled (.accessToken token.accessToken)

def changedWhileWaiting (after token : TokenInfo) : Bool :=
  after.refreshToken ≠ token.refreshToken || after.accessToken ≠ token.accessToken ||
    after.expiresAt ≠ token.expiresAt || after.expiresIn ≠ token.expiresIn

def refresh (activeToken : TokenInfo) : Phase :=
  if activeToken.refreshToken.length = 0 then .releasing (.failed options.noRefreshToken)
  else .refreshing activeToken

/-- The second read, under the lock; `token` is what the first one found. -/
def afterLock (call : Call) (now : Int) (token : TokenInfo) (stored : Option TokenInfo) : Phase :=
  match classifyToken stored with
  | .revoked _ _ => .releasing (.failed options.tokenRejected)
  -- the file was removed in between: the snapshot from before the lock is refreshed
  | .missing => options.refresh token
  | .valid after =>
    if options.shouldRefreshToken call.manager now after call.force = false then
      .releasing (.accessToken after.accessToken)
    else if call.force && changedWhileWaiting after token then .releasing (.accessToken after.accessToken)
    else options.refresh after

end OAuthManagerOptions

def afterResponse (activeToken : TokenInfo) : RefreshResponse → Phase
  | .refreshed token => .saving token
  | .failed (.unauthorized message) => .rejected activeToken message
  | .failed (.other message) => .releasing (.failed (.other message))

/-- The read after a rejection: a peer may have rotated the token. -/
def afterRejection (activeToken : TokenInfo) (message : String) (stored : Option TokenInfo) : Phase :=
  match classifyToken stored with
  | .valid token =>
    if token.refreshToken ≠ activeToken.refreshToken then .releasing (.accessToken token.accessToken)
    else .tombstoning activeToken message
  | .revoked _ _ => .tombstoning activeToken message
  | .missing => .tombstoning activeToken message

/-- The store, the lock and all managers with their calls. -/
structure Refreshes where
  store : Option TokenInfo
  lock : Option Nat := none
  managers : List OAuthManager
  calls : List Call := []
  /-- The refresh tokens that have been exchanged and not been handed out again since. -/
  spent : List String := []
deriving DecidableEq

namespace Refreshes

variable (options : OAuthManagerOptions) (s : Refreshes)

def phase? (c : Nat) : Option Phase := s.calls[c]?.map Call.phase

def setPhase (c : Nat) (phase : Phase) : Refreshes :=
  { s with calls := s.calls.modify c fun call => { call with phase } }

def start (m : Nat) (force : Bool) : Refreshes :=
  { s with
    calls := s.calls ++ [{ manager := m, force, phase := .loading }]
    managers := s.managers.modify m fun manager => { manager with inFlightRefresh := some s.calls.length } }

/-- A caller shares the call in flight; only a forced one cannot be content with an unforced one. -/
def ensureFresh (m : Nat) (force : Bool) : Option Refreshes := do
  let manager ← s.managers[m]?
  match manager.inFlightRefresh with
  | none => some (s.start m force)
  | some c =>
    let current ← s.calls[c]?
    if !force || current.force then some s
    else some { s with managers := s.managers.modify m fun manager => { manager with queued := manager.queued ++ [c] } }

def clearSlot (c : Nat) (call : Call) : Refreshes :=
  { s with
    managers := s.managers.modify call.manager fun manager =>
      if manager.inFlightRefresh = some c then { manager with inFlightRefresh := none } else manager }

def put (token : TokenInfo) : Refreshes :=
  { s with store := some token, spent := s.spent.filter (· ≠ token.refreshToken) }

/-- The provider has taken one refresh token and handed out another. -/
def exchange (activeToken refreshed : TokenInfo) : Refreshes :=
  { s with spent := (activeToken.refreshToken :: s.spent).filter (· ≠ refreshed.refreshToken) }

def save (c : Nat) (token : TokenInfo) (outcome : Outcome) : Refreshes :=
  { s.setPhase c (.releasing outcome) with store := some token }

/-- What can happen to a call under way. -/
inductive CallEvent where
  | load (now : Int)
  | acquire
  | acquireFailed (message : String)
  | reread (now : Int)
  | respond (response : RefreshResponse)
  | save
  | recover
  | tombstone
  | release
  | cleanUp

inductive Event where
  | ensureFresh (m : Nat) (force : Bool)
  /-- A forced caller whose awaited call has settled. -/
  | resume (m n : Nat)
  | call (c : Nat) (event : CallEvent)
  /-- The poll of a device flow has succeeded. -/
  | login (token : TokenInfo)
  | saveToken (token : TokenInfo)
  | logout

def resume (m n : Nat) : Option Refreshes := do
  let manager ← s.managers[m]?
  let c ← manager.queued[n]?
  match s.phase? c with
  | some (.finished _) =>
    ensureFresh { s with managers := s.managers.set m { manager with queued := manager.queued.eraseIdx n } } m true
  | _ => none

def callStep (c : Nat) (call : Call) (event : CallEvent) : Option Refreshes :=
  match call.phase, event with
  | .loading, .load now => some (s.setPhase c (options.afterLoad call now s.store))
  | .acquiring token, .acquire =>
    if s.lock = none then some { s.setPhase c (.locked token) with lock := some c } else none
  | .acquiring _, .acquireFailed message =>
    some (s.setPhase c (.settled (.failed (options.lockUnavailable message))))
  | .locked token, .reread now => some (s.setPhase c (options.afterLock call now token s.store))
  | .refreshing activeToken, .respond (.refreshed refreshed) =>
    some ((s.exchange activeToken refreshed).setPhase c (afterResponse activeToken (.refreshed refreshed)))
  | .refreshing activeToken, .respond (.failed error) =>
    some (s.setPhase c (afterResponse activeToken (.failed error)))
  | .saving refreshed, .save => some (s.save c refreshed (.accessToken refreshed.accessToken))
  | .rejected activeToken message, .recover => some (s.setPhase c (afterRejection activeToken message s.store))
  | .tombstoning activeToken message, .tombstone =>
    some (s.save c (revokedTombstone activeToken) (.failed (.unauthorized message)))
  | .releasing outcome, .release => some { s.setPhase c (.settled outcome) with lock := none }
  | .settled outcome, .cleanUp => some ((s.clearSlot c call).setPhase c (.finished outcome))
  | _, _ => none

def step : Event → Option Refreshes
  | .ensureFresh m force => s.ensureFresh m force
  | .resume m n => s.resume m n
  | .call c event => s.calls[c]?.bind fun call => s.callStep options c call event
  | .login token => some (s.put token)
  | .saveToken token => some (s.put token)
  | .logout => some { s with store := none }

def run (events : List Event) : Option Refreshes := events.foldlM (step options) s

end Refreshes
end Echadron.OAuth
