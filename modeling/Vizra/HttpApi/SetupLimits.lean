import Vizra.Cache.RateLimit
import Vizra.HttpApi.Setup

/-!
# The limits of the setup routes (`internal/httpapi/setup_limits.go`, `refuseToken`)

One process with the in-process limiter, and the rows that its refusals append to `audit_events`. A request
has one reading of the clock. What the handler meets between its ceiling and the limiter of failures, and
whether a row can be written, are part of the request.
-/

namespace Vizra.HttpApi

open Go Vizra.Audit Vizra.Cache

def claimRateWindow : Duration := 15 * minute

def claimFailuresPerOrigin : Nat := 10

def claimFailuresGlobal : Nat := 60

def claimOwnerCeiling : Nat := 600

def claimStatusCeiling : Nat := 3000

/-- What the handler meets after its ceiling: a refusal before `Claim`, or the result of `Claim`. -/
inductive ClaimOutcome where
  | refused (e : HandlerError)
  | created (username role : String)
  | failed (e : ClaimError)

structure ClaimRequest where
  remoteAddr : String
  xForwardedFor : String
  forwarded : String
  requestID : String
  outcome : ClaimOutcome
  -- `poolFor` returns an error
  poolFails : Bool
  -- the INSERT fails for a reason of its own
  insertFails : Bool
  now : Instant

inductive SetupRequest where
  | status (now : Instant)
  | claim (q : ClaimRequest)

def SetupRequest.now : SetupRequest → Instant
  | status now => now
  | claim q => q.now

structure Limits where
  limiter : MemoryLimiter
  -- the rows written, with the times of their requests
  audit : List (Instant × Event)

def Limits.fresh : Limits := { limiter := .fresh, audit := [] }

section

variable (cacheNamespace : String) (ipPrefix : String → Option String)

/-- `CacheKey("rl", "setup.claim", part)`. -/
def claimKey (part : String) : String := cacheNamespace ++ ":" ++ ":".intercalate ["rl", "setup.claim", part]

def clientIPPrefix (q : ClaimRequest) : Option String :=
  if q.xForwardedFor ≠ "" ∨ q.forwarded ≠ "" then none else ipPrefix q.remoteAddr

/-- The keys of the failure budget; the first is empty without an address. -/
def claimLimiterKeys (q : ClaimRequest) : String × String :=
  let globalKey := claimKey cacheNamespace "all"
  match clientIPPrefix ipPrefix q with
  | some p => (claimKey cacheNamespace p, globalKey)
  | none => ("", globalKey)

def nonEmptyString (s : String) : Option String := if s = "" then none else some s

/-- The event of an anonymous request about the token. -/
def claimEvent (q : ClaimRequest) (action : Action) (after : After) : Event :=
  { actor_kind := .anonymous, action, subject_type := .ownerClaimToken, subject_id := none, after := some after
    correlation_id := nonEmptyString q.requestID, ipPrefix := clientIPPrefix ipPrefix q }

namespace Limits

def allow (l : Limits) (key : String) (limit : Nat) (now : Instant) : Limits × Bool :=
  let called := l.limiter.allow { key, limit, window := claimRateWindow, now }
  ({ l with limiter := called.1 }, called.2.1)

def allowSetupRequest (l : Limits) (bucket : String) (limit : Nat) (now : Instant) : Limits × Bool :=
  l.allow (claimKey cacheNamespace bucket) limit now

/-- Charges the budget of the origin, if there is one, and always the global one. -/
def consumeClaimFailure (l : Limits) (q : ClaimRequest) : Limits × Bool :=
  let keys := claimLimiterKeys cacheNamespace ipPrefix q
  let origin := if keys.1 ≠ "" then l.allow keys.1 claimFailuresPerOrigin q.now else (l, true)
  let all := origin.1.allow keys.2 claimFailuresGlobal q.now
  (all.1, !origin.2 || !all.2)

/-- `Emit` for a request; a row that cannot be written is dropped. -/
def record (l : Limits) (q : ClaimRequest) (e : Event) : Limits :=
  if q.poolFails then l
  else match emit e with
    | .error _ => l
    | .ok row => if q.insertFails then l else { l with audit := l.audit ++ [(q.now, row)] }

def recordClaimRefusal (l : Limits) (q : ClaimRequest) (reason : String) : Limits :=
  l.record q (claimEvent ipPrefix q .ownerClaimRefused (.reason reason))

def claimLimitTransition (l : Limits) (now : Instant) : Limits × Bool :=
  l.allow (claimKey cacheNamespace "audited") 1 now

def recordClaimRateLimited (l : Limits) (q : ClaimRequest) (bucket : String) : Limits :=
  l.record q (claimEvent ipPrefix q .ownerClaimRateLimited (.bucket bucket))

/-- `refuseToken`, with its answer. -/
def refuseToken (l : Limits) (q : ClaimRequest) : Limits × HandlerError :=
  let consumed := l.consumeClaimFailure cacheNamespace ipPrefix q
  if consumed.2 then
    let transition := consumed.1.claimLimitTransition cacheNamespace q.now
    (if transition.2 then transition.1.recordClaimRateLimited ipPrefix q "failure" else transition.1,
      HttpApi.refuseToken true)
  else (consumed.1.recordClaimRefusal ipPrefix q reasonTokenNotAccepted, HttpApi.refuseToken false)

def handleClaimOwner (l : Limits) (q : ClaimRequest) : Limits × Reply :=
  let allowed := l.allowSetupRequest cacheNamespace "ceiling.claim" claimOwnerCeiling q.now
  if allowed.2 then
    match q.outcome with
    | .refused e => (allowed.1, .of e)
    | .created username role => (allowed.1, .created username role)
    | .failed .tokenNotAccepted =>
      let refused := allowed.1.refuseToken cacheNamespace ipPrefix q
      (refused.1, .of refused.2)
    | .failed e => (allowed.1, .of (mapClaimError false e).2)
  else (allowed.1, .of setupRateLimited)

/-- What the status route charges; its answer is of no concern here. -/
def handleClaimStatus (l : Limits) (now : Instant) : Limits × Reply :=
  let allowed := l.allowSetupRequest cacheNamespace "ceiling.status" claimStatusCeiling now
  (allowed.1, if allowed.2 then .next else .of setupRateLimited)

def handle (l : Limits) : SetupRequest → Limits × Reply
  | .status now => l.handleClaimStatus cacheNamespace now
  | .claim q => l.handleClaimOwner cacheNamespace ipPrefix q

end Limits

end

end Vizra.HttpApi
