import Vizra.HttpApi.Errors

/-!
# The claimed guard and the setup routes of one server (`internal/httpapi/setup.go`)

`claimedCache` is two atomics, so the requests of a server interleave between any two accesses: a request
is at a program counter, and `Server.advance` is its next access to the clock, to the cache or to the
database. The database is the owner-claim system, whose other calls are those of other replicas and of
the command line; its clock and that of the server are separate. What a request meets on its way and does
not decide itself (the limiter's answers, a failing lookup, a body that is refused) is part of `Request`.
-/

namespace Vizra.HttpApi

open Go Vizra.OwnerClaim

def pathSetupClaimStatus : String := "/api/v1/setup/claim-status"

def pathSetupClaimOwner : String := "/api/v1/setup/claim-owner"

/-- What an unclaimed instance serves. -/
def claimExemptRoutes : List String :=
  ["GET /healthz", "GET /readyz", "GET /version", "GET /schemaz", "GET " ++ pathSetupClaimStatus,
    "POST " ++ pathSetupClaimOwner]

/-! ## The cache -/

/-- `claimedCache`; `mu` is zero until the first negative lookup. -/
structure ClaimedCache where
  claimed : Bool := false
  mu : Instant := 0
deriving DecidableEq

def claimedNegativeTTL : Duration := second

/-- The second half of `get`, after the load of `claimed`. -/
def ClaimedCache.fresh (cc : ClaimedCache) (now : Instant) : Bool :=
  cc.mu ≠ 0 && now - cc.mu < claimedNegativeTTL

def ClaimedCache.set (cc : ClaimedCache) (claimed : Bool) (now : Instant) : ClaimedCache :=
  if claimed then { cc with claimed := true } else { cc with mu := now }

/-! ## Requests -/

structure Request where
  method : String
  path : String
  -- The answer of `allowSetupRequest`.
  allowed : Bool := true
  -- `lookupClaimed` returns an error.
  lookupFails : Bool := false
  -- What the media type, the body, the origin and the pool are refused with, if they are.
  refused : Option CodedError := none
  -- The call of `Claim` that the body makes, and its number among the calls of the database.
  claim : ClaimCall
  call : Nat
  -- The answer of `consumeClaimFailure`.
  limited : Bool := false

inductive Route where
  | status
  | claimOwner
  | probe
  | guarded
deriving DecidableEq, Repr

def Request.route (q : Request) : Route :=
  let key := q.method ++ " " ++ q.path
  if key ∈ claimExemptRoutes then
    if q.path = pathSetupClaimStatus then .status
    else if q.path = pathSetupClaimOwner then .claimOwner
    else .probe
  else .guarded

inductive Reply where
  -- The request goes on to what the guard does not concern.
  | next
  | claimed (claimed : Bool)
  | created (username role : String)
  | error (e : CodedError)
deriving DecidableEq

def Reply.of (e : HandlerError) : Reply := .error (errorHandler e)

/-- What `handleClaimOwner` does with the result of `Claim`: whether it caches the claimed bit, and its
reply. -/
def claimReply (limited : Bool) (r : Result) : Bool × Reply :=
  match claimError r, r with
  | none, .claimed _ username role _ => (true, .created username role.text)
  | none, _ => (false, Reply.of .other)
  | some e, _ => ((mapClaimError limited e).1, Reply.of (mapClaimError limited e).2)

inductive Pc where
  | arrived
  -- `instanceClaimed`, before its first line.
  | clock
  | loadClaimed (now : Instant)
  | loadMu (now : Instant)
  | lookup (now : Instant)
  | store (now : Instant) (claimed : Bool)
  -- `instanceClaimed` has returned what it found at `now`.
  | answered (now : Instant) (claimed : Bool)
  -- `handleClaimStatus` before its own `set`, and with the time it reads for it.
  | stamp (claimed : Bool)
  | storeStamp (now : Instant) (claimed : Bool)
  | redeem
  | claiming
  | storeClaimed (reply : Reply)
  | done (reply : Reply)
deriving DecidableEq

structure Server where
  now : Instant
  cache : ClaimedCache
  db : St
  -- The lookups that were answered, with the time and the answer of each.
  lookups : List (Instant × Bool)
  requests : Nat → Option (Request × Pc)

/-- A server that starts on a database. -/
def Server.init (now : Instant) (db : St) : Server :=
  { now, cache := {}, db, lookups := [], requests := fun _ => none }

def setupRateLimited : HandlerError :=
  rateLimited "too many requests to the setup endpoint; try again shortly"

def instanceUnclaimed : HandlerError :=
  .coded
    { status := 403, code := "instance_unclaimed"
      message := "this instance has no owner yet; every other route is refused until it is claimed" }

section

variable (env : Env)

/-- The next access of a request, and where it is then; `none` while it waits for `Claim` or is done. -/
def Server.advance (s : Server) (q : Request) : Pc → Option (Server × Pc)
  | .arrived =>
    match q.route with
    | .probe => some (s, .done .next)
    | .guarded => some (s, .clock)
    | .status | .claimOwner =>
      if q.allowed then some (s, .clock) else some (s, .done (.of setupRateLimited))
  | .clock => some (s, .loadClaimed s.now)
  | .loadClaimed now =>
    if s.cache.claimed then some (s, .answered now true) else some (s, .loadMu now)
  -- `get` loads the two fields of the cache one after the other
  | .loadMu now => if s.cache.fresh now then some (s, .answered now false) else some (s, .lookup now)
  | .lookup now =>
    if q.lookupFails then some (s, .done (.of (unavailable "the instance state could not be read")))
    else
      let claimed := anyUserExists s.db.db
      some ({ s with lookups := (s.now, claimed) :: s.lookups }, .store now claimed)
  -- stamped with the time read before the lookup
  | .store now claimed => some ({ s with cache := s.cache.set claimed now }, .answered now claimed)
  | .answered _ claimed =>
    match q.route with
    | .probe | .guarded => some (s, .done (if claimed then .next else .of instanceUnclaimed))
    | .status => some (s, .stamp claimed)
    | .claimOwner =>
      if claimed then some (s, .done (.of (conflict claimedMessage)))
      else match q.refused with
        | some e => some (s, .done (.of (.coded e)))
        | none => some (s, .redeem)
  | .stamp claimed => some (s, .storeStamp s.now claimed)
  -- stamped again, with a later time and without a lookup
  | .storeStamp now claimed =>
    some ({ s with cache := s.cache.set claimed now }, .done (.claimed claimed))
  | .redeem =>
    (s.db.step env (.spawn q.call (.claim q.claim))).map fun db => ({ s with db }, .claiming)
  | .claiming =>
    match s.db.procs q.call with
    | .done r =>
      let (caches, reply) := claimReply q.limited r
      some (s, if caches then .storeClaimed reply else .done reply)
    | _ => none
  | .storeClaimed reply => some ({ s with cache := s.cache.set true s.now }, .done reply)
  | .done _ => none

inductive Label where
  | tick (d : Nat)
  -- A step of the database: of a call of this server, of another replica or of the command line.
  | db (l : OwnerClaim.Label)
  | arrive (i : Nat) (q : Request)
  -- Request `i` takes its next step.
  | exec (i : Nat)

def Server.step (s : Server) : Label → Option Server
  | .tick d => some { s with now := s.now + d }
  | .db l => (s.db.step env l).map fun db => { s with db }
  | .arrive i q =>
    match s.requests i with
    | none => some { s with requests := Function.update s.requests i (some (q, .arrived)) }
    | some _ => none
  | .exec i =>
    (s.requests i).bind fun (q, pc) => (s.advance env q pc).map fun (t, pc) =>
      { t with requests := Function.update s.requests i (some (q, pc)) }

/-- Runs whose steps meet `G`. -/
abbrev Server.Run (G : Server → Label → Prop) (s : Server) (ls : List Label) (t : Server) : Prop :=
  Lts.Run (Lts.guarded G (Lts.graph (Server.step env))) s ls t

end

end Vizra.HttpApi
