import Vizra.HttpApi.ReadinessCache
import Vizra.Search.Service

/-!
# `/readyz` (`internal/httpapi/probes.go`)

`computeReadiness` asks the dependencies one after the other, each under a context that ends with the
request of the caller and after three seconds at the latest. A call whose context is done fails,
whatever the dependency would have answered.
-/

namespace Vizra.HttpApi.Readiness

open Go ReadinessCache Search

inductive Status where
  | ok
  | degraded
  | unavailable
  | off
deriving DecidableEq, Repr

/-- `readinessComponent`. -/
structure Component where
  name : String
  status : Status
  detail : String := ""
deriving DecidableEq, Repr

/-- `readinessResponse`. -/
structure Response where
  status : Status
  components : List Component
  checkedAt : Instant
deriving DecidableEq, Repr

/-- The fields of `Deps` that do not change: whether the optional ones are there, and the threshold of the
configuration if there is one. -/
structure Deps where
  ownerClaimDegraded : Bool
  limiter : Bool
  queueSnapshot : Bool
  queueAgeThreshold : Option Duration

/-- What the dependencies answer at a moment; an error is its text. -/
structure Answers where
  pingDatabase : Option String
  pingCache : Option String
  limiterDegraded : Bool
  healthz : RemoteClient.Ping
  -- The field `OldestQueuedAge` of the snapshot.
  queueSnapshot : Except String Duration

/-- `demote`, where `status` is that of a component. -/
def demote (worst status : Status) : Status :=
  if worst = .unavailable then worst
  else if status = .unavailable then .unavailable
  else if status = .degraded ∧ worst = .ok then .degraded
  else worst

/-- The local variables of `computeReadiness`. -/
structure Draft where
  ctx : Context
  checkedAt : Instant
  worst : Status
  components : List Component

/-- A component is added, and `worst` demoted to its status; `ok` and `off` demote nothing. -/
def Draft.report (d : Draft) (c : Component) : Draft :=
  { d with worst := demote d.worst c.status, components := d.components ++ [c] }

def Draft.response (d : Draft) : Response :=
  { status := d.worst, components := d.components, checkedAt := d.checkedAt }

/-- The points of `computeReadiness` before each of its calls. -/
inductive Pc where
  | begin (ctx : Context)
  | database (d : Draft)
  | cache (d : Draft)
  | search (d : Draft)
  | worker (d : Draft)

def canceled : String := "context canceled"

/-- The error of a call under `ctx` that would have returned `err`. -/
def under (ctx : Context) (now : Instant) (err : Option String) : Option String :=
  if ctx.live now then err else some canceled

def databaseComponent (err : Option String) : Component :=
  if err.isSome then
    { name := "database", status := .unavailable, detail := "PostgreSQL is unreachable" }
  else { name := "database", status := .ok }

def ownerClaimComponent : Component :=
  { name := "owner_claim", status := .degraded
    detail := "the owner-claim bootstrap did not complete; run `vizra doctor`" }

def cacheComponent (err : Option String) (limiterDegraded : Bool) : Component :=
  if err.isSome then
    { name := "cache", status := .degraded, detail := "cache unreachable; rate limits are per-process only" }
  else if limiterDegraded then
    { name := "cache", status := .degraded, detail := "rate limiting is running on the in-process fallback" }
  else { name := "cache", status := .ok }

/-- Without a search service there is nothing to ask. -/
def searchComponent : Option Health → Component
  | none | some .off => { name := "search", status := .off }
  | some .ok => { name := "search", status := .ok }
  | some .degraded =>
    { name := "search", status := .degraded
      detail := "search is configured but unreachable or misconfigured; results are served from SQL" }

def workerComponent (threshold : Option Duration) : Except String Duration → Component
  | .error _ => { name := "worker", status := .degraded, detail := "the job queue could not be read" }
  | .ok age =>
    if threshold.any fun t => age > t then
      { name := "worker", status := .degraded
        detail := "the oldest queued job is older than the configured threshold" }
    else { name := "worker", status := .ok }

/-- `Search.Health` under `ctx`, where `none` is a server without a search service. -/
def searchHealth (ctx : Context) (now : Instant) (healthz : RemoteClient.Ping) :
    Option Service → Option Service × Option Health
  | none => (none, none)
  | some sv =>
    let r := sv.health (if ctx.live now then healthz else .transport canceled)
    (some r.1, some r.2)

def snapshotUnder (ctx : Context) (now : Instant) (snap : Except String Duration) : Except String Duration :=
  if ctx.live now then snap else .error canceled

/-- One step of `computeReadiness`: what it does up to its next call. -/
def step (deps : Deps) (now : Instant) (service : Option Service) (pc : Pc) (e : Answers) :
    Option Service × (Pc ⊕ Response) :=
  match pc with
  | .begin ctx =>
    let ctx := ctx.withTimeout now (3 * second) none
    (service, .inl (.database { ctx, checkedAt := now, worst := .ok, components := [] }))
  | .database d =>
    let d := d.report (databaseComponent (under d.ctx now e.pingDatabase))
    (service, .inl (.cache (if deps.ownerClaimDegraded then d.report ownerClaimComponent else d)))
  | .cache d =>
    let limiterDegraded := deps.limiter && e.limiterDegraded
    (service, .inl (.search (d.report (cacheComponent (under d.ctx now e.pingCache) limiterDegraded))))
  | .search d =>
    let r := searchHealth d.ctx now e.healthz service
    let d := d.report (searchComponent r.2)
    (r.1, if deps.queueSnapshot then .inl (.worker d) else .inr d.response)
  | .worker d =>
    let snap := snapshotUnder d.ctx now e.queueSnapshot
    (service, .inr (d.report (workerComponent deps.queueAgeThreshold snap)).response)

def computeReadiness (deps : Deps) : Compute (Option Service) Pc Response Answers where
  start := .begin
  step := step deps

/-- The states and the steps of the cache with this computation. -/
abbrev State := ReadinessCache.St (Option Service) Pc Response

abbrev Event := ReadinessCache.Label (Option Service) Answers

/-- The `ttl` with which `New` makes the cache. -/
def readinessTTL : Duration := 2 * second

/-- `handleReadyz`: the status code and the body, where `resp` is what `Get` returns. -/
def handleReadyz (draining : Bool) (now : Instant) (resp : Response) : Nat × Response :=
  if draining then
    (503,
      { status := .unavailable
        components := [{ name := "database", status := .ok, detail := "the process is draining" }]
        checkedAt := now })
  else (if resp.status = .unavailable then 503 else 200, resp)

end Vizra.HttpApi.Readiness
