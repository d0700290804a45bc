import Vizra.Jobs.Worker

/-!
# The worker's readiness (`internal/jobs/health.go`)

`Health` records what the claim loops do and `Health.report` is the body of the worker's `/readyz`. A zero
`time.Time` is `none`; the reading of the clock is an argument.
-/

namespace Vizra.Jobs

open Go

structure SiteProgress where
  lastProgress : Option Instant
  lastClaimOK : Option Instant
  saturated : Bool
deriving DecidableEq, Repr

def SiteProgress.zero : SiteProgress := { lastProgress := none, lastClaimOK := none, saturated := false }

structure Health where
  sites : String → Option SiteProgress
  order : List String
  staleAfter : Duration

/-- `sort.Strings`. -/
def sortStrings (ss : List String) : List String := ss.mergeSort fun a b => decide (a ≤ b)

def newHealth (sites : List String) (staleAfter : Duration) : Health where
  sites := fun s => if s ∈ sites then some .zero else none
  order := sortStrings sites
  staleAfter := staleAfter

def Health.touch (h : Health) (now : Instant) (site : String) (fn : SiteProgress → SiteProgress) : Health :=
  let p := (h.sites site).getD .zero
  { h with
    sites := Function.update h.sites site (some (fn { p with lastProgress := some now }))
    order := if (h.sites site).isSome then h.order else sortStrings (h.order ++ [site]) }

def Health.loopAlive (h : Health) (now : Instant) (site : String) : Health :=
  h.touch now site fun p => { p with saturated := false }

def Health.claimOK (h : Health) (now : Instant) (site : String) : Health :=
  h.touch now site fun p => { p with lastClaimOK := some now, saturated := false }

def Health.claimFailed (h : Health) (now : Instant) (site : String) : Health :=
  h.touch now site fun p => { p with saturated := false }

def Health.saturated (h : Health) (now : Instant) (site : String) : Health :=
  h.touch now site fun p => { p with saturated := true }

inductive Component where
  | ok
  | unavailable
deriving DecidableEq, Repr

inductive ClaimLoopVerdict where
  | ok
  | stalled
  | not_started
deriving DecidableEq, Repr

def maxDuration : Duration := 9223372036854775807
def minDuration : Duration := -9223372036854775808

/-- `Time.Sub`, which saturates. -/
def Instant.sub (t u : Instant) : Duration := max minDuration (min maxDuration (t - u))

/-- One line of the report; the age is not yet rounded and printed. -/
structure SiteHealth where
  site : String
  database : Component
  databaseDetail : String
  claimLoop : ClaimLoopVerdict
  lastProgressAge : Option Duration
  saturated : Bool
deriving DecidableEq, Repr

structure HealthReport where
  ready : Bool
  status : Component
  checkedAt : Instant
  staleAfter : Duration
  sites : List SiteHealth

/-- The verdict on a loop, with the age that the line shows. -/
def SiteProgress.verdict (p : SiteProgress) (now : Instant) (stale : Duration) : ClaimLoopVerdict × Option Duration :=
  match p.lastProgress with
  | none => (.not_started, none)
  | some last =>
    if Instant.sub now last > stale then (.stalled, some (Instant.sub now last))
    else (.ok, some (Instant.sub now last))

/-- What the ping of a site's pool answers at probe time: an error text, or nothing. A site without a pool
has no ping. -/
abbrev Pingers := String → Option (Option String)

def Pingers.verdict (pingers : Pingers) (safeError : String → String) (site : String) : Component × String :=
  match pingers site with
  | none => (.unavailable, "no connection pool for this site")
  | some (some err) => (.unavailable, safeError err)
  | some none => (.ok, "")

def Health.line (h : Health) (safeError : String → String) (now : Instant) (pingers : Pingers) (site : String) :
    SiteHealth :=
  let p := (h.sites site).getD .zero
  let loop := p.verdict now h.staleAfter
  let db := pingers.verdict safeError site
  { site, database := db.1, databaseDetail := db.2, claimLoop := loop.1, lastProgressAge := loop.2
    saturated := p.saturated }

def SiteHealth.ready (l : SiteHealth) : Bool := l.claimLoop = .ok && l.database = .ok

def Health.report (h : Health) (safeError : String → String) (now : Instant) (pingers : Pingers) : HealthReport :=
  let sites := h.order.map (h.line safeError now pingers)
  -- a worker that knows no site is not ready
  let ready := !h.order.isEmpty && sites.all SiteHealth.ready
  { ready, status := if ready then .ok else .unavailable, checkedAt := now, staleAfter := h.staleAfter, sites }

end Vizra.Jobs
