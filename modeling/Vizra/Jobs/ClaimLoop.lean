import Vizra.Jobs.Health
import Vizra.Lts.Basic

/-!
# The claim loops of a worker (`internal/jobs/worker.go`)

One `claimLoop` for each site, over one clock, until the context is done. A loop waits in its `select` for a slot
of the semaphore or for the slot timer, is inside `Worker.claim`, or sleeps. There is no scheduling delay: time
passes only as long as no loop could go on.
-/

namespace Vizra.Jobs

open Go

/-- Where a claim loop stands. -/
inductive LoopPc where
  -- in the `select`, with the instant at which the slot timer fires
  | select (fires : Instant)
  -- in `Worker.claim`, since the instant
  | claiming (since : Instant)
  -- in `Worker.sleep`, until the instant
  | sleeping (wakes : Instant)
deriving DecidableEq, Repr

/-- `used` is the number of slots of the semaphore in use: one for each job in flight, and one while the loop
is inside a claim. -/
structure ClaimLoop where
  pc : LoopPc
  used : Nat

structure LoopSystem where
  now : Instant
  health : Health
  loops : String → ClaimLoop

/-- What `Worker.claim` comes back with. -/
inductive ClaimResult where
  | failed
  | noJob
  | job
deriving DecidableEq, Repr

inductive LoopEvent where
  -- time passes
  | advance (d : Nat)
  -- the loop of the site gets a slot
  | acquire (site : String)
  -- its slot timer fires
  | slotFires (site : String)
  | claimReturns (site : String) (r : ClaimResult)
  | wakes (site : String)
  -- a job of the site ends and gives its slot back
  | release (site : String)

section

variable (opts : Options) (sites : List String)

/-- The loop can stand still until `t`. -/
def ClaimLoop.idleUntil (l : ClaimLoop) (t : Instant) : Bool :=
  match l.pc with
  | .select fires => opts.concurrency ≤ l.used && t ≤ fires
  | .claiming _ => true
  | .sleeping wakes => t ≤ wakes

/-- The top of the loop: the slot timer is armed again. -/
def LoopPc.top (now : Instant) : LoopPc := .select (now + opts.pollInterval)

/-- The loop of a site goes on, and the record of the site is touched. -/
def LoopSystem.move (s : LoopSystem) (site : String) (l : ClaimLoop) (health : Health) : LoopSystem :=
  { s with loops := Function.update s.loops site l, health }

def LoopSystem.step (s : LoopSystem) : LoopEvent → Option LoopSystem
  | .advance d =>
    if d = 0 ∨ ∀ site ∈ sites, (s.loops site).idleUntil opts (s.now + d) = true then
      some { s with now := s.now + d }
    else none
  | .acquire site =>
    match (s.loops site).pc with
    | .select _ =>
      if site ∈ sites ∧ (s.loops site).used < opts.concurrency then
        some (s.move site { pc := .claiming s.now, used := (s.loops site).used + 1 }
          (s.health.loopAlive s.now site))
      else none
    | _ => none
  | .slotFires site =>
    match (s.loops site).pc with
    | .select fires =>
      if site ∈ sites ∧ fires ≤ s.now then
        some (s.move site { pc := .top opts s.now, used := (s.loops site).used } (s.health.saturated s.now site))
      else none
    | _ => none
  | .claimReturns site r =>
    match (s.loops site).pc with
    | .claiming _ =>
      let used := (s.loops site).used
      match r with
      | .failed =>
        some (s.move site { pc := .sleeping (s.now + opts.pollInterval), used := used - 1 }
          (s.health.claimFailed s.now site))
      | .noJob =>
        some (s.move site { pc := .sleeping (s.now + opts.pollInterval), used := used - 1 }
          (s.health.claimOK s.now site))
      -- the slot stays with the job
      | .job => some (s.move site { pc := .top opts s.now, used } (s.health.claimOK s.now site))
    | _ => none
  | .wakes site =>
    match (s.loops site).pc with
    | .sleeping wakes =>
      if wakes ≤ s.now then
        some (s.move site { pc := .top opts s.now, used := (s.loops site).used } s.health)
      else none
    | _ => none
  | .release site =>
    -- the slot of a claim in progress is not a job's
    let jobs := match (s.loops site).pc with
      | .claiming _ => (s.loops site).used - 1
      | _ => (s.loops site).used
    if 0 < jobs then
      some (s.move site { (s.loops site) with used := (s.loops site).used - 1 } s.health)
    else none

/-- `Worker.Run` at `start`, before the first step of a loop. -/
def LoopSystem.init (start : Instant) : LoopSystem where
  now := start
  health := newHealth sites opts.healthStaleAfter
  loops := fun _ => { pc := .top opts start, used := 0 }

/-- The claim of a site's loop is at most as long as `bound`, at every instant of the run. -/
def ClaimsWithin (bound : Duration) (site : String) (s : LoopSystem) (e : LoopEvent) : Prop :=
  match e, (s.loops site).pc with
  | .advance d, .claiming since => s.now + d ≤ since + bound
  | _, _ => True

abbrev LoopSystem.Run (G : LoopSystem → LoopEvent → Prop) (s : LoopSystem) (es : List LoopEvent) (t : LoopSystem) :
    Prop :=
  Lts.Run (Lts.guarded G (Lts.graph (LoopSystem.step opts sites))) s es t

end

end Vizra.Jobs
