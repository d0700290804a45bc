import Vizra.Jobs.Worker
import Vizra.Lts.Basic

/-!
# Runs of the `jobs` table, and of the workers over it

`Db` is the table with the database clock. A `Call` is one of the statements as the Go code issues
it (`EnqueueJob` with the parameters `Enqueue` computes, the others with a worker's own id and
lease), or an advance of the clock; every statement is atomic and `Db.step` gives its reply.

`Cluster` adds the executions of `Worker.run` in flight. A run is started by a claim and holds the
`Claimed` row of that claim; its heartbeat goroutine and its outcome statement act on the table under
the worker's id only, whatever has happened to the row since.
-/

namespace Vizra.Jobs

open Go Vizra.Pg

structure Db where
  now : Time
  rows : Table

def Db.empty (now : Time) : Db := { now, rows := [] }

inductive Call where
  -- `Enqueue` in a transaction that started at `now`.
  | enqueue (now : Time) (newID : Except String Uuid) (j : NewJob)
  | claim (w : Worker) (kinds : List String) (locked : List Uuid)
  | heartbeat (w : Worker) (id : Uuid)
  | outcome (w : Worker) (id : Uuid) (o : Outcome)
  | sweep
  | advance (d : Nat)

inductive Reply where
  -- `Enqueue` refused its arguments and sent no statement.
  | refused (e : EnqueueError)
  | error (e : PgError)
  | enqueued (r : Option Job)
  | claimed (r : Option Job)
  | renewed (r : Option Job)
  | recorded (rows : Nat)
  | swept (rs : List Job)
  | advanced
deriving DecidableEq

/-- The state and the reply after a statement; a failed statement changes nothing. -/
def Db.settle {α : Type} (s : Db) (reply : α → Reply) : Except PgError (Table × α) → Db × Reply
  | .error e => (s, .error e)
  | .ok (rows, a) => ({ s with rows }, reply a)

section Step

variable (jsonbText safeError : String → String)

def Db.step (s : Db) : Call → Db × Reply
  | .enqueue now newID j =>
    match prepare newID j with
    | .error e => (s, .refused e)
    | .ok p => s.settle .enqueued (enqueueJob jsonbText now p s.rows)
  | .claim w kinds locked => s.settle .claimed (claimJob s.now (w.claimParams kinds) locked s.rows)
  | .heartbeat w id =>
    s.settle .renewed (heartbeatJob s.now id w.leasedBy (toInterval w.opts.lease) s.rows)
  | .outcome w id o => s.settle .recorded (o.write safeError s.now id w.leasedBy s.rows)
  | .sweep => s.settle .swept (sweepExpiredLeases s.now s.rows)
  | .advance d => ({ s with now := s.now + d }, .advanced)

/-- Runs of the table: every event is a call with its reply. -/
abbrev Db.Run (s : Db) (es : List (Call × Reply)) (t : Db) : Prop :=
  Lts.Run (Lts.mealy (Db.step jsonbText safeError)) s es t

/-- The event is a claim that returned the row `id`. -/
def isClaimOf (id : Uuid) (e : Call × Reply) : Bool :=
  match e.2 with
  | .claimed (some r) => r.id = id
  | _ => false

/-- How often `ClaimJob` has returned the row `id`. -/
def claimsOf (id : Uuid) (es : List (Call × Reply)) : Nat := es.countP (isClaimOf id)

/-- One execution of `Worker.run`: `beating` while its heartbeat goroutine lives, `working` until its
outcome statement has been issued or given up. -/
structure WorkerRun where
  worker : Worker
  job : Claimed
  beating : Bool
  working : Bool

/-- The run may still issue a statement. -/
def WorkerRun.active (r : WorkerRun) : Bool := r.beating || r.working

structure Cluster where
  db : Db
  runs : List WorkerRun

def Cluster.empty (now : Time) : Cluster := { db := .empty now, runs := [] }

inductive Event where
  | enqueue (now : Time) (newID : Except String Uuid) (j : NewJob)
  | claim (w : Worker) (kinds : List String) (locked : List Uuid)
  -- The heartbeat goroutine of run `i` ticks.
  | beat (i : Nat)
  -- The heartbeat goroutine of run `i` sees its context done.
  | stopBeat (i : Nat)
  -- The handler of run `i` has returned `err` and the outcome is written.
  | finish (i : Nat) (err : Option HandlerError) (r : Int)
  -- Run `i` ends without a statement: its write failed before it reached the database, or its
  -- process died.
  | abandon (i : Nat)
  | sweep
  | advance (d : Nat)

/-- The number of slots of the semaphore that worker `w` has in use. -/
def Cluster.inFlight (c : Cluster) (w : Worker) : Nat :=
  c.runs.countP fun r => r.working && r.worker.opts.workerID = w.opts.workerID

/-- The call that an event issues, if it is enabled and issues one. -/
def Cluster.callOf (c : Cluster) : Event → Option Call
  | .enqueue now newID j => some (.enqueue now newID j)
  | .claim w kinds locked =>
    -- a claim needs a free slot of the semaphore
    if (c.inFlight w : Int) < w.opts.concurrency then some (.claim w kinds locked) else none
  | .beat i => (c.runs[i]?).bind fun r =>
    if r.beating then some (.heartbeat r.worker r.job.id) else none
  | .finish i err jit => (c.runs[i]?).bind fun r =>
    if r.working then some (.outcome r.worker r.job.id (.of r.job jit err)) else none
  | .sweep => some .sweep
  | .advance d => some (.advance d)
  | .stopBeat _ | .abandon _ => none

/-- The runs after the call of an event was answered. -/
def runsAfter (runs : List WorkerRun) : Event → Reply → List WorkerRun
  -- a returned row starts a run with both of its goroutines
  | .claim w _ _, .claimed (some r) =>
    runs ++ [{ worker := w, job := r.claimed, beating := true, working := true }]
  -- no row: somebody else owns the job now, the heartbeat cancels the job and stops
  | .beat i, .renewed none => runs.modify i fun r => { r with beating := false }
  | .finish i _ _, _ => runs.modify i fun r => { r with working := false }
  | _, _ => runs

def Cluster.step (c : Cluster) (e : Event) : Option Cluster :=
  match e with
  | .stopBeat i =>
    if i < c.runs.length then
      some { c with runs := c.runs.modify i fun r => { r with beating := false } }
    else none
  | .abandon i =>
    if i < c.runs.length then
      some { c with runs := c.runs.modify i fun r => { r with beating := false, working := false } }
    else none
  | e => (c.callOf e).map fun call =>
    let res := c.db.step jsonbText safeError call
    { db := res.1, runs := runsAfter c.runs e res.2 }

/-- Runs of the cluster whose steps meet `G`. -/
abbrev Cluster.Run (G : Cluster → Event → Prop) (c : Cluster) (es : List Event) (c' : Cluster) : Prop :=
  Lts.Run (Lts.guarded G (Lts.graph (Cluster.step jsonbText safeError))) c es c'

end Step

/-- The run that issues the statement of an event. -/
def Cluster.issuer (c : Cluster) : Event → Option WorkerRun
  | .beat i | .finish i _ _ => c.runs[i]?
  | _ => none

end Vizra.Jobs
