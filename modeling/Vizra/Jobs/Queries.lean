import Vizra.Jobs.Schema
import Mathlib.Data.List.Sort

/-!
# The statements of `store/queries/jobs.sql`

Each statement is a function of the transaction time `now` and the table. `jsonbText` is PostgreSQL's
text form of a jsonb value and stays a parameter: only `EnqueueJob` stores one.
-/

namespace Vizra.Jobs

open Go Vizra.Pg

structure EnqueueJobParams where
  id : Uuid
  kind : String
  payload : String
  idempotency_key : Option String
  priority : Int
  max_attempts : Int
  run_after : Option Time
  correlation_id : String
deriving DecidableEq, Repr

/-- The row `EnqueueJob` inserts; a NULL `run_after` is the database's own `now()`. -/
def EnqueueJobParams.row (jsonbText : String → String) (p : EnqueueJobParams) (now : Time) : Job where
  id := p.id
  kind := p.kind
  payload := jsonbText p.payload
  idempotency_key := p.idempotency_key
  state := .queued
  priority := p.priority
  attempts := 0
  max_attempts := p.max_attempts
  run_after := p.run_after.getD now
  leased_until := none
  leased_by := none
  last_error := none
  correlation_id := p.correlation_id
  created_at := now
  updated_at := now
  finished_at := none

/-- A statement is sent with its text parameters, none of which may hold U+0000. -/
def withTexts {α : Type} (texts : List (Option String)) (x : Except PgError α) : Except PgError α :=
  if texts.all fun t => (t.map storable).getD true then x else .error .invalidText

/-- `ON CONFLICT DO NOTHING` names no index, so an entry in either of them is a conflict. -/
def conflicts (rows : Table) (r : Job) : Bool :=
  rows.any fun x => x.id = r.id || ((idemKey r).isSome && idemKey x = idemKey r)

/-- `EnqueueJob :one`: the inserted row, or no row when the insert met a conflict. -/
def enqueueJob (jsonbText : String → String) (now : Time) (p : EnqueueJobParams) (rows : Table) :
    Except PgError (Table × Option Job) :=
  withTexts [some p.kind, p.idempotency_key, some p.correlation_id] <|
  let r := p.row jsonbText now
  -- the CHECK constraints come before the conflict test
  if violated r ≠ [] then .error (.check (violated r))
  else if conflicts rows r then .ok (rows, none)
  else (store (rows ++ [r]) [r]).map fun rows' => (rows', some r)

def getLiveJobByIdempotencyKey (kind : String) (key : Option String) (rows : Table) : Option Job :=
  rows.find? fun r => r.kind = kind && sqlEq r.idempotency_key key && r.state.live

structure ClaimJobParams where
  leased_by : Option String
  lease_duration : Interval
  kinds : List String
deriving DecidableEq, Repr

/-- The WHERE clause of the subselect of `ClaimJob`. -/
def claimable (now : Time) (kinds : List String) (r : Job) : Bool :=
  r.state = .queued && r.run_after ≤ now && r.attempts < r.max_attempts && kinds.contains r.kind

/-- `ORDER BY priority, run_after`. -/
def claimOrder (a b : Job) : Prop :=
  a.priority < b.priority ∨ (a.priority = b.priority ∧ a.run_after ≤ b.run_after)

instance : DecidableRel claimOrder := fun a b => by unfold claimOrder; infer_instance

/-- `FOR UPDATE SKIP LOCKED LIMIT 1`: the first claimable row, in claim order, that no other
transaction has locked. -/
def claimCandidate (now : Time) (kinds : List String) (locked : List Uuid) (rows : Table) : Option Job :=
  ((rows.filter fun r => claimable now kinds r && !locked.contains r.id).insertionSort claimOrder).head?

/-- The SET clause of `ClaimJob`. -/
def Job.leaseTo (r : Job) (now : Time) (p : ClaimJobParams) : Job :=
  { r with
    state := .leased, leased_by := p.leased_by, leased_until := some (now + p.lease_duration)
    attempts := r.attempts + 1, updated_at := now }

/-- `ClaimJob :one`; `locked` are the rows other transactions hold at that moment. -/
def claimJob (now : Time) (p : ClaimJobParams) (locked : List Uuid) (rows : Table) :
    Except PgError (Table × Option Job) :=
  withTexts (p.leased_by :: p.kinds.map some) <|
  match claimCandidate now p.kinds locked rows with
  | none => .ok (rows, none)
  | some c =>
    (updateWhere rows (fun r => r.id = c.id) fun r => r.leaseTo now p).map fun w => (w.1, w.2.head?)

/-- The WHERE clause the heartbeat and the four outcome statements share. -/
def heldBy (id : Uuid) (leased_by : Option String) (r : Job) : Bool :=
  r.id = id && r.state = .leased && sqlEq r.leased_by leased_by

/-- An UPDATE of the row `id` while `leased_by` holds its lease, with one more text parameter. -/
def updateHeld (rows : Table) (id : Uuid) (leased_by text : Option String) (guard : Job → Bool)
    (f : Job → Job) : Except PgError (Table × List Job) :=
  withTexts [leased_by, text] <| updateWhere rows (fun r => heldBy id leased_by r && guard r) f

/-- The SET clause of `HeartbeatJob`. -/
def Job.renew (r : Job) (now : Time) (lease_duration : Interval) : Job :=
  { r with leased_until := some (now + lease_duration), updated_at := now }

/-- `HeartbeatJob :one`: the renewed row, or no row. -/
def heartbeatJob (now : Time) (id : Uuid) (leased_by : Option String) (lease_duration : Interval)
    (rows : Table) : Except PgError (Table × Option Job) :=
  (updateHeld rows id leased_by none (fun _ => true) fun r => r.renew now lease_duration).map
    fun w => (w.1, w.2.head?)

/-- The SET clause of `CompleteJob`: the lease columns stay. -/
def Job.complete (r : Job) (now : Time) : Job :=
  { r with state := .succeeded, finished_at := some now, updated_at := now, last_error := none }

def completeJob (now : Time) (id : Uuid) (leased_by : Option String) (rows : Table) :
    Except PgError (Table × Nat) :=
  (updateHeld rows id leased_by none (fun _ => true) fun r => r.complete now).map
    fun w => (w.1, w.2.length)

/-- The SET clause of `RetryJob`. -/
def Job.retry (r : Job) (now : Time) (backoff : Interval) (last_error : Option String) : Job :=
  { r with
    state := .queued, run_after := now + backoff, last_error, leased_by := none, leased_until := none
    updated_at := now }

/-- `RetryJob :execrows`, the one outcome statement that also guards on the budget. -/
def retryJob (now : Time) (id : Uuid) (leased_by : Option String) (backoff : Interval)
    (last_error : Option String) (rows : Table) : Except PgError (Table × Nat) :=
  (updateHeld rows id leased_by last_error (fun r => r.attempts < r.max_attempts)
    fun r => r.retry now backoff last_error).map fun w => (w.1, w.2.length)

/-- The SET clause of `DeadLetterJob` and `FailJob`. -/
def Job.finish (r : Job) (state : JobState) (now : Time) (last_error : Option String) : Job :=
  { r with
    state, last_error, finished_at := some now, leased_by := none, leased_until := none
    updated_at := now }

def deadLetterJob (now : Time) (id : Uuid) (leased_by : Option String) (last_error : Option String)
    (rows : Table) : Except PgError (Table × Nat) :=
  (updateHeld rows id leased_by last_error (fun _ => true) fun r => r.finish .dead now last_error).map
    fun w => (w.1, w.2.length)

def failJob (now : Time) (id : Uuid) (leased_by : Option String) (last_error : Option String)
    (rows : Table) : Except PgError (Table × Nat) :=
  (updateHeld rows id leased_by last_error (fun _ => true) fun r => r.finish .failed now last_error).map
    fun w => (w.1, w.2.length)

/-- The text `SweepExpiredLeases` records on a row it declares dead. -/
def sweepError : String :=
  "lease elapsed with attempts exhausted: the worker holding this job stopped without recording an outcome"

/-- The SET clause of `SweepExpiredLeases`. -/
def Job.sweep (r : Job) (now : Time) : Job :=
  if r.attempts ≥ r.max_attempts then
    { r with
      state := .dead, last_error := some sweepError, finished_at := some now, leased_by := none
      leased_until := none, updated_at := now }
  else
    { r with
      state := .queued, finished_at := none, leased_by := none, leased_until := none
      updated_at := now }

/-- The WHERE clause of `SweepExpiredLeases`. -/
def elapsed (now : Time) (r : Job) : Bool := r.state = .leased && sqlLt r.leased_until now

/-- `SweepExpiredLeases :many`. -/
def sweepExpiredLeases (now : Time) (rows : Table) : Except PgError (Table × List Job) :=
  updateWhere rows (elapsed now) fun r => r.sweep now

end Vizra.Jobs
