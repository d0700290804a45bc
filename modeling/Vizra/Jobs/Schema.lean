import Vizra.Pg.Types
import Mathlib.Data.List.Nodup

/-!
# The `jobs` table (migration 0002)

A row, its CHECK constraints and its two unique indexes. PostgreSQL checks the constraints on every
row a statement writes and the unique indexes on the table the statement leaves; a statement that
fails one of them changes nothing. `store` is that check.
-/

namespace Vizra.Jobs

open Go Vizra.Pg

/-- `jobs_state`: the five values the column can hold. -/
inductive JobState where
  | queued
  | leased
  | succeeded
  | failed
  | dead
deriving DecidableEq, Repr

/-- The states the partial index `jobs_idem` covers. -/
def JobState.live : JobState → Bool
  | .queued | .leased => true
  | .succeeded | .failed | .dead => false

/-- A row of `jobs`. `payload` is the text form of the stored jsonb value. -/
structure Job where
  id : Uuid
  kind : String
  payload : String
  idempotency_key : Option String
  state : JobState
  priority : Int
  attempts : Int
  max_attempts : Int
  run_after : Time
  leased_until : Option Time
  leased_by : Option String
  last_error : Option String
  correlation_id : String
  created_at : Time
  updated_at : Time
  finished_at : Option Time
deriving DecidableEq, Repr

abbrev Table := List Job

/-- The CHECK constraints other than `jobs_state`, which `JobState` carries. -/
inductive CheckConstraint where
  | jobs_attempts_bounded
  | jobs_correlation_bounded
  | jobs_kind_bounded
  | jobs_last_error_bounded
  | jobs_lease_complete
  | jobs_max_attempts_positive
  | jobs_payload_bounded
  | jobs_terminal_finished
deriving DecidableEq, Repr

namespace CheckConstraint

/-- In the order in which PostgreSQL evaluates them: by name. -/
def all : List CheckConstraint :=
  [jobs_attempts_bounded, jobs_correlation_bounded, jobs_kind_bounded, jobs_last_error_bounded,
    jobs_lease_complete, jobs_max_attempts_positive, jobs_payload_bounded, jobs_terminal_finished]

def holds : CheckConstraint → Job → Bool
  | jobs_attempts_bounded, r => 0 ≤ r.attempts ∧ r.attempts ≤ r.max_attempts
  | jobs_correlation_bounded, r =>
    1 ≤ r.correlation_id.toList.length ∧ r.correlation_id.toList.length ≤ 128
  | jobs_kind_bounded, r => 1 ≤ r.kind.toList.length ∧ r.kind.toList.length ≤ 64
  | jobs_last_error_bounded, r =>
    match r.last_error with
    | none => true
    | some e => e.toList.length ≤ 4096
  | jobs_lease_complete, r =>
    r.state ≠ .leased ∨ (r.leased_until.isSome ∧ r.leased_by.isSome)
  | jobs_max_attempts_positive, r => 1 ≤ r.max_attempts
  | jobs_payload_bounded, r => r.payload.utf8ByteSize ≤ 65536
  | jobs_terminal_finished, r => r.state.live = r.finished_at.isNone

end CheckConstraint

/-- The constraints a row violates; the error PostgreSQL raises names the first. -/
def violated (r : Job) : List CheckConstraint := CheckConstraint.all.filter fun c => !c.holds r

/-- The entry of a row in `jobs_idem`, if it has one. -/
def idemKey (r : Job) : Option (String × String) :=
  if r.state.live then r.idempotency_key.map fun k => (r.kind, k) else none

inductive UniqueIndex where
  | jobs_pkey
  | jobs_idem
deriving DecidableEq, Repr

def UniqueIndex.holds : UniqueIndex → Table → Bool
  | .jobs_pkey, rows => (rows.map Job.id).Nodup
  | .jobs_idem, rows => (rows.filterMap idemKey).Nodup

/-- Why a statement on `jobs` failed. -/
inductive PgError where
  -- 23514, with every constraint some written row violates.
  | check (cs : List CheckConstraint)
  -- 23505, with the index.
  | unique (i : UniqueIndex)
  -- 22021: a text parameter with U+0000.
  | invalidText
deriving DecidableEq, Repr

/-- The checks at the end of a statement that wrote the rows `written` and leaves the table
`rows`. -/
def store (rows : Table) (written : List Job) : Except PgError Table :=
  if written.flatMap violated ≠ [] then .error (.check (written.flatMap violated))
  else if !UniqueIndex.jobs_pkey.holds rows then .error (.unique .jobs_pkey)
  else if !UniqueIndex.jobs_idem.holds rows then .error (.unique .jobs_idem)
  else .ok rows

/-- The table after `UPDATE jobs SET f WHERE p`. -/
def updated (rows : Table) (p : Job → Bool) (f : Job → Job) : Table :=
  rows.map fun r => if p r then f r else r

/-- `UPDATE jobs SET f WHERE p`: the new table and the rows written, in table order. -/
def updateWhere (rows : Table) (p : Job → Bool) (f : Job → Job) : Except PgError (Table × List Job) :=
  (store (updated rows p f) ((rows.filter p).map f)).map fun rows' => (rows', (rows.filter p).map f)

end Vizra.Jobs
