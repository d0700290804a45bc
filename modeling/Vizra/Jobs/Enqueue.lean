import Vizra.Jobs.Queries

/-!
# `Enqueue` (`internal/jobs/jobs.go`)

`Enqueue` checks and completes the caller's `NewJob` in Go (`prepare`), inserts the row
(`enqueueInsert`) and, when the insert met a conflict, reads the live job back in a second statement
(`enqueueReadBack`). The two statements take separate snapshots, so `enqueue` has a parameter for
what other transactions commit between them.
-/

namespace Vizra.Jobs

open Go Vizra.Pg

def defaultMaxAttempts : Int := 5
def defaultPriority : Int := 100
def maxPayloadBytes : Nat := 65536
def maxKindBytes : Nat := 64
def maxCorrelationIDBytes : Nat := 128

/-- What a caller enqueues. The payload is given by the result of `json.Marshal` on it (an error
text, or the encoded text); `none` is a nil payload. A zero `RunAfter` is `none`. -/
structure NewJob where
  kind : String
  payload : Option (Except String String)
  idempotencyKey : String
  priority : Int
  maxAttempts : Int
  runAfter : Option Time
  correlationID : String

/-- The row that exists after `Enqueue`. -/
structure Enqueued where
  id : Uuid
  kind : String
  state : JobState
  runAfter : Time
  alreadyInFlight : Bool
deriving DecidableEq, Repr

inductive EnqueueError where
  | kindRequired
  | noCorrelationID
  | kindTooLong (bytes : Nat)
  | correlationIDTooLong (bytes : Nat)
  | encoding (kind cause : String)
  | payloadTooLarge (bytes : Nat)
  | newID (cause : String)
  | enqueueing (kind : String) (e : PgError)
  | noRow (kind : String)
  | notReadable (kind : String)
deriving DecidableEq, Repr

/-- The error texts; `pgText` is the driver's text of a database error. -/
def EnqueueError.message (pgText : PgError → String) : EnqueueError → String
  | kindRequired => "jobs: Kind is required"
  | noCorrelationID => "jobs: CorrelationID is required"
  | kindTooLong n => "jobs: kind exceeds 64 characters (kind is " ++ toString n ++ " characters)"
  | correlationIDTooLong n =>
    "jobs: correlation id exceeds 128 characters (correlation id is " ++ toString n ++ " characters)"
  | encoding kind cause => "jobs: encoding payload for kind " ++ kind ++ ": " ++ cause
  | payloadTooLarge n =>
    "jobs: payload exceeds the 64 KiB limit; reference a row instead of carrying it (payload is "
      ++ toString n ++ " bytes, limit " ++ toString maxPayloadBytes ++ ")"
  | newID cause => cause
  | enqueueing kind e => "jobs: enqueueing " ++ kind ++ ": " ++ pgText e
  | noRow kind =>
    "jobs: enqueueing " ++ kind ++ ": insert affected no row and no idempotency key was set"
  | notReadable kind =>
    "jobs: enqueueing " ++ kind
      ++ ": a conflicting live job exists but could not be read: no rows in result set"

/-- The result of `json.Marshal`; a nil payload is sent as the empty object. -/
def NewJob.raw (j : NewJob) : Except String String := j.payload.getD (.ok "\x7b\x7d")

/-- The parameters of `EnqueueJob`, with the defaults for what the caller left unset. -/
def NewJob.params (j : NewJob) (id : Uuid) (raw : String) : EnqueueJobParams where
  id := id
  kind := j.kind
  payload := raw
  idempotency_key := if j.idempotencyKey ≠ "" then some j.idempotencyKey else none
  priority := if j.priority = 0 then defaultPriority else j.priority
  max_attempts := if j.maxAttempts ≤ 0 then defaultMaxAttempts else j.maxAttempts
  run_after := j.runAfter
  correlation_id := j.correlationID

/-- The checks of `Enqueue` before its first statement; `newID` is the result of `uuid.NewV7`. -/
def prepare (newID : Except String Uuid) (j : NewJob) : Except EnqueueError EnqueueJobParams :=
  if j.kind = "" then .error .kindRequired
  else if j.correlationID = "" then .error .noCorrelationID
  else if j.kind.utf8ByteSize > maxKindBytes then .error (.kindTooLong j.kind.utf8ByteSize)
  else if j.correlationID.utf8ByteSize > maxCorrelationIDBytes then
    .error (.correlationIDTooLong j.correlationID.utf8ByteSize)
  else
    match j.raw with
    | .error cause => .error (.encoding j.kind cause)
    | .ok raw =>
      if raw.utf8ByteSize > maxPayloadBytes then .error (.payloadTooLarge raw.utf8ByteSize)
      else
        match newID with
        | .error cause => .error (.newID cause)
        | .ok id => .ok (j.params id raw)

/-- Where `Enqueue` stands after its first statement. -/
inductive AfterInsert where
  | done (r : Except EnqueueError Enqueued)
  | readBack (kind : String) (key : Option String)

def Job.enqueued (r : Job) (alreadyInFlight : Bool) : Enqueued :=
  { id := r.id, kind := r.kind, state := r.state, runAfter := r.run_after, alreadyInFlight }

/-- `Enqueue` up to and including `EnqueueJob`. -/
def enqueueInsert (jsonbText : String → String) (now : Time) (newID : Except String Uuid) (j : NewJob)
    (rows : Table) : Table × AfterInsert :=
  match prepare newID j with
  | .error e => (rows, .done (.error e))
  | .ok p =>
    match enqueueJob jsonbText now p rows with
    | .error e => (rows, .done (.error (.enqueueing j.kind e)))
    | .ok (rows', some r) => (rows', .done (.ok (r.enqueued false)))
    | .ok (rows', none) =>
      match p.idempotency_key with
      | none => (rows', .done (.error (.noRow j.kind)))
      | some _ => (rows', .readBack p.kind p.idempotency_key)

/-- `GetLiveJobByIdempotencyKey` and what `Enqueue` makes of it. -/
def enqueueReadBack (kind : String) (key : Option String) (rows : Table) : Except EnqueueError Enqueued :=
  match getLiveJobByIdempotencyKey kind key rows with
  | none => .error (.notReadable kind)
  | some r => .ok (r.enqueued true)

/-- `Enqueue` as a whole. `between` is what other transactions do to the committed table after the
insert and before the read-back takes its snapshot. -/
def enqueue (jsonbText : String → String) (now : Time) (newID : Except String Uuid) (j : NewJob)
    (between : Table → Table) (rows : Table) : Table × Except EnqueueError Enqueued :=
  match enqueueInsert jsonbText now newID j rows with
  | (rows', .done r) => (rows', r)
  | (rows', .readBack kind key) => (between rows', enqueueReadBack kind key (between rows'))

end Vizra.Jobs
