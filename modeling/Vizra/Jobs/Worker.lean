import Vizra.Jobs.Enqueue

/-!
# The worker's settings and the outcome of a job (`internal/jobs/worker.go`, `jobs.go`)

A `Worker` is what `NewWorker` builds: its options carry the facts `applyDefaults` establishes, in
particular that the worker id is not empty, so that `strPtr` never turns it into NULL.
`Outcome.of` is the switch at the end of `Worker.run` and `Outcome.write` the statement it issues.
-/

namespace Vizra.Jobs

open Go Vizra.Pg

/-- `Options` without the logger. -/
structure Options where
  lease : Duration
  timeout : Duration
  concurrency : Int
  pollInterval : Duration
  sweepInterval : Duration
  drainGrace : Duration
  workerID : String
  healthStaleAfter : Duration

/-- `HealthStaleBound`; the job timeout is accepted and ignored. -/
def healthStaleBound (pollInterval _jobTimeout : Duration) : Duration :=
  if 5 * pollInterval < 15 * second then 15 * second else 5 * pollInterval

/-- What `applyDefaults` reads from the process: host name, pid and a random number. -/
structure Process where
  host : String
  pid : Nat
  rand : Nat

/-- `%04x`. -/
def hex4 (n : Nat) : String :=
  let digits := Nat.toDigits 16 n
  String.ofList (List.replicate (4 - digits.length) '0' ++ digits)

/-- The worker id of a process that was given none. -/
def Process.workerID (p : Process) : String := p.host ++ "-" ++ toString p.pid ++ "-" ++ hex4 p.rand

def Options.applyDefaults (o : Options) (p : Process) : Options :=
  let pollInterval := if o.pollInterval ≤ 0 then second else o.pollInterval
  let timeout := if o.timeout ≤ 0 then 5 * minute else o.timeout
  { lease := if o.lease ≤ 0 then 60 * second else o.lease
    timeout
    concurrency := if o.concurrency ≤ 0 then 4 else o.concurrency
    pollInterval
    sweepInterval := if o.sweepInterval ≤ 0 then 2 * minute else o.sweepInterval
    drainGrace := if o.drainGrace ≤ 0 then 20 * second else o.drainGrace
    workerID := if o.workerID = "" then p.workerID else o.workerID
    healthStaleAfter :=
      if o.healthStaleAfter ≤ 0 then healthStaleBound pollInterval timeout else o.healthStaleAfter }

theorem Process.workerID_ne (p : Process) : p.workerID ≠ "" := by
  intro h
  have h' := congrArg String.toList h
  simp [Process.workerID] at h'

theorem Options.applyDefaults_workerID_ne (o : Options) (p : Process) :
    (o.applyDefaults p).workerID ≠ "" := by
  by_cases h : o.workerID = ""
  · simpa [Options.applyDefaults, h] using p.workerID_ne
  · simp [Options.applyDefaults, h]

/-- A worker: options after `applyDefaults`. -/
structure Worker where
  opts : Options
  lease_pos : 0 < opts.lease
  timeout_pos : 0 < opts.timeout
  concurrency_pos : 0 < opts.concurrency
  workerID_ne : opts.workerID ≠ ""

def newWorker (p : Process) (o : Options) : Worker where
  opts := o.applyDefaults p
  lease_pos := by simp only [Options.applyDefaults]; split <;> simp_all [second]
  timeout_pos := by simp only [Options.applyDefaults]; split <;> simp_all [second, minute]
  concurrency_pos := by simp only [Options.applyDefaults]; split <;> simp_all
  workerID_ne := o.applyDefaults_workerID_ne p

/-- The lease holder a worker writes into a row. -/
def Worker.leasedBy (w : Worker) : Option String := strPtr w.opts.workerID

@[simp] theorem Worker.leasedBy_eq (w : Worker) : w.leasedBy = some w.opts.workerID :=
  strPtr_of_ne w.workerID_ne

/-- `Worker.claim`, up to the statement: the parameters of `ClaimJob`. -/
def Worker.claimParams (w : Worker) (kinds : List String) : ClaimJobParams :=
  { leased_by := w.leasedBy, lease_duration := toInterval w.opts.lease, kinds }

/-- What a handler can return: an error with its text and the errors it wraps (`Unwrap`, in either
form), or a `Terminal` around an error. -/
inductive HandlerError where
  | other (text : String) (wrapped : List HandlerError)
  | terminal (err : HandlerError)

mutual

/-- `IsTerminal`: `errors.As` finds a `Terminal` somewhere in the chain. -/
def HandlerError.isTerminal : HandlerError → Bool
  | .terminal _ => true
  | .other _ wrapped => HandlerError.anyTerminal wrapped

/-- `errors.As` over the errors of one `Unwrap() []error`, depth first. -/
def HandlerError.anyTerminal : List HandlerError → Bool
  | [] => false
  | e :: es => e.isTerminal || HandlerError.anyTerminal es

end

/-- `Error()`. -/
def HandlerError.text : HandlerError → String
  | .other text _ => text
  | .terminal err => "terminal: " ++ err.text

def retryLadder : List Duration := [30 * second, 2 * minute, 10 * minute, hour, 6 * hour]

/-- `Backoff`, with the attempt number 1-based. -/
def backoff (attempt : Int) : Duration :=
  let i := (max attempt 1).toNat - 1
  retryLadder.getD (min i (retryLadder.length - 1)) 0

/-- `jitter`, for the number `r` that `rand.Int64N` drew. -/
def jitter (d : Duration) (r : Int) : Duration := if d ≤ 0 then 0 else r - d.tdiv 10

/-- A leased job handed to a handler. -/
structure Claimed where
  id : Uuid
  kind : String
  payload : String
  attempts : Int
  maxAttempts : Int
  correlationID : String
  leasedUntil : Option Time

/-- The `Claimed` of a row that `ClaimJob` returned. -/
def Job.claimed (r : Job) : Claimed :=
  { id := r.id, kind := r.kind, payload := r.payload, attempts := r.attempts
    maxAttempts := r.max_attempts, correlationID := r.correlation_id, leasedUntil := r.leased_until }

/-- The four statements that record how a job ended, with the raw error text. -/
inductive Outcome where
  | complete
  | fail (text : String)
  | deadLetter (text : String)
  | retry (backoff : Duration) (text : String)
deriving DecidableEq, Repr

/-- The switch of `Worker.run` on the handler's error; `r` is the random number of the jitter. -/
def Outcome.of (j : Claimed) (r : Int) : Option HandlerError → Outcome
  | none => .complete
  | some err =>
    if err.isTerminal then .fail err.text
    else if j.attempts ≥ j.maxAttempts then .deadLetter err.text
    else .retry (backoff j.attempts + jitter (backoff j.attempts) r) err.text

/-- What the statement leaves in `state`. -/
def Outcome.state : Outcome → JobState
  | complete => .succeeded
  | fail _ => .failed
  | deadLetter _ => .dead
  | retry _ _ => .queued

/-- The statement of an outcome, issued under `leasedBy`. `safeError` is what `run` makes of an error
text before it may enter `last_error`. -/
def Outcome.write (safeError : String → String) (now : Time) (id : Uuid) (leasedBy : Option String)
    (rows : Table) : Outcome → Except PgError (Table × Nat)
  | complete => completeJob now id leasedBy rows
  | fail text => failJob now id leasedBy (strPtr (safeError text)) rows
  | deadLetter text => deadLetterJob now id leasedBy (strPtr (safeError text)) rows
  | retry d text => retryJob now id leasedBy (toInterval d) (strPtr (safeError text)) rows

end Vizra.Jobs
