import Vizra.Config.Config
import Vizra.GoStd.Context
import Vizra.Jobs.System

/-!
# One execution of `Worker.run` (`internal/jobs/worker.go`, `cmd/worker/main.go`)

`Worker.run` makes its contexts when it starts: the handler's, bounded by the job timeout, and the one
its outcome statement is issued under, bounded by `outcomeWriteTimeout`. Both are detached from the
context of the process. The process clock is explicit, and separate from the clock of the database.
-/

namespace Vizra.Jobs

open Go Vizra.Pg Vizra.Configuration

def outcomeWriteTimeout : Duration := 10 * second

/-- The options `cmd/worker` passes to `NewWorker`. -/
def workerOptions (cfg : Config) : Options :=
  { lease := cfg.jobLease, timeout := cfg.jobTimeout, concurrency := cfg.workerConcurrency
    pollInterval := 0, sweepInterval := 0, drainGrace := cfg.shutdownGrace, workerID := ""
    healthStaleAfter := 0 }

/-- The period of the ticker of `heartbeat`; `time.NewTicker` panics unless it is positive. -/
def Worker.heartbeatPeriod (w : Worker) : Duration := w.opts.lease.tdiv 3

/-- One call of a handler: how long it runs and what it returns. -/
structure Handling where
  took : Duration
  err : Option HandlerError

abbrev Handler := Context → Claimed → Handling

/-- The outcome statement of a run: its context, the instant at which it is issued, and what it says. -/
structure Recording where
  ctx : Context
  instant : Instant
  outcome : Outcome

/-- The handler's context; the heartbeat cancels it at `lostAt` when it finds the lease gone. -/
def Worker.jobCtx (w : Worker) (ctx : Context) (start : Instant) (lostAt : Option Instant) : Context :=
  ctx.withoutCancel.withTimeout start w.opts.timeout lostAt

/-- `Worker.run` from `start` on, up to its outcome statement; `jit` is the random number of the jitter. -/
def Worker.run (w : Worker) (handlers : String → Option Handler) (ctx : Context) (start : Instant)
    (lostAt : Option Instant) (jit : Int) (j : Claimed) : Recording :=
  -- the deadline of the outcome statement counts from here, before the handler runs
  let recCtx := ctx.withoutCancel.withTimeout start outcomeWriteTimeout none
  match handlers j.kind with
  | none =>
    { ctx := recCtx, instant := start
      outcome := .fail ("no handler registered for kind " ++ j.kind) }
  | some h =>
    let res := h (w.jobCtx ctx start lostAt) j
    { ctx := recCtx, instant := start + res.took, outcome := .of j jit res.err }

/-- The database after the outcome statement: a statement whose context is done is not sent. -/
def Recording.issue (jsonbText safeError : String → String) (rec : Recording) (w : Worker) (j : Claimed)
    (s : Db) : Db :=
  if rec.ctx.live rec.instant then (s.step jsonbText safeError (.outcome w j.id rec.outcome)).1 else s

end Vizra.Jobs
