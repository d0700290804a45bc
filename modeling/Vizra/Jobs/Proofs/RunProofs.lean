import Vizra.Config.Proofs.ConfigProofs
import Vizra.Jobs.Proofs.SystemProofs
import Vizra.Jobs.Run

/-!
# When the outcome of a job is recorded

Under a held lease every outcome statement that the database accepts writes the one row of its job.
Whether `Worker.run` gets that far is decided by the context of the statement, which is as old as the
run: `outcome_recorded_iff`.
-/

namespace Vizra.Jobs

open Go Vizra.Pg Vizra.Configuration

variable {jsonbText safeError : String → String}

/-- The lease of the claim `j` is held by worker `w`. -/
def LeaseHeld (w : Worker) (j : Claimed) (s : Db) : Prop :=
  ∃ r ∈ s.rows, heldBy j.id w.leasedBy r = true ∧ r.attempts = j.attempts ∧ r.max_attempts = j.maxAttempts

/-- The WHERE clause of an outcome UPDATE picks the held row alone. -/
theorem filter_held {rows : Table} (h : TableInv rows) {id : Uuid} {leased_by : Option String}
    {guard : Job → Bool} {r : Job} (hr : r ∈ rows) (hheld : heldBy id leased_by r = true)
    (hg : guard r = true) : rows.filter (fun x => heldBy id leased_by x && guard x) = [r] := by
  rw [← filter_id h.pkey hr]
  refine List.filter_congr fun x hx => ?_
  rw [Bool.eq_iff_iff, decide_eq_true_iff]
  constructor
  · intro hx
    rw [Bool.and_eq_true] at hx
    rw [(heldBy_iff.mp hx.1).1, (heldBy_iff.mp hheld).1]
  · intro hid
    rw [eq_of_id_eq h.pkey hx hr hid, hheld, hg]
    rfl

/-- An outcome UPDATE of the held row `r`, when it is not refused, writes exactly one row, the row `f r`. -/
theorem updateHeld_held {rows : Table} (h : TableInv rows) {id : Uuid} {leased_by : Option String}
    (text : Option String) {guard : Job → Bool} {f : Job → Job} {r : Job} (hr : r ∈ rows)
    (hheld : heldBy id leased_by r = true) (hg : guard r = true)
    (hk : KeepsRow rows (fun r => heldBy id leased_by r && guard r) f) :
    (∃ e, ((updateHeld rows id leased_by text guard f).map fun w => (w.1, w.2.length)) = .error e) ∨
      ∃ rows', ((updateHeld rows id leased_by text guard f).map fun w => (w.1, w.2.length)) =
        .ok (rows', 1) ∧ ∃ x ∈ rows', x.id = id ∧ x.state = (f r).state := by
  have hp : (heldBy id leased_by r && guard r) = true := by rw [hheld, hg]; rfl
  rcases updateHeld_cases h text hk with ⟨e, he, -⟩ | he
  · exact Or.inl ⟨e, by rw [he]; rfl⟩
  · refine Or.inr ⟨_, by rw [he, filter_held h hr hheld hg]; rfl, f r,
      mem_updated.mpr ⟨r, hr, Or.inl ⟨hp, rfl⟩⟩, ?_, rfl⟩
    rw [hk.id_eq, (heldBy_iff.mp hheld).1]

/-- An outcome statement under the held lease, when it is not refused, writes exactly one row and leaves it
in the state of the outcome. -/
theorem Outcome.write_held (safeError : String → String) {rows : Table} (h : TableInv rows) (now : Time)
    {id : Uuid} {leased_by : Option String} {r : Job} (hr : r ∈ rows) (hheld : heldBy id leased_by r = true)
    {o : Outcome} (hbudget : o.state = .queued → r.attempts < r.max_attempts) :
    (∃ e, o.write safeError now id leased_by rows = .error e) ∨
      ∃ rows', o.write safeError now id leased_by rows = .ok (rows', 1) ∧
        ∃ x ∈ rows', x.id = id ∧ x.state = o.state := by
  cases o with
  | complete => exact updateHeld_held h none hr hheld rfl (keepsRow_complete ..)
  | fail text => exact updateHeld_held h _ hr hheld rfl (keepsRow_finish _ _ _ (s := .failed) rfl ..)
  | deadLetter text => exact updateHeld_held h _ hr hheld rfl (keepsRow_finish _ _ _ (s := .dead) rfl ..)
  | retry d text =>
    exact updateHeld_held h _ hr hheld (decide_eq_true (hbudget rfl)) (keepsRow_retry ..)

/-- `run` schedules a retry only when the claim has attempts left. -/
theorem Outcome.of_budget {j : Claimed} {jit : Int} {err : Option HandlerError}
    (h : (Outcome.of j jit err).state = .queued) : j.attempts < j.maxAttempts := by
  unfold Outcome.of at h
  split at h
  · cases h
  · split_ifs at h with h1 h2
    · cases h
    · cases h
    · exact not_le.mp h2

theorem Outcome.state_ne_leased (o : Outcome) : o.state ≠ .leased := by cases o <;> simp [state]

/-- A recorded outcome: under a held lease, a statement that is sent and accepted moves the row of the job
out of `leased`, and one that is not sent leaves it there. -/
theorem Recording.issue_held {w : Worker} {j : Claimed} {s : Db} (hs : TableInv s.rows)
    (hheld : LeaseHeld w j s) {rec : Recording}
    (hbudget : rec.outcome.state = .queued → j.attempts < j.maxAttempts)
    (haccept : ∀ e, (s.step jsonbText safeError (.outcome w j.id rec.outcome)).2 ≠ .error e) :
    (∃ x ∈ (rec.issue jsonbText safeError w j s).rows, x.id = j.id ∧ x.state = rec.outcome.state) ↔
      rec.ctx.live rec.instant = true := by
  obtain ⟨r, hr, hh, ha, hm⟩ := hheld
  unfold issue
  split_ifs with hl
  · refine iff_of_true ?_ hl
    rcases rec.outcome.write_held safeError hs s.now hr hh (by rwa [ha, hm]) with
      ⟨e, he⟩ | ⟨rows', he, hx⟩
    · exact absurd (by simp only [Db.step, he]; rfl) (haccept e)
    · simpa only [Db.step, he, Db.settle] using hx
  · refine iff_of_false ?_ hl
    -- not sent: the row is the held one, and no outcome leaves a row leased
    rintro ⟨x, hx, hid, hst⟩
    obtain ⟨hrid, hrl, -⟩ := heldBy_iff.mp hh
    rw [eq_of_id_eq hs.pkey hx hr (hid.trans hrid.symm), hrl] at hst
    exact rec.outcome.state_ne_leased hst.symm

/-- For every accepted configuration and every handler, whatever happens to the process's context: the
context of the outcome statement is live when the handler returns, and the row leaves `leased` with the
outcome of the handler, exactly if the handler took less than `outcomeWriteTimeout`. -/
theorem outcome_recorded_iff {lib : Lib} {lookup : Lookup} {cfg : Config}
    (_hcfg : loadFrom lib lookup = .ok cfg) {p : Process} {w : Worker}
    (_hw : w = newWorker p (workerOptions cfg)) {handlers : String → Option Handler} {h : Handler}
    {ctx : Context} {start : Instant} {lostAt : Option Instant} {jit : Int} {j : Claimed}
    (hh : handlers j.kind = some h) {res : Handling} (hres : h (w.jobCtx ctx start lostAt) j = res)
    (_h0 : 0 ≤ res.took) (_h1 : res.took ≤ w.opts.timeout) {rec : Recording}
    (hrec : w.run handlers ctx start lostAt jit j = rec) {now : Time} {es : List (Call × Reply)} {s : Db}
    (hs : Db.Run jsonbText safeError (.empty now) es s) (hheld : LeaseHeld w j s)
    (haccept : ∀ e, (s.step jsonbText safeError (.outcome w j.id rec.outcome)).2 ≠ .error e) :
    (rec.ctx.live rec.instant = true ↔ res.took < outcomeWriteTimeout) ∧
      ((∃ x ∈ (rec.issue jsonbText safeError w j s).rows,
        x.id = j.id ∧ x.state = (Outcome.of j jit res.err).state) ↔ res.took < outcomeWriteTimeout) := by
  simp only [Worker.run, hh, hres] at hrec
  have hout : rec.outcome = .of j jit res.err := by rw [← hrec]
  have hlive : rec.ctx.live rec.instant = true ↔ res.took < outcomeWriteTimeout := by
    rw [← hrec, Context.live_withTimeout_withoutCancel, add_lt_add_iff_left]
  refine ⟨hlive, ?_⟩
  rw [← hlive, ← hout]
  refine Recording.issue_held (DbInv.of_run hs).table hheld (fun hq => ?_) haccept
  rw [hout] at hq
  exact Outcome.of_budget hq

/-- A library in which every URL is the default origin. -/
def exampleLib : Lib :=
  { lower := id, fraction := fun f scale unit => f * unit / 10 ^ scale
    parseURL := fun _ => some
      { scheme := "http", user := none, host := "localhost:8080", path := "", rawQuery := ""
        fragment := "" }
    urlString := fun u => u.host }

/-- An environment that sets the database only: lease 60s, job timeout 5m. -/
def exampleLookup : Lookup := fun k => if k = "DATABASE_URL" then some "postgres://db" else none

def exampleConfig : Config :=
  configOf exampleLib exampleLookup .development .off .off "http://localhost:8080"

theorem exampleConfig_loaded : loadFrom exampleLib exampleLookup = .ok exampleConfig := rfl

/-- The worker of a process with that configuration. -/
def defaultWorker : Worker := newWorker { host := "h", pid := 1, rand := 7 } (workerOptions exampleConfig)

/-- A handler that succeeds after `took`. -/
def sleepHandler (took : Duration) : Handler := fun _ _ => { took, err := none }

/-- A job is enqueued and claimed, and a few seconds pass. -/
def claimedCalls : List Call :=
  [.enqueue 0 (.ok 1) exampleJob, .claim defaultWorker ["noop"] [], .advance (11 * 1000000)]

def claimedDb : Db := (Lts.replay (Db.step id id) (.empty 0) claimedCalls).1

def claimedJob : Claimed := (claimedDb.rows.get ⟨0, by decide⟩).claimed

theorem claimedJob_held : LeaseHeld defaultWorker claimedJob claimedDb :=
  ⟨claimedDb.rows.get ⟨0, by decide⟩, List.get_mem _ _, by decide, rfl, rfl⟩

/-- The run of `claimedJob` by a handler that takes `took`, in a process that is never cancelled. -/
def sleepRun (took : Duration) : Recording :=
  defaultWorker.run (fun _ => some (sleepHandler took)) { doneAt := none } 0 none 0 claimedJob

theorem outcome_recorded_nine_seconds :
    ∃ x ∈ ((sleepRun (9 * second)).issue id id defaultWorker claimedJob claimedDb).rows,
      x.id = claimedJob.id ∧ x.state = .succeeded := by
  have hrun : Db.Run id id (.empty 0) _ claimedDb := Lts.Run.of_replay (Db.step id id) claimedCalls _
  have hres : sleepHandler (9 * second) (defaultWorker.jobCtx { doneAt := none } 0 none) claimedJob =
      { took := 9 * second, err := none } := rfl
  have hrec : defaultWorker.run (fun _ => some (sleepHandler (9 * second))) { doneAt := none } 0 none 0
      claimedJob = sleepRun (9 * second) := rfl
  have hreply : (claimedDb.step id id (.outcome defaultWorker claimedJob.id
      (sleepRun (9 * second)).outcome)).2 = .recorded 1 := by decide
  have haccept : ∀ e, (claimedDb.step id id (.outcome defaultWorker claimedJob.id
      (sleepRun (9 * second)).outcome)).2 ≠ .error e := by
    rw [hreply]
    simp
  exact (outcome_recorded_iff exampleConfig_loaded rfl rfl hres (by decide) (by decide) hrec hrun
    claimedJob_held haccept).2.mpr (by decide)

/-- A handler that takes eleven seconds of the five minutes it has: the lease is held and the database
would accept the statement, but its context is done and the row stays leased. -/
theorem outcome_lost_eleven_seconds :
    loadFrom exampleLib exampleLookup = .ok exampleConfig ∧
      11 * second ≤ defaultWorker.opts.timeout ∧
      LeaseHeld defaultWorker claimedJob claimedDb ∧
      (claimedDb.step id id (.outcome defaultWorker claimedJob.id (sleepRun (11 * second)).outcome)).2 =
        .recorded 1 ∧
      (sleepRun (11 * second)).ctx.live (sleepRun (11 * second)).instant = false ∧
      ((sleepRun (11 * second)).issue id id defaultWorker claimedJob claimedDb).rows.map Job.state =
        [.leased] :=
  ⟨exampleConfig_loaded, by decide, claimedJob_held, by decide, by decide, by decide⟩

end Vizra.Jobs
