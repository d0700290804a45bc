import Vizra.Jobs.System
import Vizra.Jobs.Proofs.EnqueueProofs

/-!
# The life of a job over every run of the table

`Db.step_change` lists once what a call can do to a table with `TableInv`. The invariant `DbInv` of a
run follows from it: it also counts, row by row, how often the events of the run claimed the row.
-/

namespace Vizra.Jobs

open Go Vizra.Pg

variable {c : Call} {r : Job} {s t : Db} {es : List (Call × Reply)} {rep : Reply}

/-- The reply is no violation of a life constraint or of a unique index. -/
def Reply.sizeOnly : Reply → Prop
  | .error e => e.sizeOnly
  | _ => True

/-- The rows the UPDATE of a call may write: under a lease, and for a heartbeat or an outcome under the
lease of the worker that issues it. -/
def Call.Selects : Call → Job → Prop
  | .heartbeat w id, r | .outcome w id _, r => heldBy id w.leasedBy r = true
  | _, r => r.state = .leased

theorem Call.Selects.leased (h : c.Selects r) : r.state = .leased := by
  cases c with
  | heartbeat w id | outcome w id o => exact (heldBy_iff.mp h).2.1
  | enqueue _ _ _ | claim _ _ _ | sweep | advance _ => exact h

/-- What a call does to the table of `s`: nothing, an insert, an UPDATE of leased rows that leaves
`attempts` alone and `leased_by` too while the lease lasts, or a claim of one queued row. -/
inductive Change (s : Db) : Call → Table → Reply → Prop where
  | none {c : Call} {rep : Reply} (hs : rep.sizeOnly) (hn : ∀ r, rep ≠ .claimed (some r)) :
      Change s c s.rows rep
  | insert {c : Call} {r : Job} (hr : RowInv r) (h0 : r.attempts = 0) (hc : conflicts s.rows r = false)
      (hq : r.state = .queued) : Change s c (s.rows ++ [r]) (.enqueued (some r))
  | write {c : Call} {p : Job → Bool} {f : Job → Job} {rep : Reply} (hk : KeepsRow s.rows p f)
      (hsel : ∀ r, p r = true → c.Selects r) (ha : ∀ r, (f r).attempts = r.attempts)
      (hb : ∀ r, (f r).state = .leased → (f r).leased_by = r.leased_by)
      (hs : rep.sizeOnly) (hn : ∀ r, rep ≠ .claimed (some r)) : Change s c (updated s.rows p f) rep
  | claim {w : Worker} {kinds : List String} {locked : List Uuid} {b : Job}
      (hcand : claimCandidate s.now kinds locked s.rows = some b) (hmem : b ∈ s.rows)
      (hq : b.state = .queued) :
      Change s (.claim w kinds locked)
        (updated s.rows (fun r => r.id = b.id) fun r => r.leaseTo s.now (w.claimParams kinds))
        (.claimed (some (b.leaseTo s.now (w.claimParams kinds))))

/-- An UPDATE of a held row, answered by `reply`. -/
theorem change_held (h : TableInv s.rows) {id : Uuid} {leased_by : Option String} (text : Option String)
    {guard : Job → Bool} {f : Job → Job} (hsel : ∀ r, heldBy id leased_by r = true → c.Selects r)
    (hk : KeepsRow s.rows (fun r => heldBy id leased_by r && guard r) f) (ha : ∀ r, (f r).attempts = r.attempts)
    (hb : ∀ r, (f r).state = .leased → (f r).leased_by = r.leased_by) {α : Type} (pick : List Job → α)
    {reply : α → Reply} (hrep : ∀ a, (reply a).sizeOnly ∧ ∀ r, reply a ≠ .claimed (some r)) :
    Change s c
      (s.settle reply ((updateHeld s.rows id leased_by text guard f).map fun w => (w.1, pick w.2))).1.rows
      (s.settle reply ((updateHeld s.rows id leased_by text guard f).map fun w => (w.1, pick w.2))).2 := by
  rcases updateHeld_cases h text hk with ⟨e, he, hs⟩ | he
  · rw [he]
    exact .none hs (by simp [Db.settle, Except.map])
  · rw [he]
    refine .write hk (fun r hp => hsel r ?_) ha hb (hrep _).1 (hrep _).2
    exact (Bool.and_eq_true _ _ ▸ hp).1

theorem Worker.claimParams_isSome (w : Worker) (kinds : List String) :
    (w.claimParams kinds).leased_by.isSome = true := by simp [Worker.claimParams]

variable {jsonbText safeError : String → String}

theorem Db.step_change (jsonbText safeError : String → String) (h : TableInv s.rows) (c : Call) :
    Change s c (s.step jsonbText safeError c).1.rows (s.step jsonbText safeError c).2 := by
  cases c with
  | enqueue now newID j =>
    simp only [Db.step]
    cases hp : prepare newID j with
    | error e => exact .none trivial (by simp)
    | ok p =>
      have hr := (prepare_ok hp).rowInv jsonbText now
      rcases enqueueJob_cases jsonbText h now hr with ⟨e, he, hs⟩ | ⟨he, -⟩ | ⟨he, hc⟩
      · simp only [he]
        exact .none hs (by simp [Db.settle])
      · simp only [he]
        exact .none trivial (by simp [Db.settle])
      · simp only [he]
        exact .insert hr rfl hc rfl
  | claim w kinds locked =>
    simp only [Db.step]
    rcases claimJob_cases h s.now (w.claimParams_isSome kinds) locked with
      ⟨e, he, hs⟩ | he | ⟨c, hc, hcand, hcl, he⟩
    · rw [he]
      exact .none hs (by simp [Db.settle])
    · rw [he]
      exact .none trivial (by simp [Db.settle])
    · rw [he]
      exact .claim hcand hc (claimable_iff.mp hcl).1
  | heartbeat w id =>
    exact change_held h none (fun _ hr => by exact hr) (keepsRow_renew ..) (fun _ => rfl) (fun _ _ => rfl)
      List.head? fun a => ⟨trivial, by simp⟩
  | outcome w id o =>
    cases o with
    | complete =>
      exact change_held h none (fun _ hr => by exact hr) (keepsRow_complete ..) (fun _ => rfl) (fun _ _ => rfl)
        List.length fun a => ⟨trivial, by simp⟩
    | fail text =>
      exact change_held h _ (fun _ hr => by exact hr) (keepsRow_finish _ _ _ rfl ..) (fun _ => rfl)
        (fun r hl => by cases hl) List.length fun a => ⟨trivial, by simp⟩
    | deadLetter text =>
      exact change_held h _ (fun _ hr => by exact hr) (keepsRow_finish _ _ _ rfl ..) (fun _ => rfl)
        (fun r hl => by cases hl) List.length fun a => ⟨trivial, by simp⟩
    | retry d text =>
      exact change_held h _ (fun _ hr => by exact hr) (keepsRow_retry ..) (fun _ => rfl)
        (fun r hl => by cases hl) List.length fun a => ⟨trivial, by simp⟩
  | sweep =>
    simp only [Db.step, sweepExpiredLeases]
    rcases updateWhere_cases h (keepsRow_sweep s.rows s.now) with ⟨e, he, hs⟩ | he
    · rw [he]
      exact .none hs (by simp [Db.settle])
    · rw [he]
      exact .write (keepsRow_sweep ..) (fun r hp => (elapsed_iff.mp hp).1)
        (fun r => r.sweep_attempts s.now) (fun r hl => absurd hl (r.sweep_not_leased s.now)) trivial
        (by simp [Db.settle])
  | advance d => exact .none trivial (by simp [Db.step])

/-! ## The invariant of a run -/

/-- The invariant of the table after the events `es`. -/
structure DbInv (es : List (Call × Reply)) (s : Db) : Prop where
  table : TableInv s.rows
  claims : ∀ r ∈ s.rows, r.attempts = claimsOf r.id es
  unseen : ∀ id, id ∉ s.rows.map Job.id → claimsOf id es = 0
  replies : ∀ e ∈ es, e.2.sizeOnly

theorem claimsOf_snoc (id : Uuid) (es : List (Call × Reply)) (e : Call × Reply) :
    claimsOf id (es ++ [e]) = claimsOf id es + if isClaimOf id e then 1 else 0 := by
  simp only [claimsOf, List.countP_append, List.countP_singleton]

theorem claimsOf_snoc_of_not_claimed {id : Uuid} (hn : ∀ r, rep ≠ .claimed (some r)) :
    claimsOf id (es ++ [(c, rep)]) = claimsOf id es := by
  have hf : isClaimOf id (c, rep) = false := by
    unfold isClaimOf
    split
    · rename_i r hr
      exact absurd hr (hn r)
    · rfl
  rw [claimsOf_snoc, hf]
  simp

theorem DbInv.empty (now : Time) : DbInv [] (Db.empty now) :=
  ⟨tableInv_nil, by simp [Db.empty], by simp [claimsOf], by simp⟩

/-- The table after a change has the invariant again. -/
theorem Change.tableInv {rows' : Table} (h : TableInv s.rows) (hc : Change s c rows' rep) : TableInv rows' := by
  cases hc with
  | none _ _ => exact h
  | insert hr _ hc _ => exact h.append hr hc
  | write hk _ _ _ _ _ => exact h.updated hk
  | claim _ hmem hq => exact h.updated (keepsRow_leaseTo h hmem hq _ (Worker.claimParams_isSome _ _))

theorem Change.sizeOnly {rows' : Table} (hc : Change s c rows' rep) : rep.sizeOnly := by
  cases hc with
  | none hs _ => exact hs
  | write _ _ _ _ hs _ => exact hs
  | insert _ _ _ _ | claim _ _ _ => trivial

/-- A finished row survives a change as it is. -/
theorem Change.finished {rows' : Table} (h : TableInv s.rows) (hc : Change s c rows' rep) (hr : r ∈ s.rows)
    (hl : r.state.live = false) : r ∈ rows' := by
  cases hc with
  | none _ _ => exact hr
  | insert _ _ _ _ => exact List.mem_append_left _ hr
  | write hk hsel _ _ _ _ =>
    refine mem_updated.mpr ⟨r, hr, Or.inr ⟨?_, rfl⟩⟩
    rw [Bool.eq_false_iff]
    intro hpr
    -- UPDATEs select leased rows, which are not finished
    rw [(hsel r hpr).leased] at hl
    cases hl
  | claim _ hmem hq =>
    refine mem_updated.mpr ⟨r, hr, Or.inr ⟨?_, rfl⟩⟩
    rw [decide_eq_false_iff_not]
    intro hid
    rw [eq_of_id_eq h.pkey hr hmem hid, hq] at hl
    cases hl

theorem not_mem_ids_of_conflicts {rows : Table} (h : conflicts rows r = false) : r.id ∉ rows.map Job.id := by
  intro hm
  obtain ⟨x, hx, hid⟩ := List.mem_map.mp hm
  simp only [conflicts, List.any_eq_false] at h
  exact h x hx (by simp [hid])

/-- The counters after a change: a claim moves `attempts` and the number of claims of its row together,
and nothing else moves either. -/
theorem DbInv.step (h : DbInv es s) (hc : Change s c t.rows rep) : DbInv (es ++ [(c, rep)]) t := by
  have htab := hc.tableInv h.table
  have hrep : ∀ e ∈ es ++ [(c, rep)], e.2.sizeOnly := by
    intro e he
    rcases List.mem_append.mp he with he | he
    · exact h.replies e he
    · rw [List.mem_singleton] at he
      rw [he]
      exact hc.sizeOnly
  generalize ht : t.rows = rows' at hc
  rw [ht] at htab
  cases hc with
  | none _ hn =>
    refine ⟨ht ▸ htab, fun r hr => ?_, fun id hid => ?_, hrep⟩
    · rw [claimsOf_snoc_of_not_claimed hn]; exact h.claims r (ht ▸ hr)
    · rw [claimsOf_snoc_of_not_claimed hn]; exact h.unseen id (ht ▸ hid)
  | @insert _ r hr h0 hcf hq =>
    have hn : ∀ x, Reply.enqueued (some r) ≠ .claimed (some x) := by simp
    refine ⟨ht ▸ htab, fun x hx => ?_, fun id hid => ?_, hrep⟩
    · rw [claimsOf_snoc_of_not_claimed hn]
      rw [ht] at hx
      rcases List.mem_append.mp hx with hx | hx
      · exact h.claims x hx
      · obtain rfl : x = r := by simpa using hx
        -- a fresh id has never been claimed
        rw [h.unseen _ (not_mem_ids_of_conflicts hcf), h0]
        rfl
    · rw [claimsOf_snoc_of_not_claimed hn]
      rw [ht, List.map_append, List.mem_append, not_or] at hid
      exact h.unseen id hid.1
  | @write _ p f _ hk hsel ha hb hs hn =>
    refine ⟨ht ▸ htab, fun x hx => ?_, fun id hid => ?_, hrep⟩
    · rw [claimsOf_snoc_of_not_claimed hn]
      rw [ht] at hx
      obtain ⟨r, hr, ⟨-, rfl⟩ | ⟨-, rfl⟩⟩ := mem_updated.mp hx
      · rw [ha, hk.id_eq]; exact h.claims r hr
      · exact h.claims _ hr
    · rw [claimsOf_snoc_of_not_claimed hn]
      rw [ht, updated_ids hk.id_eq] at hid
      exact h.unseen id hid
  | @claim w kinds locked b hcand hb hq =>
    have hid : ∀ r : Job, (r.leaseTo s.now (w.claimParams kinds)).id = r.id := fun _ => rfl
    refine ⟨ht ▸ htab, fun x hx => ?_, fun id hx => ?_, hrep⟩
    · rw [ht] at hx
      obtain ⟨r, hr, ⟨hp, rfl⟩ | ⟨hp, rfl⟩⟩ := mem_updated.mp hx
      -- both counters go up by one
      · obtain rfl := eq_of_id_eq h.table.pkey hr hb (by simpa using hp)
        rw [claimsOf_snoc]
        simp [isClaimOf, Job.leaseTo, h.claims _ hr]
      · rw [claimsOf_snoc, h.claims _ hr]
        have : b.id ≠ x.id := fun e => by simp [e] at hp
        simp [isClaimOf, hid, this]
    · rw [ht, updated_ids hid] at hx
      have : b.id ≠ id := fun e => hx (List.mem_map.mpr ⟨b, hb, e⟩)
      rw [claimsOf_snoc, h.unseen id hx]
      simp [isClaimOf, hid, this]

theorem DbInv.of_run {now : Time} (h : Db.Run jsonbText safeError (.empty now) es t) : DbInv es t := by
  refine h.inv_events (DbInv.empty now) fun es s e u hi hs => ?_
  have hc := Db.step_change jsonbText safeError hi.table e.1
  rw [hs] at hc
  exact hi.step hc

theorem TableInv.of_run (h : Db.Run jsonbText safeError s es t) (hs : TableInv s.rows) : TableInv t.rows := by
  refine h.inv (I := fun s => TableInv s.rows) hs fun s e u hi hs => ?_
  have hc := Db.step_change jsonbText safeError hi e.1
  rw [hs] at hc
  exact hc.tableInv hi

/-- A finished row is the same row after every run. -/
theorem finished_of_run (h : Db.Run jsonbText safeError s es t) (hs : TableInv s.rows) (hr : r ∈ s.rows)
    (hl : r.state.live = false) : r ∈ t.rows := by
  refine (h.inv (I := fun s => TableInv s.rows ∧ r ∈ s.rows) ⟨hs, hr⟩ fun s e u hi hs => ?_).2
  have hc := Db.step_change jsonbText safeError hi.1 e.1
  rw [hs] at hc
  exact ⟨hc.tableInv hi.1, hc.finished hi.1 hi.2 hl⟩

/-- The life of a job over every run from the empty table: no statement violates a constraint on the
life of a job or a unique index, no queued row is out of attempts, `attempts` counts the claims that
returned the row and so a job is delivered at most `max_attempts` times, and a finished row never
changes again. -/
theorem job_lifecycle {now : Time} {es : List (Call × Reply)} {t : Db}
    (h : Db.Run jsonbText safeError (.empty now) es t) :
    ((∀ e ∈ es, ∀ cs, e.2 = .error (.check cs) → ∀ c ∈ lifeConstraints, c ∉ cs) ∧
      (∀ e ∈ es, ∀ i, e.2 ≠ .error (.unique i)) ∧
      (∀ r ∈ t.rows, ∀ c ∈ lifeConstraints, c.holds r = true) ∧
      ∀ i : UniqueIndex, i.holds t.rows = true) ∧
    (∀ r ∈ t.rows, ¬ (r.state = .queued ∧ r.attempts ≥ r.max_attempts)) ∧
    (∀ r ∈ t.rows, r.attempts = claimsOf r.id es ∧ (claimsOf r.id es : Int) ≤ r.max_attempts) ∧
    (∀ es' u, Db.Run jsonbText safeError t es' u → ∀ r ∈ t.rows,
      r.state = .succeeded ∨ r.state = .failed ∨ r.state = .dead →
        r ∈ u.rows ∧ ∀ x ∈ u.rows, x.id = r.id → x = r) := by
  have hi := DbInv.of_run h
  refine ⟨⟨?_, ?_, ?_, ?_⟩, ?_, ?_, ?_⟩
  · intro e he cs hcs c hc hm
    have := hi.replies e he
    rw [hcs] at this
    exact this c hm hc
  · intro e he i hcs
    have := hi.replies e he
    rw [hcs] at this
    exact this
  · intro r hr c hc
    exact (hi.table.row r hr).holds hc
  · intro i
    cases i with
    | jobs_pkey => simpa [UniqueIndex.holds] using hi.table.pkey
    | jobs_idem => simpa [UniqueIndex.holds] using hi.table.idem
  · rintro r hr ⟨hq, ha⟩
    exact absurd ((hi.table.row r hr).budget hq) (not_lt.mpr ha)
  · intro r hr
    exact ⟨hi.claims r hr, hi.claims r hr ▸ (hi.table.row r hr).attempts_le⟩
  · intro es' u hu r hr hs
    have hl : r.state.live = false := by rcases hs with hs | hs | hs <;> rw [hs] <;> rfl
    have hru := finished_of_run hu hi.table hr hl
    exact ⟨hru, fun x hx hid => eq_of_id_eq (TableInv.of_run hu hi.table).pkey hx hru hid⟩

/-- A worker with a one-minute lease. -/
def exampleWorker : Worker where
  opts :=
    { lease := minute, timeout := 5 * minute, concurrency := 4, pollInterval := second
      sweepInterval := 2 * minute, drainGrace := 20 * second, workerID := "w"
      healthStaleAfter := 15 * second }
  lease_pos := by decide
  timeout_pos := by decide
  concurrency_pos := by decide
  workerID_ne := by decide

/-- A keyed no-op job with every default. -/
def exampleJob : NewJob :=
  { kind := "noop", payload := none, idempotencyKey := "k", priority := 0, maxAttempts := 0
    runAfter := none, correlationID := "c" }

/-- One job enqueued, claimed and completed. -/
def exampleCalls : List Call :=
  [.enqueue 0 (.ok 1) exampleJob, .claim exampleWorker ["noop"] [], .outcome exampleWorker 1 .complete]

theorem job_lifecycle_completed :
    ((Lts.replay (Db.step id id) (.empty 0) exampleCalls).1.rows.map fun r => (r.state, r.attempts)) =
        [(.succeeded, 1)] ∧
      ∀ r ∈ (Lts.replay (Db.step id id) (.empty 0) exampleCalls).1.rows,
        r.attempts = claimsOf r.id (Lts.replay (Db.step id id) (.empty 0) exampleCalls).2 :=
  ⟨by decide, fun r hr => ((job_lifecycle (Lts.Run.of_replay _ _ _)).2.2.1 r hr).1⟩

/-! ## What a job is -/

/-- The columns that only `EnqueueJob` writes. -/
def Job.identity (r : Job) : Uuid × String × String × Option String × Int × Int × String × Time :=
  (r.id, r.kind, r.payload, r.idempotency_key, r.priority, r.max_attempts, r.correlation_id, r.created_at)

/-- The row that the statement has inserted. -/
def Reply.inserted : Reply → Option Job
  | .enqueued r => r
  | _ => none

/-- A statement leaves every job what it is, and adds the one that it reports. -/
@[simp] def Conserves (s : Db) (o : Db × Reply) : Prop :=
  o.1.rows.map Job.identity = (s.rows ++ o.2.inserted.toList).map Job.identity

theorem identity_updated {rows : Table} {f : Job → Job} (hf : ∀ r, (f r).identity = r.identity) (p : Job → Bool) :
    (updated rows p f).map Job.identity = rows.map Job.identity := by
  rw [updated, List.map_map]
  refine List.map_congr_left fun r _ => ?_
  rw [Function.comp_apply, apply_ite Job.identity, hf, ite_self]

theorem conserves_held (h : TableInv s.rows) {id : Uuid} {leased_by text : Option String} {guard : Job → Bool}
    {f : Job → Job} (hk : KeepsRow s.rows (fun r => heldBy id leased_by r && guard r) f)
    (hf : ∀ r, (f r).identity = r.identity) {α : Type} {pick : List Job → α} {reply : α → Reply}
    (hrep : ∀ a, (reply a).inserted = none) :
    Conserves s (s.settle reply ((updateHeld s.rows id leased_by text guard f).map fun w => (w.1, pick w.2))) := by
  rcases updateHeld_cases h text hk with ⟨e, he, -⟩ | he
  · simp [he, Db.settle, Except.map, Reply.inserted]
  · simp [he, Db.settle, Except.map, hrep, identity_updated hf]

theorem Db.step_conserves (jsonbText safeError : String → String) (h : TableInv s.rows) (c : Call) :
    Conserves s (s.step jsonbText safeError c) := by
  cases c with
  | enqueue now newID j =>
    cases hp : prepare newID j with
    | error e => simp [Db.step, hp, Reply.inserted]
    | ok p =>
      have hr := (prepare_ok hp).rowInv jsonbText now
      rcases enqueueJob_cases jsonbText h now hr with ⟨e, he, -⟩ | ⟨he, -⟩ | ⟨he, -⟩ <;>
        simp [Db.step, hp, he, Db.settle, Reply.inserted]
  | claim w kinds locked =>
    have hf : ∀ r : Job, (r.leaseTo s.now (w.claimParams kinds)).identity = r.identity := fun _ => rfl
    rcases claimJob_cases h s.now (w.claimParams_isSome kinds) locked with ⟨e, he, -⟩ | he | ⟨b, -, -, -, he⟩ <;>
      simp [Db.step, he, Db.settle, Reply.inserted, identity_updated hf]
  | heartbeat w id => exact conserves_held h (keepsRow_renew ..) (fun _ => rfl) fun _ => rfl
  | outcome w id o =>
    cases o with
    | complete => exact conserves_held h (keepsRow_complete ..) (fun _ => rfl) fun _ => rfl
    | fail text | deadLetter text => exact conserves_held h (keepsRow_finish _ _ _ rfl ..) (fun _ => rfl) fun _ => rfl
    | retry d text => exact conserves_held h (keepsRow_retry ..) (fun _ => rfl) fun _ => rfl
  | sweep =>
    have hf : ∀ r : Job, (r.sweep s.now).identity = r.identity := by
      intro r
      unfold Job.sweep
      split_ifs <;> rfl
    rcases updateWhere_cases h (keepsRow_sweep s.rows s.now) with ⟨e, he, -⟩ | he <;>
      simp [Db.step, sweepExpiredLeases, he, Db.settle, Reply.inserted, identity_updated hf]
  | advance d => simp [Db.step, Reply.inserted]

/-- After every run the table holds the jobs that were inserted, in that order, each of them once and as it was. -/
theorem jobs_conserved {now : Time} (h : Db.Run jsonbText safeError (.empty now) es t) :
    t.rows.map Job.identity = (es.filterMap fun e => e.2.inserted).map Job.identity := by
  induction h with
  | refl => rfl
  | @tail es s u e hrun hs ih =>
    -- the table before the step has its invariant, whatever ran before
    have hstep := Db.step_conserves jsonbText safeError (DbInv.of_run hrun).table e.1
    rw [show s.step jsonbText safeError e.1 = (u, e.2) from hs, Conserves, List.map_append, ih] at hstep
    rw [hstep, List.filterMap_append, List.map_append]
    cases hr : e.2.inserted <;> simp [hr]

theorem jobs_conserved_completed :
    (Lts.replay (Db.step id id) (.empty 0) exampleCalls).1.rows.map Job.identity =
      ((Lts.replay (Db.step id id) (.empty 0) exampleCalls).2.filterMap fun e => e.2.inserted).map Job.identity :=
  jobs_conserved (Lts.Run.of_replay _ _ _)

end Vizra.Jobs
