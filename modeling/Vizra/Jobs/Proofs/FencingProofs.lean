import Vizra.Jobs.Proofs.SystemProofs

/-!
# Lease fencing

The heartbeat and the outcome statements are guarded by `(id, state, leased_by)`, which names a worker
and not one of its claims. `Exclusive` is the condition under which that is enough: no worker claims a
job while an unfinished run of the same worker id is on it. `LeaseInv` is the invariant of the runs
that keep to it, and `lease_fencing` says that every statement of a run then acts on its own claim.
-/

namespace Vizra.Jobs

open Go Vizra.Pg

variable {jsonbText safeError : String → String}

/-! ## Steps of the cluster -/

/-- `r` is the run `old`, with its goroutines at most as far from their end. -/
structure WorkerRun.Continues (r old : WorkerRun) : Prop where
  worker : r.worker = old.worker
  job : r.job = old.job
  active : r.active = true → old.active = true

theorem WorkerRun.Continues.refl (r : WorkerRun) : r.Continues r := ⟨rfl, rfl, id⟩

theorem WorkerRun.Continues.stopBeating (r : WorkerRun) :
    WorkerRun.Continues { r with beating := false } r :=
  ⟨rfl, rfl, by simp only [WorkerRun.active]; grind⟩

theorem WorkerRun.Continues.stopWorking (r : WorkerRun) :
    WorkerRun.Continues { r with working := false } r :=
  ⟨rfl, rfl, by simp only [WorkerRun.active]; grind⟩

theorem WorkerRun.Continues.stop (r : WorkerRun) :
    WorkerRun.Continues { r with beating := false, working := false } r :=
  ⟨rfl, rfl, by simp [WorkerRun.active]⟩

theorem continues_of_mem_modify {runs : List WorkerRun} {i : Nat} {f : WorkerRun → WorkerRun}
    (hf : ∀ r, (f r).Continues r) {run : WorkerRun} (h : run ∈ runs.modify i f) :
    ∃ old ∈ runs, run.Continues old := by
  obtain ⟨k, hk⟩ := List.mem_iff_getElem?.mp h
  rw [List.getElem?_modify] at hk
  obtain ⟨old, hold, rfl⟩ := Option.map_eq_some_iff.mp hk
  refine ⟨old, List.mem_iff_getElem?.mpr ⟨k, hold⟩, ?_⟩
  split
  · exact hf old
  · exact .refl old

/-- A run after a step continues one from before it, or was started by a claim. -/
theorem mem_runsAfter {runs : List WorkerRun} {e : Event} {rep : Reply} {run : WorkerRun}
    (h : run ∈ runsAfter runs e rep) :
    (∃ old ∈ runs, run.Continues old) ∨
      ∃ w kinds locked r, e = .claim w kinds locked ∧ rep = .claimed (some r) ∧
        run = { worker := w, job := r.claimed, beating := true, working := true } := by
  have hkeep : run ∈ runs → ∃ old ∈ runs, run.Continues old := fun h => ⟨run, h, .refl run⟩
  unfold runsAfter at h
  split at h
  · rename_i w kinds locked r
    rcases List.mem_append.mp h with h | h
    · exact Or.inl (hkeep h)
    · exact Or.inr ⟨w, kinds, locked, r, rfl, rfl, List.mem_singleton.mp h⟩
  · exact Or.inl (continues_of_mem_modify .stopBeating h)
  · exact Or.inl (continues_of_mem_modify .stopWorking h)
  · exact Or.inl (hkeep h)

/-- A step either issues the call of its event, or only ends goroutines. -/
theorem Cluster.step_cases {c c' : Cluster} {e : Event} (h : c.step jsonbText safeError e = some c') :
    (c.issuer e = none ∧ c'.db = c.db ∧ ∀ run ∈ c'.runs, ∃ old ∈ c.runs, run.Continues old) ∨
      ∃ call, c.callOf e = some call ∧ c'.db = (c.db.step jsonbText safeError call).1 ∧
        c'.runs = runsAfter c.runs e (c.db.step jsonbText safeError call).2 := by
  unfold Cluster.step at h
  split at h
  · simp only [Option.ite_none_right_eq_some, Option.some.injEq] at h
    obtain ⟨-, rfl⟩ := h
    exact Or.inl ⟨rfl, rfl, fun run hr => continues_of_mem_modify .stopBeating hr⟩
  · simp only [Option.ite_none_right_eq_some, Option.some.injEq] at h
    obtain ⟨-, rfl⟩ := h
    exact Or.inl ⟨rfl, rfl, fun run hr => continues_of_mem_modify .stop hr⟩
  · obtain ⟨call, hc, rfl⟩ := Option.map_eq_some_iff.mp h
    exact Or.inr ⟨call, hc, rfl, rfl⟩

/-- Only a claim event issues a claim. -/
theorem Cluster.callOf_claim {c : Cluster} {e : Event} {w : Worker} {kinds : List String}
    {locked : List Uuid} (h : c.callOf e = some (.claim w kinds locked)) : e = .claim w kinds locked := by
  cases e with
  | claim w' kinds' locked' =>
    simp only [callOf, Option.ite_none_right_eq_some, Option.some.injEq, Call.claim.injEq] at h
    obtain ⟨-, rfl, rfl, rfl⟩ := h
    rfl
  | beat i | finish i err r =>
    simp only [callOf, Option.bind_eq_some_iff, Option.ite_none_right_eq_some] at h
    obtain ⟨_, _, _, h⟩ := h
    cases h
  | enqueue _ _ _ | sweep | advance _ | stopBeat _ | abandon _ => simp [callOf] at h

/-- The statement of a run is the heartbeat or the outcome of an active run, under its worker's id. -/
theorem Cluster.callOf_issuer {c : Cluster} {e : Event} {run : WorkerRun} {call : Call}
    (hi : c.issuer e = some run) (h : c.callOf e = some call) :
    run ∈ c.runs ∧ run.active = true ∧
      ∀ r, call.Selects r → heldBy run.job.id run.worker.leasedBy r = true := by
  cases e with
  | beat i | finish i err jit =>
    simp only [issuer] at hi
    simp only [callOf, hi, Option.bind_some, Option.ite_none_right_eq_some, Option.some.injEq] at h
    obtain ⟨ha, rfl⟩ := h
    exact ⟨List.mem_of_getElem? hi, by simp [WorkerRun.active, ha], fun r hr => hr⟩
  | enqueue _ _ _ | claim _ _ _ | sweep | advance _ | stopBeat _ | abandon _ => simp [issuer] at hi

/-! ## The invariant -/

/-- A claim takes no job on which an unfinished run of the same worker id is in flight. -/
def Exclusive (c : Cluster) : Event → Prop
  | .claim w kinds locked =>
    ∀ b ∈ claimCandidate c.db.now kinds locked c.db.rows, ∀ run ∈ c.runs, run.active = true →
      run.worker.opts.workerID = w.opts.workerID → run.job.id ≠ b.id
  | _ => True

instance (c : Cluster) (e : Event) : Decidable (Exclusive c e) := by
  cases e <;> simp only [Exclusive] <;> infer_instance

/-- A row that a worker holds is under the claim of every unfinished run which that worker has on it. -/
structure LeaseInv (c : Cluster) : Prop where
  table : TableInv c.db.rows
  claim_eq : ∀ run ∈ c.runs, run.active = true → ∀ r ∈ c.db.rows,
    heldBy run.job.id run.worker.leasedBy r = true → r.attempts = run.job.attempts

theorem LeaseInv.empty (now : Time) : LeaseInv (.empty now) := ⟨tableInv_nil, by simp [Cluster.empty]⟩

/-- The invariant for a run that goes on, when the row it holds was held under the same claim. -/
theorem LeaseInv.continues {c : Cluster} (h : LeaseInv c) {run old : WorkerRun} (hold : old ∈ c.runs)
    (hcon : run.Continues old) (hact : run.active = true) {r : Job} (hr : r ∈ c.db.rows)
    (hheld : heldBy run.job.id run.worker.leasedBy r = true) : r.attempts = run.job.attempts := by
  rw [hcon.worker, hcon.job] at hheld
  rw [hcon.job]
  exact h.claim_eq old hold (hcon.active hact) r hr hheld

theorem LeaseInv.step {c c' : Cluster} {e : Event} (h : LeaseInv c) (hex : Exclusive c e)
    (hstep : c.step jsonbText safeError e = some c') : LeaseInv c' := by
  rcases Cluster.step_cases hstep with ⟨-, hdb, hruns⟩ | ⟨call, hcall, hdb, hruns⟩
  · refine ⟨hdb ▸ h.table, fun run hrun hact r hr hheld => ?_⟩
    obtain ⟨old, hold, hcon⟩ := hruns run hrun
    exact h.continues hold hcon hact (hdb ▸ hr) hheld
  have hch := Db.step_change jsonbText safeError h.table call
  rw [← hdb] at hch
  refine ⟨hch.tableInv h.table, fun run hrun hact r hr hheld => ?_⟩
  rw [hruns] at hrun
  -- a run is new only when the reply is a claimed row, which leaves the last kind of change
  have hrun' := mem_runsAfter hrun
  generalize (c.db.step jsonbText safeError call).2 = rep at hch hrun'
  generalize c'.db.rows = rows' at hch hr
  cases hch with
  | none _ hn =>
    obtain ⟨old, hold, hcon⟩ | ⟨_, _, _, b, _, hb, _⟩ := hrun'
    · exact h.continues hold hcon hact hr hheld
    · exact absurd hb (hn b)
  | @insert _ x _ _ _ hq =>
    obtain ⟨old, hold, hcon⟩ | ⟨_, _, _, b, _, hb, _⟩ := hrun'
    · rcases List.mem_append.mp hr with hr | hr
      · exact h.continues hold hcon hact hr hheld
      -- the new row is queued, so nobody holds it
      · rw [List.mem_singleton.mp hr, heldBy_iff, hq] at hheld
        exact absurd hheld.2.1 (by decide)
    · cases hb
  | @write _ p f _ hk hsel ha hb _ hn =>
    obtain ⟨old, hold, hcon⟩ | ⟨_, _, _, b, _, hb, _⟩ := hrun'
    · obtain ⟨x, hx, ⟨hp, rfl⟩ | ⟨-, rfl⟩⟩ := mem_updated.mp hr
      · obtain ⟨hid, hl, hby⟩ := heldBy_iff.mp hheld
        rw [hk.id_eq] at hid
        rw [hb x hl] at hby
        rw [ha]
        exact h.continues hold hcon hact hx (heldBy_iff.mpr ⟨hid, (hsel x hp).leased, hby⟩)
      · exact h.continues hold hcon hact hx hheld
    · exact absurd hb (hn b)
  | @claim w kinds locked b hcand hb hq =>
    obtain rfl := Cluster.callOf_claim hcall
    obtain ⟨x, hx, ⟨hp, rfl⟩ | ⟨hp, rfl⟩⟩ := mem_updated.mp hr
    · -- the row just claimed: `b`, under the worker that claimed it
      obtain rfl := eq_of_id_eq h.table.pkey hx hb (by simpa using hp)
      obtain ⟨old, hold, hcon⟩ | ⟨w', _, _, y, he, hy, rfl⟩ := hrun'
      · obtain ⟨hid, -, hby⟩ := heldBy_iff.mp hheld
        rw [hcon.job] at hid
        rw [hcon.worker] at hby
        have hw : old.worker.opts.workerID = w.opts.workerID := by
          simpa [Job.leaseTo, Worker.claimParams] using hby
        -- an older run of the same worker id on this job: `Exclusive` rules it out
        exact absurd hid.symm (hex x hcand old hold (hcon.active hact) hw)
      · simp only [Reply.claimed.injEq, Option.some.injEq] at hy
        rw [← hy]
        rfl
    · obtain ⟨old, hold, hcon⟩ | ⟨w', _, _, y, he, hy, rfl⟩ := hrun'
      · exact h.continues hold hcon hact hx hheld
      · simp only [Reply.claimed.injEq, Option.some.injEq] at hy
        have hid : r.id = b.id := by
          rw [(heldBy_iff.mp hheld).1, ← hy]
          rfl
        simp [hid] at hp

theorem LeaseInv.of_run {now : Time} {es : List Event} {c : Cluster}
    (h : Cluster.Run jsonbText safeError Exclusive (.empty now) es c) : LeaseInv c :=
  h.inv (LeaseInv.empty now) fun _ _ _ hi hs => hi.step hs.1 hs.2

/-- A statement of a run changes the row of its job only while the row is leased under the claim that
started the run. -/
def Fenced (c : Cluster) (e : Event) (c' : Cluster) : Prop :=
  ∀ run, c.issuer e = some run → ∀ r ∈ c.db.rows, r.id = run.job.id → r ∉ c'.db.rows →
    r.state = .leased ∧ r.attempts = run.job.attempts

/-- Lease fencing, in every run whose claims are exclusive. -/
theorem lease_fencing {now : Time} {es : List Event} {c c' : Cluster} {e : Event}
    (h : Cluster.Run jsonbText safeError Exclusive (.empty now) es c)
    (hstep : c.step jsonbText safeError e = some c') : Fenced c e c' := by
  intro run hissuer r hr _ hchanged
  have hinv := LeaseInv.of_run h
  rcases Cluster.step_cases hstep with ⟨hno, -, -⟩ | ⟨call, hcall, hdb, -⟩
  · rw [hno] at hissuer
    cases hissuer
  obtain ⟨hrun, hact, hsel'⟩ := Cluster.callOf_issuer hissuer hcall
  have hch := Db.step_change jsonbText safeError hinv.table call
  rw [← hdb] at hch
  have hheld : heldBy run.job.id run.worker.leasedBy r = true := by
    generalize c'.db.rows = rows' at hch hchanged
    generalize (c.db.step jsonbText safeError call).2 = rep at hch
    cases hch with
    | none _ _ => exact absurd hr hchanged
    | insert _ _ _ _ => exact absurd (List.mem_append_left _ hr) hchanged
    | @write _ p f _ _ hsel _ _ _ _ =>
      cases hp : p r with
      | true => exact hsel' r (hsel r hp)
      | false => exact absurd (mem_updated.mpr ⟨r, hr, Or.inr ⟨hp, rfl⟩⟩) hchanged
    | claim _ _ _ =>
      rw [Cluster.callOf_claim hcall] at hissuer
      cases hissuer
  exact ⟨(heldBy_iff.mp hheld).2.1, hinv.claim_eq run hrun hact r hr hheld⟩

/-- A job is enqueued and claimed, and half a minute passes. -/
def beatEvents : List Event :=
  [.enqueue 0 (.ok 1) exampleJob, .claim exampleWorker ["noop"] [], .advance (30 * 1000000)]

def beatCluster : Cluster :=
  (Lts.exec (Lts.restrict Exclusive (Cluster.step id id)) (.empty 0) beatEvents).get (by decide)

theorem lease_fencing_beat :
    Cluster.Run id id Exclusive (.empty 0) beatEvents beatCluster ∧
      ∃ c', beatCluster.step id id (.beat 0) = some c' ∧ c'.db.rows ≠ beatCluster.db.rows ∧
        Fenced beatCluster (.beat 0) c' := by
  have hrun : Cluster.Run id id Exclusive (.empty 0) beatEvents beatCluster :=
    (Lts.Run.of_exec (Option.some_get _).symm).mono fun _ _ _ => Lts.graph_restrict
  have hstep : beatCluster.step id id (.beat 0) = some ((beatCluster.step id id (.beat 0)).get (by decide)) :=
    (Option.some_get _).symm
  exact ⟨hrun, _, hstep, by decide, lease_fencing hrun hstep⟩

theorem not_fenced {c c' : Cluster} {e : Event} {run : WorkerRun} {r : Job} (hi : c.issuer e = some run)
    (hr : r ∈ c.db.rows) (hid : r.id = run.job.id) (hc : r ∉ c'.db.rows)
    (ha : r.attempts ≠ run.job.attempts) : ¬ Fenced c e c' :=
  fun h => ha (h run hi r hr hid hc).2

/-- A job is enqueued and claimed, no heartbeat gets through for longer than the lease, the job is swept
and the same worker claims it again in another slot while its first run goes on. -/
def reclaimEvents : List Event :=
  [.enqueue 0 (.ok 1) exampleJob, .claim exampleWorker ["noop"] [], .advance (61 * 1000000), .sweep,
    .advance (60 * 1000000), .claim exampleWorker ["noop"] [], .advance 1000000]

def reclaimCluster : Cluster :=
  (Lts.exec (Cluster.step id id) (.empty 0) reclaimEvents).get (by decide)

/-- The first run then renews, and completes, the second claim. -/
theorem lease_fencing_reclaim :
    Cluster.Run id id (fun _ _ => True) (.empty 0) reclaimEvents reclaimCluster ∧
      (∃ c', reclaimCluster.step id id (.beat 0) = some c' ∧ ¬ Fenced reclaimCluster (.beat 0) c') ∧
      ∃ c', reclaimCluster.step id id (.finish 0 none 0) = some c' ∧
        ¬ Fenced reclaimCluster (.finish 0 none 0) c' := by
  have hrun : Cluster.Run id id (fun _ _ => True) (.empty 0) reclaimEvents reclaimCluster :=
    (Lts.Run.of_exec (Option.some_get _).symm).mono fun _ _ _ h => ⟨trivial, h⟩
  have hrow := List.get_mem reclaimCluster.db.rows ⟨0, by decide⟩
  exact ⟨hrun,
    ⟨_, (Option.some_get (by decide)).symm, not_fenced rfl hrow (by decide) (by decide) (by decide)⟩,
    ⟨_, (Option.some_get (by decide)).symm, not_fenced rfl hrow (by decide) (by decide) (by decide)⟩⟩

end Vizra.Jobs
