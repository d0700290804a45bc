import Vizra.Jobs.Proofs.SystemProofs

/-!
# A keyed `Enqueue` against other transactions

The insert and the read-back of `Enqueue` are two statements with two snapshots. `keyed_enqueue_iff`
says exactly when the pair answers with a job: the live row the insert met must not have been the
last one with its key to finish before the read-back looks.
-/

namespace Vizra.Jobs

open Go Vizra.Pg

/-- Some queued or leased row has the key. -/
def keyLive (kind key : String) (rows : Table) : Prop :=
  ∃ r ∈ rows, r.kind = kind ∧ r.idempotency_key = some key ∧ r.state.live = true

/-- The arguments of a keyed `Enqueue` are valid: the Go checks pass with the parameters `p`, the
schema accepts the row, and the fresh id is not in use. -/
structure ValidKeyed (jsonbText : String → String) (now : Time) (newID : Except String Uuid) (j : NewJob)
    (p : EnqueueJobParams) (rows : Table) : Prop where
  prepared : prepare newID j = .ok p
  key_ne : j.idempotencyKey ≠ ""
  texts : ∀ t ∈ [j.kind, j.idempotencyKey, j.correlationID], storable t = true
  accepted : violated (p.row jsonbText now) = []
  fresh : p.id ∉ rows.map Job.id

section Keyed

variable (jsonbText safeError : String → String)

/-- The table after the calls that other transactions make between the two statements. -/
def otherCalls (s : Db) (between : List Call) (rows : Table) : Table :=
  (Lts.replay (Db.step jsonbText safeError) { s with rows } between).1.rows

/-- The answer of `Enqueue` on the table of `s` with the calls `between` between its statements. -/
def keyedEnqueue (s : Db) (now : Time) (newID : Except String Uuid) (j : NewJob) (between : List Call) :
    Table × Except EnqueueError Enqueued :=
  enqueue jsonbText now newID j (otherCalls jsonbText safeError s between) s.rows

/-- The promise of a keyed `Enqueue`: the row it returns is one it inserted, or a row with the same
kind and key that is queued or leased at some instant of the call. -/
def KeyedPromise (s : Db) (now : Time) (newID : Except String Uuid) (j : NewJob) (between : List Call) :
    Prop :=
  ∃ x, (keyedEnqueue jsonbText safeError s now newID j between).2 = .ok x ∧
    ((∃ r ∈ (enqueueInsert jsonbText now newID j s.rows).1, r.id = x.id ∧ x.id ∉ s.rows.map Job.id ∧
        r.kind = j.kind ∧ r.idempotency_key = some j.idempotencyKey) ∨
      ∃ pre, pre <+: between ∧
        ∃ r ∈ otherCalls jsonbText safeError s pre (enqueueInsert jsonbText now newID j s.rows).1,
          r.id = x.id ∧ r.kind = j.kind ∧ r.idempotency_key = some j.idempotencyKey ∧
            r.state.live = true)

end Keyed

variable {jsonbText safeError : String → String}

theorem getLive_isSome_iff {kind key : String} {rows : Table} :
    (∃ r, getLiveJobByIdempotencyKey kind (some key) rows = some r) ↔ keyLive kind key rows := by
  rw [← Option.isSome_iff_exists, getLiveJobByIdempotencyKey, List.find?_isSome]
  simp [keyLive, sqlEq_eq_true, and_assoc]

theorem getLive_spec {kind key : String} {rows : Table} {r : Job}
    (h : getLiveJobByIdempotencyKey kind (some key) rows = some r) :
    r ∈ rows ∧ r.kind = kind ∧ r.idempotency_key = some key ∧ r.state.live = true := by
  refine ⟨List.mem_of_find?_eq_some h, ?_⟩
  have := List.find?_some h
  simpa [sqlEq_eq_true, and_assoc] using this

namespace ValidKeyed

variable {now : Time} {newID : Except String Uuid} {j : NewJob} {p : EnqueueJobParams} {rows : Table}

theorem kind_eq (h : ValidKeyed jsonbText now newID j p rows) : p.kind = j.kind := by
  rw [(prepare_ok h.prepared).params_eq]; rfl

theorem key_eq (h : ValidKeyed jsonbText now newID j p rows) :
    p.idempotency_key = some j.idempotencyKey := by
  rw [(prepare_ok h.prepared).params_eq]
  simp [NewJob.params, h.key_ne]

theorem correlation_eq (h : ValidKeyed jsonbText now newID j p rows) :
    p.correlation_id = j.correlationID := by
  rw [(prepare_ok h.prepared).params_eq]; rfl

/-- The insert meets a conflict exactly when a live row has the key. -/
theorem conflicts_iff (h : ValidKeyed jsonbText now newID j p rows) :
    conflicts rows (p.row jsonbText now) = true ↔ keyLive j.kind j.idempotencyKey rows := by
  have hkey : idemKey (p.row jsonbText now) = some (j.kind, j.idempotencyKey) := by
    simp [idemKey, EnqueueJobParams.row, JobState.live, h.kind_eq, h.key_eq]
  simp only [conflicts, List.any_eq_true, Bool.or_eq_true, Bool.and_eq_true, decide_eq_true_eq, hkey,
    Option.isSome_some, true_and, keyLive]
  constructor
  · rintro ⟨r, hr, hid | hk⟩
    · exact absurd (List.mem_map.mpr ⟨r, hr, hid⟩) h.fresh
    · refine ⟨r, hr, ?_⟩
      unfold idemKey at hk
      split_ifs at hk with hl
      simp only [Option.map_eq_some_iff, Prod.mk.injEq] at hk
      obtain ⟨k, hk, hkind, rfl⟩ := hk
      exact ⟨hkind, hk, hl⟩
  · rintro ⟨r, hr, hk, hi, hl⟩
    exact ⟨r, hr, Or.inr (by simp [idemKey, hl, hi, hk])⟩

/-- The first statement of a keyed `Enqueue` with valid arguments. -/
theorem enqueueJob_eq (h : ValidKeyed jsonbText now newID j p rows) (hi : TableInv rows) :
    enqueueJob jsonbText now p rows =
      if conflicts rows (p.row jsonbText now) then .ok (rows, none)
      else .ok (rows ++ [p.row jsonbText now], some (p.row jsonbText now)) := by
  have ht : ∀ {α : Type} (x : Except PgError α),
      withTexts [some p.kind, p.idempotency_key, some p.correlation_id] x = x := by
    intro α x
    have := h.texts
    simp only [List.mem_cons, List.not_mem_nil, or_false, forall_eq_or_imp, forall_eq] at this
    simp [withTexts, h.kind_eq, h.key_eq, h.correlation_eq, this]
  rw [enqueueJob, ht]
  simp only [h.accepted, ne_eq, not_true_eq_false, if_false]
  split_ifs with hc
  · rfl
  · have hn := hi.append ((prepare_ok h.prepared).rowInv jsonbText now) (by simpa using hc)
    rw [store_ok (by simp [h.accepted]) hn.pkey hn.idem]
    rfl

end ValidKeyed

theorem enqueueInsert_eq {now : Time} {newID : Except String Uuid} {j : NewJob} {p : EnqueueJobParams}
    {rows : Table} (h : ValidKeyed jsonbText now newID j p rows) (hi : TableInv rows) :
    enqueueInsert jsonbText now newID j rows =
      if conflicts rows (p.row jsonbText now) then (rows, .readBack j.kind (some j.idempotencyKey))
      else (rows ++ [p.row jsonbText now], .done (.ok ((p.row jsonbText now).enqueued false))) := by
  simp only [enqueueInsert, h.prepared, h.enqueueJob_eq hi]
  split_ifs with hc
  · simp only [h.key_eq, h.kind_eq]
  · rfl

/-- A keyed `Enqueue` with valid arguments keeps its promise exactly when no live row has its key at
the insert, or some live row has it at the read-back. Otherwise it returns an error. -/
theorem keyed_enqueue_iff {start : Time} {es : List (Call × Reply)} {s : Db}
    (hrun : Db.Run jsonbText safeError (.empty start) es s) {now : Time} {newID : Except String Uuid}
    {j : NewJob} {p : EnqueueJobParams} (h : ValidKeyed jsonbText now newID j p s.rows)
    (between : List Call) :
    KeyedPromise jsonbText safeError s now newID j between ↔
      (¬ keyLive j.kind j.idempotencyKey s.rows ∨
        keyLive j.kind j.idempotencyKey (otherCalls jsonbText safeError s between s.rows)) := by
  have hi := (DbInv.of_run hrun).table
  have hins := enqueueInsert_eq h hi
  -- with a conflict the answer is that of the read-back, which sees the later table
  by_cases hc : conflicts s.rows (p.row jsonbText now) = true
  · have hlive := h.conflicts_iff.mp hc
    rw [if_pos hc] at hins
    have hans : (keyedEnqueue jsonbText safeError s now newID j between).2 =
        enqueueReadBack j.kind (some j.idempotencyKey) (otherCalls jsonbText safeError s between s.rows) := by
      simp only [keyedEnqueue, enqueue, hins]
    constructor
    · rintro ⟨x, hx, -⟩
      right
      rw [hans, enqueueReadBack] at hx
      split at hx
      · cases hx
      · rename_i r hr
        exact getLive_isSome_iff.mp ⟨r, hr⟩
    · rintro (hn | hl)
      · exact absurd hlive hn
      · obtain ⟨r, hr⟩ := getLive_isSome_iff.mpr hl
        obtain ⟨hmem, hk, hkey, hst⟩ := getLive_spec hr
        refine ⟨r.enqueued true, by rw [hans, enqueueReadBack, hr], Or.inr ⟨between, List.prefix_rfl, ?_⟩⟩
        rw [hins]
        exact ⟨r, hmem, rfl, hk, hkey, hst⟩
  · have hlive : ¬ keyLive j.kind j.idempotencyKey s.rows := fun hl => hc (h.conflicts_iff.mpr hl)
    rw [if_neg hc] at hins
    refine ⟨fun _ => Or.inl hlive, fun _ => ⟨(p.row jsonbText now).enqueued false, ?_, Or.inl ?_⟩⟩
    · simp only [keyedEnqueue, enqueue, hins]
    · rw [hins]
      exact ⟨p.row jsonbText now, by simp, rfl, h.fresh, h.kind_eq, h.key_eq⟩

/-- One keyed job, enqueued and leased. -/
def leasedCalls : List Call := [.enqueue 0 (.ok 1) exampleJob, .claim exampleWorker ["noop"] []]

def leasedDb : Db := (Lts.replay (Db.step id id) (.empty 0) leasedCalls).1

theorem leasedDb_run :
    Db.Run id id (.empty 0) (Lts.replay (Db.step id id) (.empty 0) leasedCalls).2 leasedDb :=
  Lts.Run.of_replay _ _ _

/-- A second `Enqueue` of the same job has valid arguments. -/
theorem leasedDb_valid :
    ValidKeyed id 0 (.ok 2) exampleJob (exampleJob.params 2 "\x7b\x7d") leasedDb.rows where
  prepared := by decide
  key_ne := by decide
  texts := by decide
  accepted := by decide
  fresh := by decide

/-- While nothing else happens, the second `Enqueue` returns the job in flight. -/
theorem keyed_enqueue_quiet : KeyedPromise id id leasedDb 0 (.ok 2) exampleJob [] :=
  (keyed_enqueue_iff leasedDb_run leasedDb_valid []).mpr (Or.inr ⟨_, List.mem_singleton_self _, by decide⟩)

/-- When the worker completes the job between the two statements, the second `Enqueue` finds neither
a free key nor a live job: it returns an error. -/
theorem keyed_enqueue_race :
    (∃ es, Db.Run id id (.empty 0) es leasedDb) ∧
      ValidKeyed id 0 (.ok 2) exampleJob (exampleJob.params 2 "\x7b\x7d") leasedDb.rows ∧
      (keyedEnqueue id id leasedDb 0 (.ok 2) exampleJob [.outcome exampleWorker 1 .complete]).2 =
        .error (.notReadable "noop") ∧
      ¬ KeyedPromise id id leasedDb 0 (.ok 2) exampleJob [.outcome exampleWorker 1 .complete] := by
  have hans : (keyedEnqueue id id leasedDb 0 (.ok 2) exampleJob [.outcome exampleWorker 1 .complete]).2 =
      .error (.notReadable "noop") := by rfl
  refine ⟨⟨_, leasedDb_run⟩, leasedDb_valid, hans, ?_⟩
  rintro ⟨x, hx, -⟩
  rw [hans] at hx
  cases hx

end Vizra.Jobs
