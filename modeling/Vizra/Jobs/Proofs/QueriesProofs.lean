import Vizra.Jobs.Proofs.TableProofs

/-!
# One specification lemma for each statement of `jobs.sql`

Every lemma is about a table with `TableInv` and lists what the statement can do: fail on the size of
a text and change nothing, find no row, or write the rows it names.
-/

namespace Vizra.Jobs

open Go Vizra.Pg

/-- The primary key picks one row. -/
theorem eq_of_id_eq {rows : Table} (h : (rows.map Job.id).Nodup) {a b : Job} (ha : a ∈ rows)
    (hb : b ∈ rows) (hid : a.id = b.id) : a = b :=
  List.inj_on_of_nodup_map h ha hb hid

theorem filter_id {rows : Table} (h : (rows.map Job.id).Nodup) {c : Job} (hc : c ∈ rows) :
    rows.filter (fun r => r.id = c.id) = [c] := by
  have hcongr : rows.filter (fun r => (r.id = c.id : Bool)) = rows.filter fun r => (r = c : Bool) := by
    refine List.filter_congr fun r hr => ?_
    simp only [decide_eq_decide]
    exact ⟨eq_of_id_eq h hr hc, fun e => by rw [e]⟩
  rw [hcongr, List.filter_eq, List.count_eq_one_of_mem h.of_map hc]
  rfl

theorem heldBy_iff {id : Uuid} {leased_by : Option String} {r : Job} :
    heldBy id leased_by r = true ↔
      r.id = id ∧ r.state = .leased ∧ ∃ w, r.leased_by = some w ∧ leased_by = some w := by
  simp [heldBy, sqlEq_eq_true, and_assoc]

theorem claimable_iff {now : Time} {kinds : List String} {r : Job} :
    claimable now kinds r = true ↔
      r.state = .queued ∧ r.run_after ≤ now ∧ r.attempts < r.max_attempts ∧ r.kind ∈ kinds := by
  simp [claimable, and_assoc]

theorem claimCandidate_spec {now : Time} {kinds : List String} {locked : List Uuid} {rows : Table}
    {c : Job} (h : claimCandidate now kinds locked rows = some c) :
    c ∈ rows ∧ claimable now kinds c = true ∧ c.id ∉ locked := by
  have hm := List.mem_of_mem_head? (Option.mem_def.mpr h)
  rw [List.mem_insertionSort, List.mem_filter] at hm
  simpa using hm

/-! ## The SET clauses -/

theorem idemKey_of_live {r r' : Job} (hk : r'.kind = r.kind) (hi : r'.idempotency_key = r.idempotency_key)
    (hs : r'.state.live = r.state.live) : idemKey r' = idemKey r := by
  simp [idemKey, hk, hi, hs]

theorem idemKey_of_not_live {r : Job} (h : r.state.live = false) : idemKey r = none := by
  simp [idemKey, h]

theorem RowInv.leaseTo {r : Job} (h : RowInv r) (hq : r.state = .queued) (now : Time)
    {p : ClaimJobParams} (hp : p.leased_by.isSome = true) : RowInv (r.leaseTo now p) where
  attempts_nonneg := by have := h.attempts_nonneg; simp [Job.leaseTo]; omega
  attempts_le := by have := h.budget hq; simp [Job.leaseTo]; omega
  max_pos := h.max_pos
  lease := by simp [Job.leaseTo, hp]
  finished := by have := h.finished; simpa [Job.leaseTo, hq, JobState.live] using this
  budget := by simp [Job.leaseTo]

theorem RowInv.renew {r : Job} (h : RowInv r) (hl : r.state = .leased) (now : Time) (d : Interval) :
    RowInv (r.renew now d) where
  attempts_nonneg := h.attempts_nonneg
  attempts_le := h.attempts_le
  max_pos := h.max_pos
  lease := by simpa [Job.renew] using fun hs => (h.lease hs).2
  finished := h.finished
  budget := by simp [Job.renew, hl]

theorem RowInv.complete {r : Job} (h : RowInv r) (now : Time) : RowInv (r.complete now) where
  attempts_nonneg := h.attempts_nonneg
  attempts_le := h.attempts_le
  max_pos := h.max_pos
  lease := by simp [Job.complete]
  finished := by simp [Job.complete, JobState.live]
  budget := by simp [Job.complete]

theorem RowInv.retry {r : Job} (h : RowInv r) (hl : r.state = .leased)
    (hb : r.attempts < r.max_attempts) (now : Time) (d : Interval) (e : Option String) :
    RowInv (r.retry now d e) where
  attempts_nonneg := h.attempts_nonneg
  attempts_le := h.attempts_le
  max_pos := h.max_pos
  lease := by simp [Job.retry]
  finished := by have := h.finished; simpa [Job.retry, hl, JobState.live] using this
  budget := fun _ => hb

theorem RowInv.finish {r : Job} (h : RowInv r) {s : JobState} (hs : s.live = false) (now : Time)
    (e : Option String) : RowInv (r.finish s now e) where
  attempts_nonneg := h.attempts_nonneg
  attempts_le := h.attempts_le
  max_pos := h.max_pos
  lease := by cases s <;> simp_all [Job.finish, JobState.live]
  finished := by simp [Job.finish, hs]
  budget := by cases s <;> simp_all [Job.finish, JobState.live]

theorem RowInv.sweep {r : Job} (h : RowInv r) (now : Time) : RowInv (r.sweep now) := by
  by_cases hx : r.attempts ≥ r.max_attempts
  · simp only [Job.sweep, hx, if_true]
    exact ⟨h.attempts_nonneg, h.attempts_le, h.max_pos, by simp, by simp [JobState.live], by simp⟩
  · simp only [Job.sweep, hx, if_false]
    refine ⟨h.attempts_nonneg, h.attempts_le, h.max_pos, by simp, by simp [JobState.live], fun _ => ?_⟩
    simp only
    omega

/-! ## The statements -/

/-- A fresh row with the invariant can be appended when it conflicts with no row. -/
theorem TableInv.append {rows : Table} (h : TableInv rows) {r : Job} (hr : RowInv r)
    (hc : conflicts rows r = false) : TableInv (rows ++ [r]) := by
  simp only [conflicts, List.any_eq_false, Bool.or_eq_true, Bool.and_eq_true, decide_eq_true_eq,
    not_or, not_and] at hc
  refine ⟨?_, ?_, ?_⟩
  · rw [List.map_append, List.nodup_append]
    refine ⟨h.pkey, by simp, ?_⟩
    intro a ha b hb hab
    obtain ⟨x, hx, rfl⟩ := List.mem_map.mp ha
    obtain rfl : b = r.id := by simpa using hb
    exact (hc x hx).1 hab
  · rw [List.filterMap_append, List.nodup_append]
    refine ⟨h.idem, ?_, ?_⟩
    · cases hk : idemKey r <;> simp [hk]
    · intro a ha b hb hab
      obtain ⟨x, hx, hxa⟩ := List.mem_filterMap.mp ha
      obtain ⟨y, hy, hyb⟩ := List.mem_filterMap.mp hb
      obtain rfl : y = r := by simpa using hy
      exact (hc x hx).2 (by rw [hyb]; rfl) (by rw [hxa, hyb, hab])
  · intro x hx
    rcases List.mem_append.mp hx with hx | hx
    · exact h.row x hx
    · obtain rfl : x = r := by simpa using hx
      exact hr

theorem enqueueJob_cases (jsonbText : String → String) {rows : Table} (h : TableInv rows) (now : Time)
    {p : EnqueueJobParams} (hr : RowInv (p.row jsonbText now)) :
    (∃ e, enqueueJob jsonbText now p rows = .error e ∧ e.sizeOnly) ∨
    (enqueueJob jsonbText now p rows = .ok (rows, none) ∧ conflicts rows (p.row jsonbText now) = true) ∨
    (enqueueJob jsonbText now p rows = .ok (rows ++ [p.row jsonbText now], some (p.row jsonbText now)) ∧
      conflicts rows (p.row jsonbText now) = false) := by
  unfold enqueueJob
  rcases withTexts_cases [some p.kind, p.idempotency_key, some p.correlation_id] _ with ht | ht
  · exact Or.inl ⟨_, ht, trivial⟩
  rw [ht]
  simp only
  split_ifs with h1 h2
  · exact Or.inl ⟨_, rfl, fun c hc => hr.violated_not_life hc⟩
  · exact Or.inr (Or.inl ⟨rfl, h2⟩)
  · have hi := h.append hr (by simpa using h2)
    have hw : ∀ r ∈ [p.row jsonbText now], RowInv r := by simpa using hr
    rcases store_cases hw hi.pkey hi.idem with ⟨e, he, hs⟩ | he
    · exact Or.inl ⟨e, by rw [he]; rfl, hs⟩
    · exact Or.inr (Or.inr ⟨by rw [he]; rfl, by simpa using h2⟩)

theorem keepsRow_leaseTo {rows : Table} (h : TableInv rows) {c : Job} (hc : c ∈ rows)
    (hq : c.state = .queued) (now : Time) {p : ClaimJobParams} (hp : p.leased_by.isSome = true) :
    KeepsRow rows (fun r => r.id = c.id) fun r => r.leaseTo now p where
  id_eq _ := rfl
  inv r hr hid hi := by
    obtain rfl := eq_of_id_eq h.pkey hr hc (by simpa using hid)
    exact hi.leaseTo hq now hp
  key r hr hid := by
    obtain rfl := eq_of_id_eq h.pkey hr hc (by simpa using hid)
    exact Or.inl (idemKey_of_live rfl rfl (by simp [Job.leaseTo, hq, JobState.live]))

theorem claimJob_cases {rows : Table} (h : TableInv rows) (now : Time) {p : ClaimJobParams}
    (hp : p.leased_by.isSome = true) (locked : List Uuid) :
    (∃ e, claimJob now p locked rows = .error e ∧ e.sizeOnly) ∨
    claimJob now p locked rows = .ok (rows, none) ∨
    ∃ c ∈ rows, claimCandidate now p.kinds locked rows = some c ∧ claimable now p.kinds c = true ∧
      claimJob now p locked rows =
        .ok (updated rows (fun r => r.id = c.id) fun r => r.leaseTo now p, some (c.leaseTo now p)) := by
  unfold claimJob
  rcases withTexts_cases (p.leased_by :: p.kinds.map some) _ with ht | ht
  · exact Or.inl ⟨_, ht, trivial⟩
  rw [ht]
  cases hcand : claimCandidate now p.kinds locked rows with
  | none => exact Or.inr (Or.inl rfl)
  | some c =>
    obtain ⟨hc, hcl, -⟩ := claimCandidate_spec hcand
    rcases updateWhere_cases h (keepsRow_leaseTo h hc (claimable_iff.mp hcl).1 now hp) with
      ⟨e, he, hs⟩ | he
    · exact Or.inl ⟨e, by simp only [he]; rfl, hs⟩
    · refine Or.inr (Or.inr ⟨c, hc, rfl, hcl, ?_⟩)
      simp only [he, filter_id h.pkey hc]
      rfl

/-- The SET clauses of the statements on a held row keep the row invariant. -/
theorem keepsRow_held {rows : Table} {id : Uuid} {leased_by : Option String} {guard : Job → Bool}
    {f : Job → Job} (hid : ∀ r, (f r).id = r.id)
    (hinv : ∀ r, r.state = .leased → guard r = true → RowInv r → RowInv (f r))
    (hkind : ∀ r, (f r).kind = r.kind) (hkey : ∀ r, (f r).idempotency_key = r.idempotency_key) :
    KeepsRow rows (fun r => heldBy id leased_by r && guard r) f where
  id_eq := hid
  inv r _ hp hi := by
    rw [Bool.and_eq_true, heldBy_iff] at hp
    exact hinv r hp.1.2.1 hp.2 hi
  key r _ hp := by
    rw [Bool.and_eq_true, heldBy_iff] at hp
    -- a row that leaves the live states gives its key back
    cases hl : (f r).state.live
    · exact Or.inr (idemKey_of_not_live hl)
    · exact Or.inl (idemKey_of_live (hkind r) (hkey r) (by rw [hl, hp.1.2.1]; rfl))

theorem keepsRow_renew (rows : Table) (id : Uuid) (leased_by : Option String) (now : Time) (d : Interval) :
    KeepsRow rows (fun r => heldBy id leased_by r && true) fun r => r.renew now d :=
  keepsRow_held (fun _ => rfl) (fun _ hl _ hi => hi.renew hl now d) (fun _ => rfl) fun _ => rfl

theorem keepsRow_complete (rows : Table) (id : Uuid) (leased_by : Option String) (now : Time) :
    KeepsRow rows (fun r => heldBy id leased_by r && true) fun r => r.complete now :=
  keepsRow_held (fun _ => rfl) (fun _ _ _ hi => hi.complete now) (fun _ => rfl) fun _ => rfl

theorem keepsRow_retry (rows : Table) (id : Uuid) (leased_by : Option String) (now : Time) (d : Interval)
    (e : Option String) :
    KeepsRow rows (fun r => heldBy id leased_by r && (r.attempts < r.max_attempts : Bool))
      fun r => r.retry now d e :=
  keepsRow_held (fun _ => rfl) (fun _ hl hb hi => hi.retry hl (by simpa using hb) now d e) (fun _ => rfl)
    fun _ => rfl

theorem keepsRow_finish (rows : Table) (id : Uuid) (leased_by : Option String) {s : JobState}
    (hs : s.live = false) (now : Time) (e : Option String) :
    KeepsRow rows (fun r => heldBy id leased_by r && true) fun r => r.finish s now e :=
  keepsRow_held (fun _ => rfl) (fun _ _ _ hi => hi.finish hs now e) (fun _ => rfl) fun _ => rfl

theorem elapsed_iff {now : Time} {r : Job} :
    elapsed now r = true ↔ r.state = .leased ∧ ∃ t, r.leased_until = some t ∧ t < now := by
  cases h : r.leased_until <;> simp [elapsed, sqlLt, h]

theorem Job.sweep_attempts (r : Job) (now : Time) : (r.sweep now).attempts = r.attempts := by
  unfold Job.sweep; split_ifs <;> rfl

theorem Job.sweep_not_leased (r : Job) (now : Time) : (r.sweep now).state ≠ .leased := by
  unfold Job.sweep; split_ifs <;> simp

theorem keepsRow_sweep (rows : Table) (now : Time) :
    KeepsRow rows (elapsed now) fun r => r.sweep now where
  id_eq r := by unfold Job.sweep; split_ifs <;> rfl
  inv r _ _ hi := hi.sweep now
  key r _ hp := by
    by_cases hx : r.attempts ≥ r.max_attempts
    · exact Or.inr (idemKey_of_not_live (by simp [Job.sweep, hx, JobState.live]))
    · refine Or.inl (idemKey_of_live ?_ ?_ ?_) <;>
        simp [Job.sweep, hx, (elapsed_iff.mp hp).1, JobState.live]

end Vizra.Jobs
