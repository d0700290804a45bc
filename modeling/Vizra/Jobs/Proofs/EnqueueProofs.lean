import Vizra.Jobs.Enqueue
import Vizra.Jobs.Proofs.QueriesProofs

/-!
# `Enqueue` and its two snapshots

`prepare_ok` lists what the Go checks of `Enqueue` establish about the parameters of the insert.
-/

namespace Vizra.Jobs

open Go Vizra.Pg

/-- What `Enqueue` has checked before its first statement. -/
structure Prepared (newID : Except String Uuid) (j : NewJob) (p : EnqueueJobParams) : Prop where
  params_eq : p = j.params p.id p.payload
  id_eq : newID = .ok p.id
  raw_eq : j.raw = .ok p.payload
  kind_ne : j.kind ≠ ""
  kind_le : j.kind.utf8ByteSize ≤ maxKindBytes
  correlation_ne : j.correlationID ≠ ""
  correlation_le : j.correlationID.utf8ByteSize ≤ maxCorrelationIDBytes
  raw_le : p.payload.utf8ByteSize ≤ maxPayloadBytes

theorem prepare_ok {newID : Except String Uuid} {j : NewJob} {p : EnqueueJobParams}
    (h : prepare newID j = .ok p) : Prepared newID j p := by
  unfold prepare at h
  split_ifs at h with h1 h2 h3 h4
  split at h
  · cases h
  · rename_i raw hraw
    split_ifs at h with h5
    split at h
    · cases h
    · rename_i id
      obtain rfl := Except.ok.inj h
      exact ⟨rfl, rfl, hraw, h1, by omega, h2, by omega, not_lt.mp h5⟩

theorem Prepared.max_pos {newID : Except String Uuid} {j : NewJob} {p : EnqueueJobParams}
    (h : Prepared newID j p) : 1 ≤ p.max_attempts := by
  rw [h.params_eq]
  simp only [NewJob.params, defaultMaxAttempts]
  split <;> omega

/-- The row `Enqueue` inserts. -/
theorem Prepared.rowInv (jsonbText : String → String) {newID : Except String Uuid} {j : NewJob}
    {p : EnqueueJobParams} (h : Prepared newID j p) (now : Time) : RowInv (p.row jsonbText now) where
  attempts_nonneg := le_refl _
  attempts_le := le_trans zero_le_one h.max_pos
  max_pos := h.max_pos
  lease := by simp [EnqueueJobParams.row]
  finished := by simp [EnqueueJobParams.row, JobState.live]
  budget _ := lt_of_lt_of_le zero_lt_one h.max_pos

end Vizra.Jobs
