import Vizra.Config.Config

/-!
# What an accepted configuration guarantees

`loadFrom` accepts an environment only if no check had a problem, so each check gives a fact about the
configuration it returns.
-/

namespace Vizra.Configuration

open Go

theorem check_eq_nil {ok : Bool} {key message : String} : check ok key message = [] ↔ ok = true := by
  unfold check
  cases ok <;> simp

/-- A duration without a problem is positive. -/
theorem mustDuration_pos {lib : Lib} {lookup : Lookup} {key : String}
    (h : (mustDuration lib lookup key).2 = []) : 0 < (mustDuration lib lookup key).1 := by
  unfold mustDuration at h ⊢
  split at h
  · cases h
  · split at h
    · cases h
    · rename_i hd
      rw [if_neg hd]
      exact not_le.mp hd

/-- What the worker and the owner claim need of an accepted configuration. -/
structure Accepted (c : Config) : Prop where
  searchTimeout_pos : 0 < c.searchTimeout
  queueAgeThreshold_pos : 0 < c.queueAgeThreshold
  jobLease_pos : 0 < c.jobLease
  jobTimeout_pos : 0 < c.jobTimeout
  shutdownGrace_pos : 0 < c.shutdownGrace
  ownerClaimTTL_pos : 0 < c.ownerClaimTTL
  jobLease_lt : c.jobLease < c.jobTimeout
  concurrency_pos : 1 ≤ c.workerConcurrency

/-- An accepted environment has no problem, and its configuration is the one `configOf` reads off it. -/
theorem loadFrom_ok {lib : Lib} {lookup : Lookup} {c : Config} (h : loadFrom lib lookup = .ok c) :
    problems lib lookup = [] ∧
      ∃ mode searchMode announce origin, modeOf lib lookup = some mode ∧
        originOf lib lookup = .ok origin ∧ c = configOf lib lookup mode searchMode announce origin := by
  unfold loadFrom at h
  split at h
  · rename_i mode searchMode announce origin hp hm hs ha ho
    exact ⟨hp, mode, searchMode, announce, origin, hm, ho, (Except.ok.inj h).symm⟩
  · cases h

theorem loadFrom_accepted {lib : Lib} {lookup : Lookup} {c : Config}
    (h : loadFrom lib lookup = .ok c) : Accepted c := by
  obtain ⟨hp, mode, searchMode, announce, origin, -, -, rfl⟩ := loadFrom_ok h
  simp only [problems, settingProblems, boundProblems, List.append_eq_nil_iff, check_eq_nil,
    List.flatMap_eq_nil_iff] at hp
  obtain ⟨⟨⟨⟨⟨⟨-, hd⟩, -⟩, -⟩, ⟨⟨⟨hc, hlt⟩, -⟩, -⟩, -⟩, -⟩, -⟩ := hp
  have hpos : ∀ k ∈ durationKeys, 0 < durationOf lib lookup k := fun k hk => mustDuration_pos (hd k hk)
  have hl := hpos "VIZRA_JOB_LEASE" (by decide)
  have ht := hpos "VIZRA_JOB_TIMEOUT" (by decide)
  refine ⟨hpos _ (by decide), hpos _ (by decide), hl, ht, hpos _ (by decide), hpos _ (by decide),
    ?_, of_decide_eq_true hc⟩
  by_contra hn
  simp only [configOf, not_lt] at hn
  simp [hl, ht, hn] at hlt

end Vizra.Configuration
