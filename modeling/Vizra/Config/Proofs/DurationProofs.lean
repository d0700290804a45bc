import Vizra.Jobs.Proofs.RunProofs
import Vizra.OwnerClaim.Queries

/-!
# The durations of an accepted configuration

`mustDuration` accepts every positive number of nanoseconds. The heartbeat divides the lease by three, and the lease
and the lifetime of a token reach PostgreSQL in whole microseconds: each is then positive exactly if the duration is
at least a microsecond.
-/

namespace Vizra.Configuration

open Go Vizra.Pg

/-- What the three consumers need of a configuration. -/
structure DurationsSafe (cfg : Config) : Prop where
  heartbeat : ∀ p, 0 < (Jobs.newWorker p (Jobs.workerOptions cfg)).heartbeatPeriod
  lease : ∀ p kinds, 1 ≤ ((Jobs.newWorker p (Jobs.workerOptions cfg)).claimParams kinds).lease_duration
  ttl : 1 ≤ toInterval cfg.ownerClaimTTL
  -- `owner_claim_tokens_ttl`, of every row that a `Mint` writes
  mint : ∀ now digest old,
    let row := OwnerClaim.mintRow now digest (toInterval cfg.ownerClaimTTL) old
    row.minted_at < row.expires_at

theorem one_le_tdiv_iff {d : Int} : 1 ≤ d.tdiv 1000 ↔ 1000 ≤ d := by
  rcases Int.lt_or_le d 0 with hneg | hpos
  · obtain ⟨n, rfl⟩ : ∃ n, d = -n := ⟨-d, by omega⟩
    rw [Int.neg_tdiv, Int.tdiv_eq_ediv_of_nonneg (by omega)]
    omega
  · rw [Int.tdiv_eq_ediv_of_nonneg hpos]
    omega

theorem tdiv_three_pos {d : Int} (h : 1000 ≤ d) : 0 < d.tdiv 3 := by
  rw [Int.tdiv_eq_ediv_of_nonneg (by omega)]
  omega

theorem one_le_toInterval_iff {d : Duration} : 1 ≤ toInterval d ↔ microsecond ≤ d := one_le_tdiv_iff

/-- The worker of an accepted configuration has its lease. -/
theorem newWorker_lease {cfg : Config} (hpos : 0 < cfg.jobLease) (p : Jobs.Process) :
    (Jobs.newWorker p (Jobs.workerOptions cfg)).opts.lease = cfg.jobLease := by
  have hle : ¬ cfg.jobLease ≤ 0 := not_le.mpr hpos
  unfold Jobs.newWorker Jobs.Options.applyDefaults Jobs.workerOptions
  simp only [if_neg hle]

theorem durationsSafe_iff {cfg : Config} (hpos : 0 < cfg.jobLease) :
    DurationsSafe cfg ↔ microsecond ≤ cfg.jobLease ∧ microsecond ≤ cfg.ownerClaimTTL := by
  constructor
  · intro h
    have hlease := h.lease ⟨"", 0, 0⟩ []
    unfold Jobs.Worker.claimParams at hlease
    rw [newWorker_lease hpos] at hlease
    exact ⟨one_le_toInterval_iff.mp hlease, one_le_toInterval_iff.mp h.ttl⟩
  · rintro ⟨hlease, httl⟩
    have hinterval := one_le_toInterval_iff.mpr httl
    refine ⟨fun p => ?_, fun p kinds => ?_, hinterval, fun now digest old => ?_⟩
    · unfold Jobs.Worker.heartbeatPeriod
      rw [newWorker_lease hpos]
      exact tdiv_three_pos hlease
    · unfold Jobs.Worker.claimParams
      rw [newWorker_lease hpos]
      exact one_le_toInterval_iff.mpr hlease
    · have hlt : now < now + toInterval cfg.ownerClaimTTL := lt_add_of_pos_right now (lt_of_lt_of_le one_pos hinterval)
      cases old <;> exact hlt

/-- A duration key of an accepted environment has a value. -/
theorem parseDuration_of_accepted {lib : Lib} {lookup : Lookup} (h : problems lib lookup = []) {key : String}
    (hkey : key ∈ durationKeys) : parseDuration lib.fraction (get lookup key) = some (durationOf lib lookup key) := by
  simp only [problems, settingProblems, List.append_eq_nil_iff, List.flatMap_eq_nil_iff] at h
  have hnil := h.1.1.1.1.1.2 key hkey
  unfold durationOf
  unfold mustDuration at hnil ⊢
  cases hparse : parseDuration lib.fraction (get lookup key) with
  | none =>
    rw [hparse] at hnil
    cases hnil
  | some d =>
    rw [hparse] at hnil
    by_cases hd : d ≤ 0
    · simp only [if_pos hd] at hnil
      cases hnil
    · simp only [if_neg hd]

/-- The durations of an accepted configuration are safe exactly if the lease and the lifetime of a token are given as
at least a microsecond. -/
theorem accepted_durationsSafe_iff {lib : Lib} {lookup : Lookup} {cfg : Config} (h : loadFrom lib lookup = .ok cfg) :
    DurationsSafe cfg ↔ ∀ key ∈ ["VIZRA_JOB_LEASE", "VIZRA_OWNER_CLAIM_TTL"], ∀ d,
      parseDuration lib.fraction (get lookup key) = some d → microsecond ≤ d := by
  have hpos := (loadFrom_accepted h).jobLease_pos
  obtain ⟨hproblems, mode, searchMode, announce, origin, -, -, hcfg⟩ := loadFrom_ok h
  have hlease := parseDuration_of_accepted hproblems (by decide : "VIZRA_JOB_LEASE" ∈ durationKeys)
  have httl := parseDuration_of_accepted hproblems (by decide : "VIZRA_OWNER_CLAIM_TTL" ∈ durationKeys)
  rw [durationsSafe_iff hpos, List.forall_mem_cons, List.forall_mem_singleton, hlease, httl, hcfg]
  simp only [configOf, Option.some.injEq, forall_eq']

/-- An environment that sets the database, the lease and the lifetime of a token. -/
def durationLookup (lease ttl : String) : Lookup := fun k =>
  if k = "DATABASE_URL" then some "postgres://db"
  else if k = "VIZRA_JOB_LEASE" then some lease
  else if k = "VIZRA_OWNER_CLAIM_TTL" then some ttl
  else none

def durationConfig (lease ttl : String) : Config :=
  configOf Jobs.exampleLib (durationLookup lease ttl) .development .off .off "http://localhost:8080"

theorem accepted_durationsSafe_iff_microsecond : DurationsSafe (durationConfig "1us" "1us") := by
  have haccepted : loadFrom Jobs.exampleLib (durationLookup "1us" "1us") = .ok (durationConfig "1us" "1us") := rfl
  refine (accepted_durationsSafe_iff haccepted).mpr ?_
  have hlease : parseDuration Jobs.exampleLib.fraction (get (durationLookup "1us" "1us") "VIZRA_JOB_LEASE") =
    some 1000 := by decide
  have httl : parseDuration Jobs.exampleLib.fraction (get (durationLookup "1us" "1us") "VIZRA_OWNER_CLAIM_TTL") =
    some 1000 := by decide
  rw [List.forall_mem_cons, List.forall_mem_singleton, hlease, httl]
  simp only [Option.some.injEq, forall_eq']
  decide

/-- A lease of two nanoseconds panics the heartbeat, and a lifetime of one nanosecond is refused by the table. -/
theorem nanoseconds_not_durationsSafe :
    loadFrom Jobs.exampleLib (durationLookup "2ns" "1h") = .ok (durationConfig "2ns" "1h") ∧
      ¬ DurationsSafe (durationConfig "2ns" "1h") ∧
      (Jobs.newWorker ⟨"h", 1, 7⟩ (Jobs.workerOptions (durationConfig "2ns" "1h"))).heartbeatPeriod = 0 ∧
    loadFrom Jobs.exampleLib (durationLookup "60s" "1ns") = .ok (durationConfig "60s" "1ns") ∧
      ¬ DurationsSafe (durationConfig "60s" "1ns") ∧
      OwnerClaim.tokenViolation (OwnerClaim.mintRow 0 0 (toInterval (durationConfig "60s" "1ns").ownerClaimTTL) none) =
        some (.check .owner_claim_tokens_ttl) := by
  have hperiod : (Jobs.newWorker ⟨"h", 1, 7⟩ (Jobs.workerOptions (durationConfig "2ns" "1h"))).heartbeatPeriod = 0 := rfl
  have httl : toInterval (durationConfig "60s" "1ns").ownerClaimTTL = 0 := rfl
  refine ⟨rfl, fun h => ?_, hperiod, rfl, fun h => ?_, rfl⟩
  · have hpos := h.heartbeat ⟨"h", 1, 7⟩
    rw [hperiod] at hpos
    exact absurd hpos (by decide)
  · have hpos := h.ttl
    rw [httl] at hpos
    exact absurd hpos (by decide)

end Vizra.Configuration
