import Vizra.HttpApi.Setup
import Vizra.OwnerClaim.Proofs.SafetyProofs

/-!
# How old an answer of `instanceClaimed` can be

The negative entry of the cache stands for a lookup: as long as no stamp is later than a lookup that found
no user, an answer "unclaimed" is at most `claimedNegativeTTL` older than such a lookup. The stamp that
`handleClaimStatus` writes after an answer from the cache is the one that can be later.
-/

namespace Vizra.HttpApi

open Go Vizra.OwnerClaim

variable {env : Env} {s s' t : Server} {i : Nat} {q : Request} {pc pc' : Pc} {l : Label}

/-! ## Steps -/

theorem Server.step_cases (h : s.step env l = some s') :
    (∃ d : Nat, l = .tick d ∧ s' = { s with now := s.now + d }) ∨
    (∃ dl db, l = .db dl ∧ s.db.step env dl = some db ∧ s' = { s with db }) ∨
    (∃ i q, l = .arrive i q ∧ s.requests i = none ∧
      s' = { s with requests := Function.update s.requests i (some (q, .arrived)) }) ∨
    (∃ i q pc t pc', l = .exec i ∧ s.requests i = some (q, pc) ∧ s.advance env q pc = some (t, pc') ∧
      s' = { t with requests := Function.update s.requests i (some (q, pc')) }) := by
  cases l with
  | tick d => exact Or.inl ⟨d, rfl, (Option.some.inj h).symm⟩
  | db dl =>
    obtain ⟨db, hdb, rfl⟩ := Option.map_eq_some_iff.mp h
    exact Or.inr (Or.inl ⟨dl, db, rfl, hdb, rfl⟩)
  | arrive i q =>
    simp only [step] at h
    split at h
    · rename_i hn
      exact Or.inr (Or.inr (Or.inl ⟨i, q, rfl, hn, (Option.some.inj h).symm⟩))
    · cases h
  | exec i =>
    obtain ⟨⟨q, pc⟩, hq, h⟩ := Option.bind_eq_some_iff.mp h
    obtain ⟨⟨t, pc'⟩, ha, rfl⟩ := Option.map_eq_some_iff.mp h
    exact Or.inr (Or.inr (Or.inr ⟨i, q, pc, t, pc', rfl, hq, ha, rfl⟩))

/-- Some lookup made at `t` or later found no user. -/
def negativeSince (lookups : List (Instant × Bool)) (t : Instant) : Bool :=
  lookups.any fun e => !e.2 && t ≤ e.1

theorem negativeSince_iff {lookups : List (Instant × Bool)} {t : Instant} :
    negativeSince lookups t = true ↔ ∃ e ∈ lookups, e.2 = false ∧ t ≤ e.1 := by
  simp [negativeSince]

theorem negativeSince_of_le {lookups : List (Instant × Bool)} {x y : Instant} (hxy : x ≤ y)
    (h : negativeSince lookups y = true) : negativeSince lookups x = true := by
  rw [negativeSince_iff] at h ⊢
  obtain ⟨e, he, hneg, hle⟩ := h
  exact ⟨e, he, hneg, hxy.trans hle⟩

theorem negativeSince_of_subset {lookups lookups' : List (Instant × Bool)} {x : Instant}
    (hsub : lookups ⊆ lookups') (h : negativeSince lookups x = true) :
    negativeSince lookups' x = true := by
  rw [negativeSince_iff] at h ⊢
  obtain ⟨e, he, hrest⟩ := h
  exact ⟨e, hsub he, hrest⟩

/-! ## The invariant -/

/-- What a request relies on. -/
def PcOk (now : Instant) (lookups : List (Instant × Bool)) : Pc → Prop
  | .loadClaimed t | .loadMu t | .lookup t => t ≤ now
  | .store t false => negativeSince lookups t = true
  | .answered t false => negativeSince lookups (t - claimedNegativeTTL) = true
  | _ => True

theorem PcOk.mono {now now' : Instant} {lookups lookups' : List (Instant × Bool)} (hnow : now ≤ now')
    (hsub : lookups ⊆ lookups') (h : PcOk now lookups pc) : PcOk now' lookups' pc := by
  unfold PcOk at h ⊢
  split at h
  case h_1 | h_2 | h_3 => exact h.trans hnow
  case h_4 | h_5 => exact negativeSince_of_subset hsub h
  case h_6 => simp

/-- The negative entry stands for a lookup. -/
def Stamped (s : Server) : Prop := s.cache.mu ≠ 0 → negativeSince s.lookups s.cache.mu = true

structure FreshInv (s : Server) : Prop where
  stamped : Stamped s
  past : ∀ e ∈ s.lookups, e.1 ≤ s.now
  requests : ∀ i q pc, s.requests i = some (q, pc) → PcOk s.now s.lookups pc

theorem FreshInv.init (now : Instant) (db : St) : FreshInv (.init now db) :=
  ⟨fun h => absurd rfl h, fun _ he => (List.not_mem_nil he).elim, fun _ _ _ h => by cases h⟩

/-- The step writes no negative stamp that is later than every lookup that found no user. -/
def backed (s : Server) : Label → Bool
  | .exec i =>
    match s.requests i with
    | some (_, .storeStamp now false) => negativeSince s.lookups now
    | _ => true
  | _ => true

def Backed (s : Server) (l : Label) : Prop := backed s l = true

instance (s : Server) (l : Label) : Decidable (Backed s l) := inferInstanceAs (Decidable (_ = true))

/-- A negative answer from the cache. -/
theorem Stamped.of_fresh (h : Stamped s) {now : Instant} (hf : s.cache.fresh now = true) :
    negativeSince s.lookups (now - claimedNegativeTTL) = true := by
  simp only [ClaimedCache.fresh, Bool.and_eq_true, decide_eq_true_iff] at hf
  have hle : now - claimedNegativeTTL ≤ s.cache.mu := by
    have hlt : (now - s.cache.mu : Int) < claimedNegativeTTL := hf.2
    exact Int.sub_le_of_sub_le (Int.le_of_lt hlt)
  exact negativeSince_of_le hle (h hf.1)

theorem Stamped.set {claimed : Bool} {now : Instant} (h : Stamped s)
    (hneg : claimed = false → negativeSince s.lookups now = true) :
    Stamped { s with cache := s.cache.set claimed now } := by
  cases claimed with
  | true => exact h
  | false => exact fun _ => hneg rfl

/-- What holds after an access that brings a request to `pc`. -/
structure Advanced (s t : Server) (pc : Pc) : Prop where
  stamped : Stamped t
  past : ∀ e ∈ t.lookups, e.1 ≤ t.now
  pc : PcOk t.now t.lookups pc
  now_le : s.now ≤ t.now
  lookups_subset : s.lookups ⊆ t.lookups

/-- An access that leaves the clock and the lookups alone. -/
theorem Advanced.of_eq (hnow : t.now = s.now) (hlookups : t.lookups = s.lookups) (hs : Stamped t)
    (hpast : ∀ e ∈ s.lookups, e.1 ≤ s.now) (hpc : PcOk s.now s.lookups pc) : Advanced s t pc := by
  refine ⟨hs, ?_, ?_, le_of_eq hnow.symm, ?_⟩
  · rwa [hnow, hlookups]
  · rwa [hnow, hlookups]
  · rw [hlookups]
    exact List.Subset.refl _

/-- A lookup comes after the reading of the clock. -/
theorem advance_lookup {now : Instant} (hs : Stamped s) (hpast : ∀ e ∈ s.lookups, e.1 ≤ s.now)
    (hnow : now ≤ s.now) (claimed : Bool) :
    Advanced s { s with lookups := (s.now, claimed) :: s.lookups } (.store now claimed) := by
  have hsub : s.lookups ⊆ (s.now, claimed) :: s.lookups := List.subset_cons_self _ _
  refine ⟨fun hmu => negativeSince_of_subset hsub (hs hmu), ?_, ?_, le_refl _, hsub⟩
  · intro e he
    rcases List.mem_cons.mp he with rfl | he
    · exact le_refl _
    · exact hpast e he
  · cases claimed with
    | true => simp [PcOk]
    | false => exact negativeSince_iff.mpr ⟨(s.now, false), by simp, rfl, hnow⟩

/-- One access of a request keeps the invariant, if its stamp is backed. -/
theorem advance_fresh (hs : Stamped s) (hpast : ∀ e ∈ s.lookups, e.1 ≤ s.now)
    (hpc : PcOk s.now s.lookups pc)
    (hback : ∀ now, pc = .storeStamp now false → negativeSince s.lookups now = true)
    (h : s.advance env q pc = some (t, pc')) : Advanced s t pc' := by
  cases pc with
  | arrived =>
    simp only [Server.advance] at h
    repeat' split at h
    all_goals cases h; exact .of_eq rfl rfl hs hpast (by simp [PcOk])
  | clock =>
    cases h
    exact .of_eq rfl rfl hs hpast (le_refl s.now)
  | loadClaimed now =>
    simp only [Server.advance] at h
    split at h <;> cases h
    · exact .of_eq rfl rfl hs hpast (by simp [PcOk])
    · exact .of_eq rfl rfl hs hpast hpc
  | loadMu now =>
    simp only [Server.advance] at h
    split at h <;> cases h
    · rename_i hfresh
      exact .of_eq rfl rfl hs hpast (hs.of_fresh hfresh)
    · exact .of_eq rfl rfl hs hpast hpc
  | lookup now =>
    simp only [Server.advance] at h
    split at h <;> cases h
    · exact .of_eq rfl rfl hs hpast (by simp [PcOk])
    · exact advance_lookup hs hpast hpc _
  | store now claimed =>
    cases h
    cases claimed with
    | true => exact .of_eq rfl rfl (hs.set (by simp)) hpast (by simp [PcOk])
    | false =>
      have hle : now - claimedNegativeTTL ≤ now := Int.sub_le_self now (by decide)
      exact .of_eq rfl rfl (hs.set fun _ => hpc) hpast (negativeSince_of_le hle hpc)
  | answered now claimed =>
    simp only [Server.advance] at h
    repeat' split at h
    all_goals cases h; exact .of_eq rfl rfl hs hpast (by simp [PcOk])
  | stamp claimed =>
    cases h
    exact .of_eq rfl rfl hs hpast (by simp [PcOk])
  | storeStamp now claimed =>
    cases h
    -- the stamp of `handleClaimStatus`, which no lookup of its own stands for
    refine .of_eq rfl rfl (hs.set ?_) hpast (by simp [PcOk])
    rintro rfl
    exact hback now rfl
  | redeem =>
    obtain ⟨db, -, h⟩ := Option.map_eq_some_iff.mp h
    cases h
    exact .of_eq rfl rfl hs hpast (by simp [PcOk])
  | claiming =>
    simp only [Server.advance] at h
    split at h <;> cases h
    refine .of_eq rfl rfl hs hpast ?_
    split <;> simp [PcOk]
  | storeClaimed reply =>
    cases h
    exact .of_eq rfl rfl hs hpast (by simp [PcOk])
  | done reply => cases h

/-- A property of all requests after one of them has moved. -/
theorem requests_update {P : Pc → Prop} {f : Nat → Option (Request × Pc)} (hpc : P pc)
    (h : ∀ j q pc, f j = some (q, pc) → P pc) :
    ∀ j q' pc', Function.update f i (some (q, pc)) j = some (q', pc') → P pc' := by
  intro j q' pc' hj
  by_cases hji : j = i
  · subst hji
    rw [Function.update_self] at hj
    cases hj
    exact hpc
  · rw [Function.update_of_ne hji] at hj
    exact h j q' pc' hj

theorem FreshInv.step (h : FreshInv s) (hg : Backed s l) (hs : s.step env l = some s') : FreshInv s' := by
  obtain ⟨d, -, rfl⟩ | ⟨dl, db, -, -, rfl⟩ | ⟨i, q, -, -, rfl⟩ | ⟨i, q, pc, t, pc', rfl, hq, ha, rfl⟩ :=
    Server.step_cases hs
  · have hle : s.now ≤ s.now + d := Int.le_add_of_nonneg_right (Int.natCast_nonneg d)
    exact ⟨h.stamped, fun e he => (h.past e he).trans hle,
      fun i q pc hi => (h.requests i q pc hi).mono hle (List.Subset.refl _)⟩
  · exact ⟨h.stamped, h.past, h.requests⟩
  · exact ⟨h.stamped, h.past, requests_update (by simp [PcOk]) h.requests⟩
  · have hback : ∀ now, pc = .storeStamp now false → negativeSince s.lookups now = true := by
      rintro now rfl
      simpa [Backed, backed, hq] using hg
    have hadv := advance_fresh h.stamped h.past (h.requests i q pc hq) hback ha
    refine ⟨hadv.stamped, hadv.past, requests_update hadv.pc fun j q' pc hj => ?_⟩
    exact (h.requests j q' pc hj).mono hadv.now_le hadv.lookups_subset

theorem FreshInv.of_run {ls : List Label} (h : FreshInv s) (hrun : Server.Run env Backed s ls s') :
    FreshInv s' :=
  hrun.inv h fun _ _ _ hi hs => hi.step hs.1 hs.2

/-! ## After a commit -/

theorem users_ne_nil_step {db db' : St} {dl : OwnerClaim.Label} (h : db.step env dl = some db')
    (hu : db.db.users ≠ []) : db'.db.users ≠ [] := by
  obtain ⟨d, -, rfl⟩ | ⟨i, a, -, rfl⟩ := St.step_cases h
  · exact hu
  · rw [St.apply_db]
    cases a with
    | commit row users credentials events r => simp [Act.dbAfter, Db.commit, hu]
    | goto p | lockMint p | hold p | finish r => exact hu

/-- There is a user, and no lookup after `since` missed it. -/
structure Visible (since : Instant) (s : Server) : Prop where
  users : s.db.db.users ≠ []
  seen : ∀ e ∈ s.lookups, e.2 = false → e.1 ≤ since

theorem advance_visible {since : Instant} (hv : Visible since s)
    (h : s.advance env q pc = some (t, pc')) : Visible since t := by
  cases pc with
  | lookup now =>
    simp only [Server.advance] at h
    split at h <;> cases h
    · exact hv
    · refine ⟨hv.users, fun e he hneg => ?_⟩
      rcases List.mem_cons.mp he with rfl | he
      · exact absurd (by simpa [anyUserExists] using hneg) hv.users
      · exact hv.seen e he hneg
  | redeem =>
    obtain ⟨db, hdb, h⟩ := Option.map_eq_some_iff.mp h
    cases h
    exact ⟨users_ne_nil_step hdb hv.users, hv.seen⟩
  | done reply => cases h
  | store now claimed | storeStamp now claimed | storeClaimed reply | clock | stamp claimed =>
    cases h
    exact ⟨hv.users, hv.seen⟩
  | claiming =>
    simp only [Server.advance] at h
    split at h <;> cases h
    exact hv
  | arrived | loadClaimed now | loadMu now | answered now claimed =>
    simp only [Server.advance] at h
    repeat' split at h
    all_goals cases h; exact hv

theorem Visible.step {since : Instant} (hv : Visible since s) (hs : s.step env l = some s') :
    Visible since s' := by
  obtain ⟨d, -, rfl⟩ | ⟨dl, db, -, hdb, rfl⟩ | ⟨i, q, -, -, rfl⟩ | ⟨i, q, pc, t, pc', -, -, ha, rfl⟩ :=
    Server.step_cases hs
  · exact ⟨hv.users, hv.seen⟩
  · exact ⟨users_ne_nil_step hdb hv.users, hv.seen⟩
  · exact ⟨hv.users, hv.seen⟩
  · have ht := advance_visible hv ha
    exact ⟨ht.users, ht.seen⟩

/-! ## Freshness -/

/-- Request `i` was told at `t` that the instance is unclaimed. -/
def Server.answersUnclaimed (s : Server) (i : Nat) (t : Instant) : Bool :=
  (s.requests i).any fun r => r.2 = .answered t false

/-- If no stamp of `handleClaimStatus` is later than a lookup that found no user, every answer
"unclaimed" is within `claimedNegativeTTL` of such a lookup, and a user committed when the clock showed
`u.now` is seen by every request that reads the clock more than `claimedNegativeTTL` later. -/
theorem claimed_state_fresh {now : Instant} {db : St} {ls : List Label}
    (hrun : Server.Run env Backed (.init now db) ls s) :
    (∀ i t, s.answersUnclaimed i t = true →
      negativeSince s.lookups (t - claimedNegativeTTL) = true) ∧
    ∀ pre post u, ls = pre ++ post → Server.Run env Backed (.init now db) pre u →
      Server.Run env Backed u post s → u.db.db.users ≠ [] →
      ∀ i t, s.answersUnclaimed i t = true → t ≤ u.now + claimedNegativeTTL := by
  have hinv := (FreshInv.init now db).of_run hrun
  have hfresh : ∀ i t, s.answersUnclaimed i t = true →
      negativeSince s.lookups (t - claimedNegativeTTL) = true := by
    intro i t h
    obtain ⟨⟨q, pc⟩, hq, hpc⟩ := (Option.any_eq_true _ _).mp h
    obtain rfl := of_decide_eq_true hpc
    exact hinv.requests i q _ hq
  refine ⟨hfresh, ?_⟩
  intro pre post u _ hpre hpost husers i t ht
  -- up to `u` every lookup is past, and after `u` none of them misses the user
  have hpast := ((FreshInv.init now db).of_run hpre).past
  have hvis : Visible u.now s :=
    hpost.inv ⟨husers, fun e he _ => hpast e he⟩ fun _ _ _ hv hs => hv.step hs.2
  obtain ⟨e, he, hneg, hle⟩ := negativeSince_iff.mp (hfresh i t ht)
  exact Int.le_add_of_sub_right_le (hle.trans (hvis.seen e he hneg))

/-- A GET of a path. -/
def exampleGet (path : String) : Request := { method := "GET", path, claim := exampleClaim, call := 9 }

/-- A claim-status request, and a guarded one within a second of it. -/
def freshLabels : List Label :=
  .arrive 0 (exampleGet pathSetupClaimStatus) :: List.replicate 9 (.exec 0) ++
    .tick 900000000 :: .arrive 1 (exampleGet "/") :: List.replicate 4 (.exec 1)

theorem claimed_state_fresh_example :
    ∃ s, Server.Run exampleEnv Backed (.init second (.init 0)) freshLabels s ∧
      s.answersUnclaimed 1 1900000000 = true ∧
      negativeSince s.lookups (1900000000 - claimedNegativeTTL) = true := by
  obtain ⟨s, hs, hq⟩ := Lts.Run.of_exec_any (P := fun s : Server => s.answersUnclaimed 1 1900000000)
    (by decide +kernel : (Lts.exec (Lts.restrict Backed (Server.step exampleEnv)) (.init second (.init 0))
      freshLabels).any _ = true)
  have hrun : Server.Run exampleEnv Backed (.init second (.init 0)) freshLabels s :=
    hs.mono fun _ _ _ h => Lts.graph_restrict h
  exact ⟨s, hrun, hq, (claimed_state_fresh hrun).1 1 _ hq⟩

/-- The instance is claimed after the only lookup; a claim-status request is answered from the cache and
stamps it again. -/
def restampLabels : List Label :=
  .arrive 0 (exampleGet pathSetupClaimStatus) :: List.replicate 9 (.exec 0) ++
    exampleLabels.map .db ++
    .tick 900000000 :: .arrive 1 (exampleGet pathSetupClaimStatus) :: List.replicate 7 (.exec 1) ++
    .tick 900000000 :: .arrive 2 (exampleGet "/") :: List.replicate 4 (.exec 2)

theorem claimed_state_stale :
    ∃ s, Lts.Run (Lts.graph (Server.step exampleEnv)) (.init second (.init 0)) restampLabels s ∧
      s.db.db.users ≠ [] ∧ s.lookups = [(second, false)] ∧ s.answersUnclaimed 2 2800000000 = true ∧
      negativeSince s.lookups (2800000000 - claimedNegativeTTL) = false := by
  obtain ⟨s, hs, hp⟩ := Lts.Run.of_exec_any
    (P := fun s : Server => decide (s.db.db.users ≠ []) && decide (s.lookups = [(second, false)]) &&
      s.answersUnclaimed 2 2800000000)
    (by decide +kernel : (Lts.exec (Server.step exampleEnv) (.init second (.init 0))
      restampLabels).any _ = true)
  simp only [Bool.and_eq_true, decide_eq_true_iff] at hp
  obtain ⟨⟨hu, hl⟩, hq⟩ := hp
  refine ⟨s, hs, hu, hl, hq, ?_⟩
  rw [hl]
  decide

end Vizra.HttpApi
