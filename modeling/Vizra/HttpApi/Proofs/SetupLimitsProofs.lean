import Vizra.Cache.Proofs.RateLimitProofs
import Vizra.HttpApi.SetupLimits

/-!
# How fast refused claims append audit rows

A request makes calls on the limiter and writes at most one row: a `refused` row only after the global budget
granted its call, a `rate_limited` row only after the budget of one did. `Trace` says so of a run: the times
of the rows are among the times of the grants. The rest is the counting of fixed windows. The key of the
origin, which the client chooses, does not matter: whatever it is, its calls only use up budget.
-/

namespace Vizra.HttpApi

open Go FixedWindow Vizra.Audit Vizra.Cache

variable {cacheNamespace : String} {ipPrefix : String → Option String}

/-- The times of the rows with an action. -/
def timesOf (action : Action) (rows : List (Instant × Event)) : List Instant :=
  (rows.filter fun row => row.2.action = action).map Prod.fst

theorem timesOf_cons (action : Action) (row : Instant × Event) (rows : List (Instant × Event)) :
    timesOf action (row :: rows) =
      if row.2.action = action then row.1 :: timesOf action rows else timesOf action rows := by
  by_cases h : row.2.action = action <;> simp [timesOf, h]

theorem timesOf_append (action : Action) (rows rows' : List (Instant × Event)) :
    timesOf action (rows ++ rows') = timesOf action rows ++ timesOf action rows' := by
  simp [timesOf]

/-! ## Traces -/

/-- The limiter makes the calls, the rows are appended, and each row has its grant. -/
structure Trace (cacheNamespace : String) (l l' : Limits) (calls : List Call) (rows : List (Instant × Event)) :
    Prop where
  limiter : l'.limiter = (Lts.replay MemoryLimiter.allow l.limiter calls).1
  audit : l'.audit = l.audit ++ rows
  window : ∀ c ∈ calls, c.window = claimRateWindow
  refused : (timesOf .ownerClaimRefused rows).Sublist (grantTimes (claimKey cacheNamespace "all")
    claimFailuresGlobal (Lts.replay MemoryLimiter.allow l.limiter calls).2)
  rateLimited : (timesOf .ownerClaimRateLimited rows).Sublist (grantTimes (claimKey cacheNamespace "audited") 1
    (Lts.replay MemoryLimiter.allow l.limiter calls).2)
  action : ∀ row ∈ rows, row.2.action = .ownerClaimRefused ∨ row.2.action = .ownerClaimRateLimited

theorem Trace.refl (l : Limits) : Trace cacheNamespace l l [] [] where
  limiter := rfl
  audit := (List.append_nil _).symm
  window := by simp
  refused := List.Sublist.refl _
  rateLimited := List.Sublist.refl _
  action := by simp

theorem Trace.trans {l l' l'' : Limits} {calls calls' : List Call} {rows rows' : List (Instant × Event)}
    (h : Trace cacheNamespace l l' calls rows) (h' : Trace cacheNamespace l' l'' calls' rows') :
    Trace cacheNamespace l l'' (calls ++ calls') (rows ++ rows') where
  limiter := by
    rw [Lts.replay_append, ← h.limiter]
    exact h'.limiter
  audit := by rw [h'.audit, h.audit, List.append_assoc]
  window := List.forall_mem_append.mpr ⟨h.window, h'.window⟩
  refused := by
    rw [Lts.replay_append, timesOf_append, grantTimes_append, ← h.limiter]
    exact h.refused.append h'.refused
  rateLimited := by
    rw [Lts.replay_append, timesOf_append, grantTimes_append, ← h.limiter]
    exact h.rateLimited.append h'.rateLimited
  action := List.forall_mem_append.mpr ⟨h.action, h'.action⟩

/-- The call of `Limits.allow`. -/
def limitCall (key : String) (limit : Nat) (now : Instant) : Call :=
  { key, limit, window := claimRateWindow, now }

theorem allow_trace (l : Limits) (key : String) (limit : Nat) (now : Instant) :
    Trace cacheNamespace l (l.allow key limit now).1 [limitCall key limit now] [] where
  limiter := rfl
  audit := (List.append_nil _).symm
  window := by simp [limitCall]
  refused := List.nil_sublist _
  rateLimited := List.nil_sublist _
  action := by simp

theorem grantTimes_allow {l : Limits} {key : String} {limit : Nat} {now : Instant}
    (h : (l.allow key limit now).2 = true) :
    grantTimes key limit (Lts.replay MemoryLimiter.allow l.limiter [limitCall key limit now]).2 = [now] := by
  have hreply : (l.limiter.allow (limitCall key limit now)).2.1 = true := h
  have hgrant : grants key limit (limitCall key limit now, (l.limiter.allow (limitCall key limit now)).2) = true := by
    simp only [grants, hreply, Bool.and_true, Bool.and_eq_true, decide_eq_true_iff]
    exact ⟨rfl, rfl⟩
  simp only [grantTimes, Lts.replay, List.filter_cons, hgrant, if_true]
  rfl

/-- `record` writes the row of the event or nothing. -/
theorem record_cases (l : Limits) (q : ClaimRequest) (e : Event) :
    l.record q e = l ∨ l.record q e = { l with audit := l.audit ++ [(q.now, e.row)] } := by
  unfold Limits.record
  split
  · exact .inl rfl
  · cases he : emit e with
    | error err => exact .inl rfl
    | ok row =>
      rw [emit_eq_ok he]
      simp only
      split
      · exact .inl rfl
      · exact .inr rfl

/-- A granted call on the budget of an event, and the record of the event. -/
theorem grant_trace {l : Limits} {q : ClaimRequest} {key : String} {limit : Nat} {e : Event}
    (h : (l.allow key limit q.now).2 = true)
    (he : e.action = .ownerClaimRefused ∧ key = claimKey cacheNamespace "all" ∧ limit = claimFailuresGlobal ∨
      e.action = .ownerClaimRateLimited ∧ key = claimKey cacheNamespace "audited" ∧ limit = 1) :
    ∃ rows, Trace cacheNamespace l ((l.allow key limit q.now).1.record q e) [limitCall key limit q.now] rows ∧
      ∀ row ∈ rows, row.2.action = e.action := by
  have hallow : Trace cacheNamespace l _ _ _ := allow_trace l key limit q.now
  have hrow : e.row.action = e.action := rfl
  rcases record_cases (l.allow key limit q.now).1 q e with hr | hr
  · rw [hr]
    exact ⟨[], hallow, by simp⟩
  · rw [hr]
    refine ⟨[(q.now, e.row)], ⟨hallow.limiter, rfl, hallow.window, ?_, ?_, ?_⟩, by simp [hrow]⟩
    · rcases he with ⟨hact, rfl, rfl⟩ | ⟨hact, -, -⟩
      · rw [grantTimes_allow h]
        simp [timesOf, hrow, hact]
      · simp [timesOf, hrow, hact]
    · rcases he with ⟨hact, -, -⟩ | ⟨hact, rfl, rfl⟩
      · simp [timesOf, hrow, hact]
      · rw [grantTimes_allow h]
        simp [timesOf, hrow, hact]
    · rcases he with ⟨hact, -, -⟩ | ⟨hact, -, -⟩ <;> simp [hrow, hact]

/-! ## Requests -/

variable (cacheNamespace ipPrefix) in
theorem consume_trace (l : Limits) (q : ClaimRequest) :
    ∃ l' calls, Trace cacheNamespace l l' calls [] ∧ (∀ c ∈ calls, c.now = q.now) ∧
      (l.consumeClaimFailure cacheNamespace ipPrefix q).1 =
        (l'.allow (claimKey cacheNamespace "all") claimFailuresGlobal q.now).1 ∧
      ((l.consumeClaimFailure cacheNamespace ipPrefix q).2 = false →
        (l'.allow (claimKey cacheNamespace "all") claimFailuresGlobal q.now).2 = true) := by
  have hglobal : (claimLimiterKeys cacheNamespace ipPrefix q).2 = claimKey cacheNamespace "all" := by
    unfold claimLimiterKeys
    split <;> rfl
  simp only [Limits.consumeClaimFailure, hglobal]
  by_cases hkey : (claimLimiterKeys cacheNamespace ipPrefix q).1 ≠ ""
  · rw [if_pos hkey]
    refine ⟨_, _, allow_trace l _ _ _, by simp [limitCall], rfl, ?_⟩
    intro hlimited
    simpa using (Bool.or_eq_false_iff.mp hlimited).2
  · rw [if_neg hkey]
    refine ⟨l, [], Trace.refl l, by simp, rfl, ?_⟩
    intro hlimited
    simpa using hlimited

/-- A request at `now` that writes no `refused` row if it is `quiet`. -/
def Handled (cacheNamespace : String) (l l' : Limits) (now : Instant) (quiet : Prop) : Prop :=
  ∃ calls rows, Trace cacheNamespace l l' calls rows ∧ (∀ c ∈ calls, c.now = now) ∧
    (quiet → ∀ row ∈ rows, row.2.action ≠ .ownerClaimRefused)

theorem Handled.allow (l : Limits) (key : String) (limit : Nat) (now : Instant) (quiet : Prop) :
    Handled cacheNamespace l (l.allow key limit now).1 now quiet :=
  ⟨_, _, allow_trace l key limit now, by simp [limitCall], by simp⟩

theorem Handled.trans {l l' l'' : Limits} {now : Instant} {quiet : Prop}
    (h : Handled cacheNamespace l l' now quiet) (h' : Handled cacheNamespace l' l'' now quiet) :
    Handled cacheNamespace l l'' now quiet := by
  obtain ⟨calls, rows, htrace, hnow, hquiet⟩ := h
  obtain ⟨calls', rows', htrace', hnow', hquiet'⟩ := h'
  refine ⟨_, _, htrace.trans htrace', List.forall_mem_append.mpr ⟨hnow, hnow'⟩, ?_⟩
  intro hq
  exact List.forall_mem_append.mpr ⟨hquiet hq, hquiet' hq⟩

variable (cacheNamespace ipPrefix) in
/-- A `refused` row is written with the answer 403 only. -/
theorem Handled.refuseToken (l : Limits) (q : ClaimRequest) :
    Handled cacheNamespace l (l.refuseToken cacheNamespace ipPrefix q).1 q.now
      ((l.refuseToken cacheNamespace ipPrefix q).2 ≠ HttpApi.refuseToken false) := by
  obtain ⟨l', calls, htrace, hnow, hstate, hgrant⟩ := consume_trace cacheNamespace ipPrefix l q
  have hconsumed (quiet : Prop) : Handled cacheNamespace l l' q.now quiet := ⟨_, _, htrace, hnow, by simp⟩
  refine Handled.trans (hconsumed _) ?_
  unfold Limits.refuseToken
  cases hlimited : (l.consumeClaimFailure cacheNamespace ipPrefix q).2 with
  | false =>
    simp only [hlimited, Bool.false_eq_true, if_false, hstate]
    obtain ⟨rows, hrecord, -⟩ := grant_trace
      (e := claimEvent ipPrefix q .ownerClaimRefused (.reason reasonTokenNotAccepted)) (hgrant hlimited)
      (.inl ⟨rfl, rfl, rfl⟩)
    exact ⟨_, _, hrecord, by simp [limitCall], by simp⟩
  | true =>
    simp only [hlimited, if_true, hstate]
    refine Handled.trans (Handled.allow l' (claimKey cacheNamespace "all") claimFailuresGlobal q.now _) ?_
    generalize (l'.allow (claimKey cacheNamespace "all") claimFailuresGlobal q.now).1 = charged
    cases hfirst : (charged.claimLimitTransition cacheNamespace q.now).2 with
    | false =>
      simp only [Bool.false_eq_true, if_false]
      exact Handled.allow charged (claimKey cacheNamespace "audited") 1 q.now _
    | true =>
      simp only [if_true]
      obtain ⟨rows, hrecord, hrows⟩ := grant_trace
        (e := claimEvent ipPrefix q .ownerClaimRateLimited (.bucket "failure")) hfirst (.inr ⟨rfl, rfl, rfl⟩)
      refine ⟨_, _, hrecord, by simp [limitCall], ?_⟩
      intro _ row hrow
      rw [hrows row hrow]
      simp [claimEvent]

theorem refuseToken_false_ne {e : CodedError} (h : Reply.of (HttpApi.refuseToken false) = .error e) :
    e.status ≠ 429 := by
  cases h
  decide

variable (cacheNamespace ipPrefix) in
theorem Handled.handle (l : Limits) (q : SetupRequest) :
    Handled cacheNamespace l (l.handle cacheNamespace ipPrefix q).1 q.now
      (∃ e, (l.handle cacheNamespace ipPrefix q).2 = .error e ∧ e.status = 429) := by
  cases q with
  | status now => exact Handled.allow l (claimKey cacheNamespace "ceiling.status") claimStatusCeiling now _
  | claim q =>
    have hceiling (quiet : Prop) : Handled cacheNamespace l
        (l.allowSetupRequest cacheNamespace "ceiling.claim" claimOwnerCeiling q.now).1 q.now quiet :=
      Handled.allow l (claimKey cacheNamespace "ceiling.claim") claimOwnerCeiling q.now quiet
    simp only [Limits.handle, Limits.handleClaimOwner, SetupRequest.now]
    by_cases hok : (l.allowSetupRequest cacheNamespace "ceiling.claim" claimOwnerCeiling q.now).2 = true
    · simp only [hok, if_true]
      split
      · exact hceiling _
      · exact hceiling _
      · refine Handled.trans (hceiling _) ?_
        obtain ⟨calls, rows, htrace, hnow, hquiet⟩ := Handled.refuseToken cacheNamespace ipPrefix
          (l.allowSetupRequest cacheNamespace "ceiling.claim" claimOwnerCeiling q.now).1 q
        refine ⟨calls, rows, htrace, hnow, ?_⟩
        rintro ⟨e, he, hstatus⟩
        refine hquiet ?_
        intro hanswer
        rw [hanswer] at he
        exact refuseToken_false_ne he hstatus
      · exact hceiling _
    · simp only [hok]
      exact hceiling _

/-! ## Runs -/

variable (cacheNamespace ipPrefix) in
theorem run_trace (qs : List SetupRequest) (l : Limits) (hsorted : qs.Pairwise (fun q q' => q.now ≤ q'.now)) :
    ∃ calls rows, Trace cacheNamespace l (Lts.replay (Limits.handle cacheNamespace ipPrefix) l qs).1 calls rows ∧
      calls.Pairwise (fun c d => c.now ≤ d.now) ∧ ∀ c ∈ calls, ∃ q ∈ qs, c.now = q.now := by
  induction qs generalizing l with
  | nil => exact ⟨[], [], Trace.refl l, List.Pairwise.nil, by simp⟩
  | cons q qs ih =>
    obtain ⟨hle, hsorted⟩ := List.pairwise_cons.mp hsorted
    obtain ⟨calls, rows, htrace, hnow, -⟩ := Handled.handle cacheNamespace ipPrefix l q
    obtain ⟨calls', rows', htrace', hpair, hmem⟩ := ih _ hsorted
    refine ⟨calls ++ calls', rows ++ rows', htrace.trans htrace', List.pairwise_append.mpr ⟨?_, hpair, ?_⟩, ?_⟩
    · refine List.pairwise_of_forall_mem_list ?_
      intro c hc d hd
      rw [hnow c hc, hnow d hd]
    · intro c hc d hd
      obtain ⟨q', hq', hd'⟩ := hmem d hd
      rw [hnow c hc, hd']
      exact hle q' hq'
    · intro c hc
      rcases List.mem_append.mp hc with hc | hc
      · exact ⟨q, List.mem_cons_self, hnow c hc⟩
      · obtain ⟨q', hq', hd'⟩ := hmem c hc
        exact ⟨q', List.mem_cons_of_mem _ hq', hd'⟩

theorem countP_rows_le {rows : List (Instant × Event)} (lo hi : Instant)
    (h : ∀ row ∈ rows, row.2.action = .ownerClaimRefused ∨ row.2.action = .ownerClaimRateLimited) :
    rows.countP (fun row => within lo hi row.1) ≤
      (timesOf .ownerClaimRefused rows).countP (within lo hi) +
        (timesOf .ownerClaimRateLimited rows).countP (within lo hi) := by
  induction rows with
  | nil => simp
  | cons row rows ih =>
    have hrest := ih fun r hr => h r (List.mem_cons_of_mem _ hr)
    rcases h row List.mem_cons_self with hact | hact
    · simp only [timesOf_cons, hact, if_true, reduceCtorEq, if_false, List.countP_cons]
      omega
    · simp only [timesOf_cons, hact, if_true, reduceCtorEq, if_false, List.countP_cons]
      omega

end Vizra.HttpApi
