import Mathlib.Tactic.Linarith
import Vizra.Jobs.ClaimLoop

/-!
# The verdict on a claim loop

`Moved` lists what a step can do to the loop of one site and to its record. From it follows `LoopInv`, which
relates the place of the loop to the instant of its last record: a loop that waits or sleeps has a record at most
one poll interval old, and the record of a loop inside a claim is the start of that claim.
-/

namespace Vizra.Jobs

open Go

variable {site' : String} {s : LoopSystem} {e : LoopEvent} {now : Instant}

/-- The last recorded progress of a site. -/
def Health.progress (h : Health) (site : String) : Option Instant :=
  ((h.sites site).getD .zero).lastProgress

/-! ## Records -/

section Touch

variable (h : Health) (now : Instant) (site : String) {fn : SiteProgress → SiteProgress}

theorem Health.progress_touch_self (hfn : ∀ p, (fn p).lastProgress = p.lastProgress) :
    (h.touch now site fn).progress site = some now := by
  simp [progress, touch, hfn]

theorem Health.progress_touch_ne (hne : site' ≠ site) : (h.touch now site fn).progress site' = h.progress site' := by
  simp [progress, touch, Function.update_of_ne hne]

theorem Health.mem_order_touch (hmem : site' ∈ h.order) : site' ∈ (h.touch now site fn).order := by
  simp only [touch]
  split_ifs
  · exact hmem
  · rw [sortStrings, List.mem_mergeSort]
    exact List.mem_append_left _ hmem

theorem Health.progress_loopAlive : (h.loopAlive now site).progress site = some now := by
  refine h.progress_touch_self now site ?_
  exact fun _ => rfl

theorem Health.progress_claimOK : (h.claimOK now site).progress site = some now := by
  refine h.progress_touch_self now site ?_
  exact fun _ => rfl

theorem Health.progress_claimFailed : (h.claimFailed now site).progress site = some now := by
  refine h.progress_touch_self now site ?_
  exact fun _ => rfl

theorem Health.progress_saturated : (h.saturated now site).progress site = some now := by
  refine h.progress_touch_self now site ?_
  exact fun _ => rfl

end Touch

/-- The two healths have the same bound, and the second one still lists the sites of the first. -/
def Health.Extends (h h' : Health) : Prop := h'.staleAfter = h.staleAfter ∧ ∀ site ∈ h.order, site ∈ h'.order

theorem Health.extends_refl (h : Health) : h.Extends h := ⟨rfl, fun _ hmem => hmem⟩

theorem Health.extends_touch (h : Health) (now : Instant) (site : String) (fn : SiteProgress → SiteProgress) :
    h.Extends (h.touch now site fn) := ⟨rfl, fun _ hmem => h.mem_order_touch now site hmem⟩

/-! ## Steps -/

variable {opts : Options} {sites : List String} {site : String}

/-- What a step does to the loop of `site`. -/
inductive Moved (opts : Options) (sites : List String) (site : String) (s : LoopSystem) :
    LoopEvent → LoopSystem → Prop where
  | other {e : LoopEvent} {t : LoopSystem} (hnow : t.now = s.now) (hloop : t.loops site = s.loops site)
      (hrec : t.health.progress site = s.health.progress site) : Moved opts sites site s e t
  | advance {d : Nat} {t : LoopSystem} (hnow : t.now = s.now + d) (hloop : t.loops site = s.loops site)
      (hrec : t.health.progress site = s.health.progress site)
      (hidle : d = 0 ∨ ∀ site' ∈ sites, (s.loops site').idleUntil opts (s.now + d) = true) :
      Moved opts sites site s (.advance d) t
  | acquire {t : LoopSystem} (hnow : t.now = s.now) (hfree : (s.loops site).used < opts.concurrency)
      (hloop : t.loops site = { pc := .claiming s.now, used := (s.loops site).used + 1 })
      (hrec : t.health.progress site = some s.now) : Moved opts sites site s (.acquire site) t
  | slotFires {t : LoopSystem} {fires : Instant} (hpc : (s.loops site).pc = .select fires) (hnow : t.now = s.now)
      (hloop : t.loops site = { pc := .top opts s.now, used := (s.loops site).used })
      (hrec : t.health.progress site = some s.now) : Moved opts sites site s (.slotFires site) t
  | idles {t : LoopSystem} {since : Instant} {r : ClaimResult} (hpc : (s.loops site).pc = .claiming since)
      (hnow : t.now = s.now)
      (hloop : t.loops site = { pc := .sleeping (s.now + opts.pollInterval), used := (s.loops site).used - 1 })
      (hrec : t.health.progress site = some s.now) : Moved opts sites site s (.claimReturns site r) t
  | starts {t : LoopSystem} {since : Instant} (hpc : (s.loops site).pc = .claiming since) (hnow : t.now = s.now)
      (hloop : t.loops site = { pc := .top opts s.now, used := (s.loops site).used })
      (hrec : t.health.progress site = some s.now) : Moved opts sites site s (.claimReturns site .job) t
  | wakes {t : LoopSystem} {wakes : Instant} (hpc : (s.loops site).pc = .sleeping wakes) (hle : wakes ≤ s.now)
      (hnow : t.now = s.now)
      (hloop : t.loops site = { pc := .top opts s.now, used := (s.loops site).used })
      (hrec : t.health.progress site = s.health.progress site) : Moved opts sites site s (.wakes site) t
  | release {t : LoopSystem} (hnow : t.now = s.now)
      (hjob : ∀ since, (s.loops site).pc = .claiming since → 1 < (s.loops site).used)
      (hloop : t.loops site = { pc := (s.loops site).pc, used := (s.loops site).used - 1 })
      (hrec : t.health.progress site = s.health.progress site) : Moved opts sites site s (.release site) t

theorem LoopSystem.move_self (s : LoopSystem) (site : String) (l : ClaimLoop) (h : Health) :
    (s.move site l h).loops site = l := by simp [move]

theorem LoopSystem.move_ne (s : LoopSystem) {site : String} (hne : site ≠ site') (l : ClaimLoop) (h : Health) :
    (s.move site' l h).loops site = s.loops site := by simp [move, Function.update_of_ne hne]

/-- A move of another site's loop. -/
theorem moved_of_ne (hne : site ≠ site') (l : ClaimLoop) {h : Health}
    (hrec : h.progress site = s.health.progress site) : Moved opts sites site s e (s.move site' l h) :=
  .other rfl (s.move_ne hne l h) hrec

/-- A move of a loop that records its progress, of which the site's own is left to be shown. -/
theorem moved_touch {l : ClaimLoop} {fn : SiteProgress → SiteProgress}
    (hself : site = site' → Moved opts sites site s e (s.move site' l (s.health.touch s.now site' fn))) :
    Moved opts sites site s e (s.move site' l (s.health.touch s.now site' fn)) ∧
      s.health.Extends (s.move site' l (s.health.touch s.now site' fn)).health := by
  refine ⟨?_, s.health.extends_touch ..⟩
  by_cases hne : site = site'
  · exact hself hne
  · exact moved_of_ne hne _ (s.health.progress_touch_ne _ _ hne)

theorem LoopSystem.step_moved {t : LoopSystem} (h : s.step opts sites e = some t) :
    Moved opts sites site s e t ∧ s.health.Extends t.health := by
  cases e with
  | advance d =>
    simp only [step] at h
    split_ifs at h with hidle
    obtain rfl := Option.some.inj h
    exact ⟨.advance rfl rfl rfl hidle, s.health.extends_refl⟩
  | acquire site' =>
    simp only [step] at h
    split at h
    · split_ifs at h with hfree
      obtain rfl := Option.some.inj h
      refine moved_touch fun heq => ?_
      subst heq
      exact .acquire rfl hfree.2 (s.move_self ..) (s.health.progress_loopAlive ..)
    · cases h
  | slotFires site' =>
    simp only [step] at h
    split at h
    · rename_i fires hpc
      split_ifs at h with hdue
      obtain rfl := Option.some.inj h
      refine moved_touch fun heq => ?_
      subst heq
      exact .slotFires hpc rfl (s.move_self ..) (s.health.progress_saturated ..)
    · cases h
  | claimReturns site' r =>
    simp only [step] at h
    split at h
    · rename_i since hpc
      cases r with
      | failed =>
        obtain rfl := Option.some.inj h
        refine moved_touch fun heq => ?_
        subst heq
        exact .idles hpc rfl (s.move_self ..) (s.health.progress_claimFailed ..)
      | noJob =>
        obtain rfl := Option.some.inj h
        refine moved_touch fun heq => ?_
        subst heq
        exact .idles hpc rfl (s.move_self ..) (s.health.progress_claimOK ..)
      | job =>
        obtain rfl := Option.some.inj h
        refine moved_touch fun heq => ?_
        subst heq
        exact .starts hpc rfl (s.move_self ..) (s.health.progress_claimOK ..)
    · cases h
  | wakes site' =>
    simp only [step] at h
    split at h
    · rename_i wakes hpc
      split_ifs at h with hle
      obtain rfl := Option.some.inj h
      refine ⟨?_, s.health.extends_refl⟩
      by_cases hne : site = site'
      · subst hne
        exact .wakes hpc hle rfl (s.move_self ..) rfl
      · exact moved_of_ne hne _ rfl
    · cases h
  | release site' =>
    simp only [step] at h
    split_ifs at h with hjob
    obtain rfl := Option.some.inj h
    refine ⟨?_, s.health.extends_refl⟩
    by_cases hne : site = site'
    · subst hne
      refine .release rfl (fun since hpc => ?_) (s.move_self ..) rfl
      rw [hpc] at hjob
      exact Nat.lt_of_sub_pos hjob
    · exact moved_of_ne hne _ rfl

/-! ## The invariant of a loop -/

/-- How the last record `progress` of a loop relates to its place. -/
def Recorded (opts : Options) (now : Instant) (used : Nat) (progress : Option Instant) : LoopPc → Prop
  -- at a `select` that does not follow a record, a slot is free
  | .select fires =>
    progress = none ∨ ∃ last, progress = some last ∧
      (fires = last + opts.pollInterval ∧ now ≤ fires ∨ used < opts.concurrency ∧ now ≤ last + opts.pollInterval)
  | .claiming since => progress = some since ∧ 1 ≤ used
  | .sleeping wakes =>
    progress = some (wakes - opts.pollInterval) ∧ now ≤ wakes ∧ used < opts.concurrency

structure LoopInv (opts : Options) (site : String) (s : LoopSystem) : Prop where
  used_le : (s.loops site).used ≤ opts.concurrency
  recorded : Recorded opts s.now (s.loops site).used (s.health.progress site) (s.loops site).pc

theorem recorded_top (hpoll : 0 < opts.pollInterval) (now : Instant) (used : Nat) :
    Recorded opts now used (some now) (.top opts now) :=
  Or.inr ⟨now, rfl, Or.inl ⟨rfl, by linarith⟩⟩

/-- Time passes for a loop that stands still. -/
theorem Recorded.advance {l : ClaimLoop} {progress : Option Instant} {d : Nat}
    (h : Recorded opts now l.used progress l.pc) (hidle : d = 0 ∨ l.idleUntil opts (now + d) = true) :
    Recorded opts (now + d) l.used progress l.pc := by
  rcases hidle with rfl | hidle
  · simpa using h
  obtain ⟨pc, used⟩ := l
  cases pc with
  | select fires =>
    simp only [ClaimLoop.idleUntil, Bool.and_eq_true, decide_eq_true_iff] at hidle
    rcases h with hnone | ⟨last, hlast, ⟨hfires, -⟩ | ⟨hfree, -⟩⟩
    · exact Or.inl hnone
    · exact Or.inr ⟨last, hlast, Or.inl ⟨hfires, hidle.2⟩⟩
    · exact absurd hidle.1 (not_le.mpr hfree)
  | claiming since => exact h
  | sleeping wakes =>
    simp only [ClaimLoop.idleUntil, decide_eq_true_iff] at hidle
    exact ⟨h.1, hidle, h.2.2⟩

theorem Recorded.release {pc : LoopPc} {used : Nat} {progress : Option Instant}
    (h : Recorded opts now used progress pc) (hjob : ∀ since, pc = .claiming since → 1 < used) :
    Recorded opts now (used - 1) progress pc := by
  cases pc with
  | select fires =>
    rcases h with hnone | ⟨last, hlast, hfires | ⟨hfree, hle⟩⟩
    · exact Or.inl hnone
    · exact Or.inr ⟨last, hlast, Or.inl hfires⟩
    · exact Or.inr ⟨last, hlast, Or.inr ⟨by omega, hle⟩⟩
  | claiming since =>
    have hused := hjob since rfl
    exact ⟨h.1, by omega⟩
  | sleeping wakes =>
    have hfree := h.2.2
    exact ⟨h.1, h.2.1, by omega⟩

theorem LoopInv.step (hpoll : 0 < opts.pollInterval) (hsite : site ∈ sites) {t : LoopSystem} (h : LoopInv opts site s)
    (hm : Moved opts sites site s e t) : LoopInv opts site t := by
  obtain ⟨hused, hrec⟩ := h
  cases hm with
  | other hnow hloop hprog => exact ⟨by rwa [hloop], by rwa [hloop, hprog, hnow]⟩
  | advance hnow hloop hprog hidle =>
    refine ⟨by rwa [hloop], ?_⟩
    rw [hloop, hprog, hnow]
    exact hrec.advance (hidle.imp_right fun hall => hall site hsite)
  | acquire hnow hfree hloop hprog =>
    refine ⟨?_, ?_⟩
    · rw [hloop]
      push_cast
      omega
    · rw [hloop, hprog]
      exact ⟨rfl, Nat.le_add_left 1 _⟩
  | slotFires hpc hnow hloop hprog =>
    refine ⟨by rwa [hloop], ?_⟩
    rw [hloop, hprog, hnow]
    exact recorded_top hpoll _ _
  | idles hpc hnow hloop hprog =>
    rw [hpc] at hrec
    have hone := hrec.2
    refine ⟨?_, ?_⟩
    · rw [hloop]
      simp only
      omega
    · rw [hloop, hprog, hnow]
      refine ⟨by rw [add_sub_cancel_right], by linarith, ?_⟩
      simp only
      omega
  | starts hpc hnow hloop hprog =>
    refine ⟨by rwa [hloop], ?_⟩
    rw [hloop, hprog, hnow]
    exact recorded_top hpoll _ _
  | wakes hpc hle hnow hloop hprog =>
    rw [hpc] at hrec
    obtain ⟨hlast, hwake, hfree⟩ := hrec
    refine ⟨by rwa [hloop], ?_⟩
    rw [hloop, hprog, hnow]
    -- the loop gave its slot back before it slept
    exact Or.inr ⟨_, hlast, Or.inr ⟨hfree, by rw [sub_add_cancel]; exact hwake⟩⟩
  | release hnow hjob hloop hprog =>
    refine ⟨?_, ?_⟩
    · rw [hloop]
      simp only
      omega
    · rw [hloop, hprog, hnow]
      exact hrec.release hjob

theorem LoopInv.init (hconc : 1 ≤ opts.concurrency) (start : Instant) :
    LoopInv opts site (.init opts sites start) := by
  refine ⟨?_, ?_⟩
  · simp only [LoopSystem.init]
    push_cast
    omega
  · refine Or.inl ?_
    simp only [Health.progress, LoopSystem.init, newHealth]
    split_ifs <;> rfl

/-- The health of a run: the bound of the options, and a line for every site. -/
theorem health_of_run {G : LoopSystem → LoopEvent → Prop} {start : Instant} {es : List LoopEvent}
    (hrun : LoopSystem.Run opts sites G (.init opts sites start) es s) (hsite : site ∈ sites) :
    s.health.staleAfter = opts.healthStaleAfter ∧ site ∈ s.health.order := by
  refine hrun.inv (I := fun s => s.health.staleAfter = opts.healthStaleAfter ∧ site ∈ s.health.order) ⟨rfl, ?_⟩
    fun s e t hi hs => ?_
  · simpa only [LoopSystem.init, newHealth, sortStrings, List.mem_mergeSort] using hsite
  · have hmoved : Moved opts sites site s e t ∧ s.health.Extends t.health := LoopSystem.step_moved hs.2
    exact ⟨hmoved.2.1.trans hi.1, hmoved.2.2 site hi.2⟩

theorem loopInv_of_run (hpoll : 0 < opts.pollInterval) (hconc : 1 ≤ opts.concurrency) (hsite : site ∈ sites)
    {G : LoopSystem → LoopEvent → Prop} {start : Instant} {es : List LoopEvent}
    (hrun : LoopSystem.Run opts sites G (.init opts sites start) es s) : LoopInv opts site s :=
  hrun.inv (LoopInv.init hconc start) fun _ _ _ hi hs => hi.step hpoll hsite (LoopSystem.step_moved hs.2).1

/-- No claim of the site is longer than `bound` so far. -/
def ClaimYoung (bound : Duration) (site : String) (s : LoopSystem) : Prop :=
  ∀ since, (s.loops site).pc = .claiming since → s.now ≤ since + bound

theorem ClaimYoung.step {bound : Duration} (hbound : 0 ≤ bound) {t : LoopSystem} (h : ClaimYoung bound site s)
    (hguard : ClaimsWithin bound site s e) (hm : Moved opts sites site s e t) : ClaimYoung bound site t := by
  intro since hpc
  cases hm with
  | other hnow hloop _ =>
    rw [hloop] at hpc
    rw [hnow]
    exact h since hpc
  | advance hnow hloop _ _ =>
    rw [hloop] at hpc
    simp only [ClaimsWithin, hpc] at hguard
    rwa [hnow]
  | acquire hnow _ hloop _ =>
    rw [hloop] at hpc
    obtain rfl := LoopPc.claiming.inj hpc
    rw [hnow]
    linarith
  | slotFires _ _ hloop _ | idles _ _ hloop _ | starts _ _ hloop _ | wakes _ _ _ hloop _ =>
    rw [hloop] at hpc
    cases hpc
  | release hnow _ hloop _ =>
    rw [hloop] at hpc
    rw [hnow]
    exact h since hpc

theorem claimYoung_of_run {bound : Duration} (hbound : 0 ≤ bound) {start : Instant} {es : List LoopEvent}
    (hrun : LoopSystem.Run opts sites (ClaimsWithin bound site) (.init opts sites start) es s) :
    ClaimYoung bound site s :=
  hrun.inv (by intro since hpc; cases hpc) fun _ _ _ hi hs => hi.step hbound hs.1 (LoopSystem.step_moved hs.2).1

/-! ## The verdict -/

/-- The report has a line for the site, and every such line gives the verdict `v`. -/
def HealthReport.Says (rep : HealthReport) (site : String) (v : ClaimLoopVerdict) : Prop :=
  (∃ l ∈ rep.sites, l.site = site) ∧ ∀ l ∈ rep.sites, l.site = site → l.claimLoop = v

theorem Health.report_says {h : Health} (hmem : site ∈ h.order) (safeError : String → String) (now : Instant)
    (pingers : Pingers) :
    (h.report safeError now pingers).Says site (((h.sites site).getD .zero).verdict now h.staleAfter).1 := by
  refine ⟨⟨_, List.mem_map.mpr ⟨site, hmem, rfl⟩, rfl⟩, fun l hl hls => ?_⟩
  obtain ⟨site', -, rfl⟩ := List.mem_map.mp hl
  have heq : site' = site := hls
  rw [heq]
  rfl

theorem verdict_ok {p : SiteProgress} {last : Instant} {stale : Duration} (hp : p.lastProgress = some last)
    (hmin : minDuration ≤ stale) (hle : now ≤ last + stale) : (p.verdict now stale).1 = .ok := by
  have hsub : ¬ Instant.sub now last > stale := by
    rw [Instant.sub, gt_iff_lt, not_lt]
    refine max_le hmin ((min_le_right _ _).trans ?_)
    linarith
  simp only [SiteProgress.verdict, hp, if_neg hsub]

theorem verdict_stalled {p : SiteProgress} {last : Instant} {stale : Duration} (hp : p.lastProgress = some last)
    (hmax : stale < maxDuration) (hgt : stale < now - last) : (p.verdict now stale).1 = .stalled := by
  have hsub : Instant.sub now last > stale := by
    exact lt_max_of_lt_right (lt_min hmax hgt)
  simp only [SiteProgress.verdict, hp, if_pos hsub]

theorem healthStaleBound_bounds {poll : Duration} (timeout : Duration) (hpoll : 0 < poll) (hint : 5 * poll ≤ maxDuration) :
    poll ≤ healthStaleBound poll timeout ∧ 0 ≤ healthStaleBound poll timeout ∧
      healthStaleBound poll timeout < maxDuration := by
  have hint' : 5 * poll ≤ (9223372036854775807 : Int) := hint
  by_cases h : 5 * poll < 15 * second
  · rw [healthStaleBound, if_pos h]
    have h15 : (15 * second : Int) = 15000000000 := rfl
    have hmax : maxDuration = (9223372036854775807 : Int) := rfl
    refine ⟨by linarith, by linarith, by linarith⟩
  · rw [healthStaleBound, if_neg h]
    -- the largest duration is no multiple of five
    have hne : ∀ p : Int, 5 * p ≠ 9223372036854775807 := by
      intro p
      omega
    exact ⟨by linarith, by linarith, lt_of_le_of_ne hint (hne poll)⟩

/-- With no scheduling delay, for every positive poll interval, every concurrency and every site: as long as its
claims are no longer than the bound, every report after the first recorded progress says `ok`, saturated or not;
and while a claim has been going on for longer than the bound, every report says `stalled`. -/
theorem claimLoop_health_correct (opts : Options) (hpoll : 0 < opts.pollInterval)
    (hint : 5 * opts.pollInterval ≤ maxDuration) (hconc : 1 ≤ opts.concurrency)
    (hstale : opts.healthStaleAfter = healthStaleBound opts.pollInterval opts.timeout) (sites : List String)
    (site : String) (hsite : site ∈ sites) (start : Instant) (safeError : String → String) (pingers : Pingers) :
    (∀ es s, LoopSystem.Run opts sites (ClaimsWithin opts.healthStaleAfter site) (.init opts sites start) es s →
      (s.health.progress site).isSome = true →
      (s.health.report safeError s.now pingers).Says site .ok) ∧
    ∀ es s since, LoopSystem.Run opts sites (fun _ _ => True) (.init opts sites start) es s →
      (s.loops site).pc = .claiming since → opts.healthStaleAfter < s.now - since →
      (s.health.report safeError s.now pingers).Says site .stalled := by
  obtain ⟨hge, hnonneg, hlt⟩ := healthStaleBound_bounds opts.timeout hpoll hint
  rw [← hstale] at hge hnonneg hlt
  constructor
  · intro es s hrun hsome
    obtain ⟨hbound, hmem⟩ := health_of_run hrun hsite
    obtain ⟨last, hlast⟩ := Option.isSome_iff_exists.mp hsome
    have hrec := (loopInv_of_run hpoll hconc hsite hrun).recorded
    have hyoung := claimYoung_of_run hnonneg hrun
    have hfresh : s.now ≤ last + opts.healthStaleAfter := by
      rw [hlast] at hrec
      cases hpc : (s.loops site).pc with
      | select fires =>
        rw [hpc] at hrec
        rcases hrec with hnone | ⟨last', heq, hcase⟩
        · cases hnone
        · obtain rfl := Option.some.inj heq
          rcases hcase with ⟨hfires, hle⟩ | ⟨-, hle⟩
          · linarith
          · linarith
      | claiming since =>
        rw [hpc] at hrec
        obtain rfl := Option.some.inj hrec.1
        exact hyoung _ hpc
      | sleeping wakes =>
        rw [hpc] at hrec
        have heq := Option.some.inj hrec.1
        have hwake := hrec.2.1
        linarith
    have hmin : minDuration ≤ opts.healthStaleAfter := le_trans (by decide) hnonneg
    have hsays := Health.report_says hmem safeError s.now pingers
    rwa [hbound, verdict_ok hlast hmin hfresh] at hsays
  · intro es s since hrun hpc hlong
    obtain ⟨hbound, hmem⟩ := health_of_run hrun hsite
    have hrec := (loopInv_of_run hpoll hconc hsite hrun).recorded
    rw [hpc] at hrec
    have hsays := Health.report_says hmem safeError s.now pingers
    rwa [hbound, verdict_stalled hrec.1 hlt hlong] at hsays

/-- The defaults: a poll interval of a second and a bound of fifteen. -/
def defaultOptions : Options :=
  Options.applyDefaults
    { lease := 0, timeout := 0, concurrency := 0, pollInterval := 0, sweepInterval := 0, drainGrace := 0
      workerID := "w", healthStaleAfter := 0 }
    { host := "h", pid := 1, rand := 7 }

/-- The loop of the one site has taken a slot and is inside a claim for `d`. -/
def claimingFor (d : Nat) : LoopSystem :=
  { now := d
    health := (newHealth ["main"] defaultOptions.healthStaleAfter).loopAlive 0 "main"
    loops := Function.update (fun _ => { pc := .top defaultOptions 0, used := 0 }) "main"
      { pc := .claiming 0, used := 1 } }

theorem claimLoop_health_main :
    ((claimingFor 15000000000).health.report id (claimingFor 15000000000).now fun _ => none).Says "main" .ok ∧
      ((claimingFor 15000000001).health.report id (claimingFor 15000000001).now fun _ => none).Says "main"
        .stalled := by
  have hfirst : ∀ G : LoopSystem → LoopEvent → Prop, G (.init defaultOptions ["main"] 0) (.acquire "main") →
      LoopSystem.Run defaultOptions ["main"] G (.init defaultOptions ["main"] 0) [.acquire "main"] (claimingFor 0) :=
    fun _ hG => Lts.Run.single ⟨hG, rfl⟩
  have hshort : LoopSystem.Run defaultOptions ["main"] (ClaimsWithin defaultOptions.healthStaleAfter "main")
      (.init defaultOptions ["main"] 0) [.acquire "main", .advance 15000000000] (claimingFor 15000000000) := by
    refine (hfirst _ trivial).tail ⟨?_, rfl⟩
    simp only [ClaimsWithin, claimingFor, Function.update_self]
    decide
  have hlong : LoopSystem.Run defaultOptions ["main"] (fun _ _ => True)
      (.init defaultOptions ["main"] 0) [.acquire "main", .advance 15000000001] (claimingFor 15000000001) :=
    (hfirst _ trivial).tail ⟨trivial, rfl⟩
  have hcorrect := claimLoop_health_correct defaultOptions (by decide) (by decide) (by decide) rfl ["main"] "main"
    (by decide) 0 id fun _ => none
  exact ⟨hcorrect.1 _ _ hshort rfl, hcorrect.2 _ _ 0 hlong rfl (by decide)⟩

end Vizra.Jobs
