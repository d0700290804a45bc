import Vizra.HttpApi.Proofs.ReadinessCacheProofs
import Vizra.HttpApi.Readiness

/-!
# Readiness and the request that happens to lead

With healthy dependencies `computeReadiness` reports `ok` as long as every one of them is asked under a live
context, and then so does every `Get`. The context is that of the leading request, though: when that one
is given up, what the calls under it report is stored for everybody.
-/

namespace Vizra.HttpApi.Readiness

open Go ReadinessCache Search

variable {deps : Deps} {now : Instant} {service : Option Service} {pc : Pc} {d : Draft} {e : Answers}

/-! ## Healthy dependencies -/

def Answers.healthy (deps : Deps) (e : Answers) : Bool :=
  e.pingDatabase.isNone && e.pingCache.isNone && !e.limiterDegraded &&
    (match e.healthz with
      | .response statusCode => statusCode = 200
      | _ => false) &&
    match e.queueSnapshot with
    | .ok age => deps.queueAgeThreshold.all fun t => age ≤ t
    | .error _ => false

/-- The last call that was made to the search service, if any, has not failed. -/
def sound (service : Option Service) : Bool :=
  service.all fun sv => sv.remote.all fun c => !c.faulted

/-- Every dependency is healthy whenever it is asked, and the search client does not fail elsewhere. -/
def Healthy (deps : Deps) (_ : State) : Event → Prop
  | .answer _ e => e.healthy deps = true
  | .outside service => sound service = true
  | _ => True

/-- The context under which the next dependency is asked is live. -/
def Pc.live (now : Instant) : Pc → Bool
  | .begin _ => true
  | .database d | .cache d | .search d | .worker d => d.ctx.live now

/-- No dependency is asked under a context that is done. -/
def AsksLive (s : State) : Event → Prop
  | .answer i _ => ∀ b pc, s.procs i = .computing b pc → pc.live s.now = true
  | _ => True

/-! ## Components -/

theorem demote_ok {status : Status} (h : status = .ok ∨ status = .off) : demote .ok status = .ok := by
  rcases h with rfl | rfl <;> rfl

theorem Draft.worst_report {c : Component} (hd : d.worst = .ok) (hc : c.status = .ok ∨ c.status = .off) :
    (d.report c).worst = .ok := by
  rw [Draft.report, hd, demote_ok hc]

theorem under_of_live {ctx : Context} {err : Option String} (h : ctx.live now = true) :
    under ctx now err = err := by
  rw [under, if_pos h]

theorem workerComponent_ok {threshold : Option Duration} {age : Duration}
    (h : (threshold.all fun t => age ≤ t) = true) : (workerComponent threshold (.ok age)).status = .ok := by
  have hnot : (threshold.any fun t => age > t) = false := by
    cases threshold with
    | none => rfl
    | some t => simpa using h
  simp [workerComponent, hnot]

/-- A sound client that is asked under a live context stays sound and reports no fault. -/
theorem searchHealth_ok {ctx : Context} (hctx : ctx.live now = true) (hs : sound service = true) :
    sound (searchHealth ctx now (.response 200) service).1 = true ∧
      (searchComponent (searchHealth ctx now (.response 200) service).2).status ∈
        [Status.ok, Status.off] := by
  rcases service with _ | ⟨_ | c⟩
  · simp [searchHealth, sound, searchComponent]
  · simp [searchHealth, sound, searchComponent, Service.health]
  · have hfault : c.faulted = false := by simpa [sound] using hs
    by_cases hused : c.everUsed = true
    · simp [searchHealth, Service.health, RemoteClient.probe, hused, hfault, sound, searchComponent]
    · simp [searchHealth, Service.health, RemoteClient.probe, RemoteClient.ping, hused, hctx, sound,
        searchComponent]

/-! ## The computation -/

/-- Nothing has been demoted so far. -/
def Pc.fine : Pc → Prop
  | .begin _ => True
  | .database d | .cache d | .search d | .worker d => d.worst = .ok

theorem step_fine (howner : deps.ownerClaimDegraded = false) (he : e.healthy deps = true)
    (hlive : pc.live now = true) (hs : sound service = true) (hpc : pc.fine) :
    sound (step deps now service pc e).1 = true ∧
      Sum.elim Pc.fine (fun v : Response => v.status = .ok) (step deps now service pc e).2 := by
  simp only [Answers.healthy, Bool.and_eq_true, Option.isNone_iff_eq_none, Bool.not_eq_true'] at he
  obtain ⟨⟨⟨⟨hdb, hcache⟩, hlimiter⟩, hsearch⟩, hqueue⟩ := he
  cases pc with
  | begin ctx => exact ⟨hs, rfl⟩
  | database d =>
    have hctx : d.ctx.live now = true := hlive
    refine ⟨hs, ?_⟩
    simp only [step, howner, hdb, under_of_live hctx]
    exact Draft.worst_report hpc (Or.inl rfl)
  | cache d =>
    have hctx : d.ctx.live now = true := hlive
    refine ⟨hs, ?_⟩
    simp only [step, hlimiter, hcache, under_of_live hctx, Bool.and_false]
    exact Draft.worst_report hpc (Or.inl rfl)
  | search d =>
    have hping : e.healthz = .response 200 := by
      cases hz : e.healthz <;> simp_all
    have hctx : d.ctx.live now = true := hlive
    obtain ⟨hsound, hcomp⟩ := searchHealth_ok hctx hs
    have hworst : (d.report (searchComponent (searchHealth d.ctx now (.response 200) service).2)).worst =
        .ok := Draft.worst_report hpc (by simpa using hcomp)
    simp only [step, hping]
    refine ⟨hsound, ?_⟩
    split
    · exact hworst
    · exact hworst
  | worker d =>
    refine ⟨hs, ?_⟩
    cases hq : e.queueSnapshot with
    | error err =>
      rw [hq] at hqueue
      cases hqueue
    | ok age =>
      rw [hq] at hqueue
      have hsnap : snapshotUnder d.ctx now (.ok age) = .ok age := if_pos hlive
      simp only [step, hq, hsnap]
      exact Draft.worst_report hpc (Or.inl (workerComponent_ok hqueue))

theorem guarantees_ok (howner : deps.ownerClaimDegraded = false) :
    Guarantees (computeReadiness deps) (fun s l => Healthy deps s l ∧ AsksLive s l)
      (fun service => sound service = true) Pc.fine fun v => v.status = .ok where
  start _ := trivial
  outside _ _ h := h.1
  step _ _ b pc _ hg hp hs hpc := step_fine howner hg.1 (hg.2 b pc hp) hs hpc

/-! ## The computation ends -/

def exampleAnswers : Answers :=
  { pingDatabase := none, pingCache := none, limiterDegraded := false, healthz := .response 200
    queueSnapshot := .ok 0 }

theorem returns_of_worker (d : Draft) : (computeReadiness deps).Returns now service (.worker d) :=
  .last (e := exampleAnswers) rfl

theorem returns_of_search (d : Draft) : (computeReadiness deps).Returns now service (.search d) := by
  by_cases hq : deps.queueSnapshot = true
  · exact .more (e := exampleAnswers) (by simp only [computeReadiness, step, if_pos hq]; rfl)
      (returns_of_worker _)
  · exact .last (e := exampleAnswers) (by simp only [computeReadiness, step, if_neg hq]; rfl)

theorem computeReadiness_terminates (deps : Deps) : (computeReadiness deps).Terminates := by
  intro now service pc
  have hcache : ∀ d, (computeReadiness deps).Returns now service (.cache d) := fun d =>
    .more (e := exampleAnswers) rfl (returns_of_search _)
  have hdatabase : ∀ d, (computeReadiness deps).Returns now service (.database d) := fun d =>
    .more (e := exampleAnswers) rfl (hcache _)
  cases pc with
  | begin ctx => exact .more (e := exampleAnswers) rfl (hdatabase _)
  | database d => exact hdatabase d
  | cache d => exact hcache d
  | search d => exact returns_of_search d
  | worker d => exact returns_of_worker d

/-- In every run in which the dependencies are healthy and each of them is asked under a live context,
every call of `Get` gets the status `ok`, and the request is answered with 200. -/
theorem readiness_ok {ls : List Event} {s : State} (howner : deps.ownerClaimDegraded = false)
    (hs : sound service = true)
    (h : St.Run readinessTTL (computeReadiness deps) (fun s l => Healthy deps s l ∧ AsksLive s l)
      (.init now service) ls s) (i : Nat) (b : Instant) (r : Option (Value Response))
    (hp : s.procs i = .returned b r) :
    ∃ v, r = some v ∧ v.val.status = .ok ∧ ∀ t, handleReadyz false t v.val = (200, v.val) := by
  obtain ⟨v, rfl, hok⟩ := (guarantees_ok howner).returned hs h hp
  refine ⟨v, rfl, hok, fun t => ?_⟩
  simp [handleReadyz, hok]

instance (deps : Deps) : ∀ (s : State) (l : Event), Decidable (Healthy deps s l)
  | _, .answer _ e => inferInstanceAs (Decidable (e.healthy deps = true))
  | _, .outside service => inferInstanceAs (Decidable (sound service = true))
  | _, .tick _ | _, .call _ _ | _, .next _ => .isTrue trivial

instance : ∀ (s : State) (l : Event), Decidable (AsksLive s l)
  | s, .answer i _ =>
    match h : s.procs i with
    | .computing b pc =>
      decidable_of_iff (pc.live s.now = true) ⟨fun hl b' pc' hp => by cases h.symm.trans hp; exact hl,
        fun ha => ha b pc h⟩
    | .idle | .entering .. | .waiting .. | .woken _ | .computed .. | .stored .. | .returned .. =>
      .isTrue fun b pc hp => by cases h.symm.trans hp
  | _, .tick _ | _, .outside _ | _, .call _ _ | _, .next _ => .isTrue trivial

def exampleDeps : Deps :=
  { ownerClaimDegraded := false, limiter := true, queueSnapshot := true
    queueAgeThreshold := some (15 * minute) }

/-- A search service that has not been asked yet. -/
def exampleService : Option Service := some ⟨some .fresh⟩

/-- Call 0 leads under `ctx` and call 1 waits for it; ten nanoseconds pass before the first dependency is
asked. -/
def leaderLabels (ctx : Context) : List Event :=
  [.call 0 ctx, .next 0, .answer 0 exampleAnswers, .call 1 ⟨none⟩, .next 1, .tick 10] ++
    List.replicate 4 (.answer 0 exampleAnswers) ++ [.next 0, .next 0, .next 1, .next 1]

/-- The status that a call has returned. -/
def status (p : Proc Pc Response) : Option Status := p.result.map fun c => c.2.val.status

theorem returned_of_status {p : Proc Pc Response} {st : Status} (h : status p = some st) :
    ∃ b v, p = .returned b (some v) ∧ v.val.status = st := by
  obtain ⟨c, hc, hst⟩ := Option.map_eq_some_iff.mp h
  exact ⟨c.1, c.2, Proc.eq_of_result hc, hst⟩

theorem readiness_ok_example :
    ∃ s b v, St.Run readinessTTL (computeReadiness exampleDeps)
      (fun s l => Healthy exampleDeps s l ∧ AsksLive s l) (.init 1 exampleService)
      (leaderLabels ⟨none⟩) s ∧ s.procs 1 = .returned b (some v) ∧ v.val.status = .ok := by
  obtain ⟨s, hs, ht⟩ := Lts.Run.of_exec_any (P := fun s => (s.procs 1).result.isSome)
    (by decide +kernel :
      (Lts.exec (Lts.restrict (fun s l => Healthy exampleDeps s l ∧ AsksLive s l)
        (St.step readinessTTL (computeReadiness exampleDeps))) (.init 1 exampleService)
        (leaderLabels ⟨none⟩)).any _ = true)
  have hrun : St.Run readinessTTL (computeReadiness exampleDeps)
      (fun s l => Healthy exampleDeps s l ∧ AsksLive s l) (.init 1 exampleService)
      (leaderLabels ⟨none⟩) s := hs.mono fun _ _ _ => Lts.graph_restrict
  obtain ⟨c, hc⟩ := Option.isSome_iff_exists.mp ht
  have hp := Proc.eq_of_result hc
  obtain ⟨v, hv, hok, -⟩ := readiness_ok rfl rfl hrun 1 c.1 _ hp
  cases hv
  exact ⟨s, c.1, c.2, hrun, hp, hok⟩

/-- The same calls in the same order, all dependencies healthy: whether call 1, whose context is never
done, is told `unavailable` or `ok` is decided by the client of call 0. -/
theorem cancelled_leader :
    ∃ s t b v b' v',
      St.Run readinessTTL (computeReadiness exampleDeps) (Healthy exampleDeps) (.init 1 exampleService)
        (leaderLabels ⟨some 5⟩) s ∧
      St.Run readinessTTL (computeReadiness exampleDeps) (Healthy exampleDeps) (.init 1 exampleService)
        (leaderLabels ⟨none⟩) t ∧
      s.procs 1 = .returned b (some v) ∧ v.val.status = .unavailable ∧
      t.procs 1 = .returned b' (some v') ∧ v'.val.status = .ok := by
  obtain ⟨s, hs, hst⟩ := Lts.Run.of_exec_any (P := fun s => status (s.procs 1) = some .unavailable)
    (by decide +kernel :
      (Lts.exec (Lts.restrict (Healthy exampleDeps) (St.step readinessTTL (computeReadiness exampleDeps)))
        (.init 1 exampleService) (leaderLabels ⟨some 5⟩)).any _ = true)
  obtain ⟨t, ht, htt⟩ := Lts.Run.of_exec_any (P := fun s => status (s.procs 1) = some .ok)
    (by decide +kernel :
      (Lts.exec (Lts.restrict (Healthy exampleDeps) (St.step readinessTTL (computeReadiness exampleDeps)))
        (.init 1 exampleService) (leaderLabels ⟨none⟩)).any _ = true)
  obtain ⟨b, v, hp, hv⟩ := returned_of_status (of_decide_eq_true hst)
  obtain ⟨b', v', hp', hv'⟩ := returned_of_status (of_decide_eq_true htt)
  exact ⟨s, t, b, v, b', v', hs.mono fun _ _ _ => Lts.graph_restrict,
    ht.mono fun _ _ _ => Lts.graph_restrict, hp, hv, hp', hv'⟩

end Vizra.HttpApi.Readiness
