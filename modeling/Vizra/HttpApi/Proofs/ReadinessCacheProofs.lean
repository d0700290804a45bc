import Mathlib.Algebra.Order.Ring.Int
import Vizra.HttpApi.ReadinessCache
import Vizra.Lts.Lock

/-!
# One flight at a time, and how old a result can be

The field `inFlight` is a lock that the leading call holds until it stores its result (`CacheInv.flight`).
A call that waits for a leader began before that leader stores anything, so whatever it reads after the
wait was stored since it began.
-/

namespace Vizra.HttpApi.ReadinessCache

open Go

variable {ω κ α ε : Type} {ttl : Duration} {compute : Compute ω κ α ε} {s s' t : St ω κ α} {i j : Nat}
  {l : Label ω ε} {a : Act ω κ α} {p : Proc κ α} {b : Instant}

/-- A call that has started a flight and not stored its result. -/
def Proc.leads : Proc κ α → Bool
  | .computing .. | .computed .. => true
  | _ => false

/-- A call that has started a flight, or has returned. -/
def Proc.launched : Proc κ α → Bool
  | .computing .. | .computed .. | .stored .. | .returned .. => true
  | _ => false

/-! ## Moves -/

/-- The moves of call `i` that a label stands for. -/
inductive St.Moves (ttl : Duration) (compute : Compute ω κ α ε) (s : St ω κ α) (i : Nat) :
    Label ω ε → Act ω κ α → Prop where
  | call {ctx : Context} (h : s.procs i = .idle) :
    Moves ttl compute s i (.call i ctx) (.goto (.entering s.now ctx))
  | next {a : Act ω κ α} (h : s.next ttl compute (s.procs i) = some a) :
    Moves ttl compute s i (.next i) a
  | answer {b : Instant} {k : κ} {e : ε} (h : s.procs i = .computing b k) :
    Moves ttl compute s i (.answer i e) (s.think compute b k e)

theorem St.step_cases (h : s.step ttl compute l = some s') :
    (∃ d : Nat, l = .tick d ∧ s' = { s with now := s.now + d }) ∨
      (∃ w, l = .outside w ∧ s' = { s with world := w }) ∨
      ∃ i a, s.Moves ttl compute i l a ∧ s' = s.apply i a := by
  cases l with
  | tick d => exact Or.inl ⟨d, rfl, (Option.some.inj h).symm⟩
  | outside w => exact Or.inr (Or.inl ⟨w, rfl, (Option.some.inj h).symm⟩)
  | call i ctx =>
    simp only [step] at h
    split at h
    · exact Or.inr (Or.inr ⟨i, _, .call ‹_›, (Option.some.inj h).symm⟩)
    · cases h
  | next i =>
    simp only [step, Option.map_eq_some_iff] at h
    obtain ⟨a, ha, rfl⟩ := h
    exact Or.inr (Or.inr ⟨i, a, .next ha, rfl⟩)
  | answer i e =>
    simp only [step] at h
    split at h
    · exact Or.inr (Or.inr ⟨i, _, .answer ‹_›, (Option.some.inj h).symm⟩)
    · cases h

/-- The point at which a call is after its move. -/
def Act.dest : Act ω κ α → Proc κ α
  | goto p | lead p | think _ p => p
  | store b v => .stored b v

theorem St.apply_procs (s : St ω κ α) (i : Nat) (a : Act ω κ α) :
    (s.apply i a).procs = Function.update s.procs i a.dest := by
  cases a <;> rfl

@[simp] theorem St.apply_procs_self (s : St ω κ α) (i : Nat) (a : Act ω κ α) :
    (s.apply i a).procs i = a.dest := by
  rw [apply_procs, Function.update_self]

@[simp] theorem St.apply_procs_ne (s : St ω κ α) (a : Act ω κ α) (h : j ≠ i) :
    (s.apply i a).procs j = s.procs j := by
  rw [apply_procs, Function.update_of_ne h]

@[simp] theorem St.apply_now (s : St ω κ α) (i : Nat) (a : Act ω κ α) : (s.apply i a).now = s.now := by
  cases a <;> rfl

theorem St.forall_procs_apply {Q : Proc κ α → Prop} (hself : Q a.dest) (hother : ∀ j, j ≠ i → Q (s.procs j))
    (j : Nat) : Q ((s.apply i a).procs j) := by
  rw [apply_procs]
  exact (Function.forall_update_iff s.procs fun _ => Q).mpr ⟨hself, hother⟩ j

theorem St.think_of_inl {w : ω} {k k' : κ} {e : ε} (h : compute.step s.now s.world k e = (w, .inl k')) :
    s.think compute b k e = .think w (.computing b k') := by
  simp [think, h]

theorem St.think_of_inr {w : ω} {k : κ} {v : α} {e : ε} (h : compute.step s.now s.world k e = (w, .inr v)) :
    s.think compute b k e = .think w (.computed b v s.now) := by
  simp [think, h]

theorem St.think_cases (compute : Compute ω κ α ε) (s : St ω κ α) (b : Instant) (k : κ) (e : ε) :
    (∃ w k', s.think compute b k e = .think w (.computing b k')) ∨
      ∃ w v, s.think compute b k e = .think w (.computed b v s.now) := by
  rcases h : compute.step s.now s.world k e with ⟨w, k' | v⟩
  · exact Or.inl ⟨w, k', St.think_of_inl h⟩
  · exact Or.inr ⟨w, v, St.think_of_inr h⟩

/-! ## The flight -/

/-- How a move of a call at `p` treats `inFlight`. -/
def Act.Flies (s : St ω κ α) (p : Proc κ α) : Act ω κ α → Prop
  | goto q | think _ q => q.leads = p.leads
  | lead q => s.inFlight = none ∧ q.leads = true
  | store .. => p.leads = true

theorem St.next_flies (h : s.next ttl compute p = some a) : a.Flies s p := by
  cases p <;> simp only [next] at h
  case entering b ctx =>
    split at h
    · cases h
      rfl
    · split at h
      · cases h
        rfl
      · rename_i hfree
        cases h
        exact ⟨hfree, rfl⟩
  case waiting b j =>
    split at h <;> cases h
    rfl
  case woken b => cases h; rfl
  case computed b v f => cases h; rfl
  case stored b v => cases h; rfl
  all_goals cases h

theorem St.Moves.flies (h : s.Moves ttl compute i l a) : a.Flies s (s.procs i) := by
  cases h with
  | call h =>
    rw [h]
    rfl
  | next h => exact next_flies h
  | @answer b k e h =>
    rw [h]
    obtain ⟨w, k', hthink⟩ | ⟨w, v, hthink⟩ := St.think_cases compute s b k e
    · rw [hthink]
      rfl
    · rw [hthink]
      rfl

theorem St.next_launched (h : s.next ttl compute p = some a) (hp : p.launched = true) :
    a.dest.launched = true := by
  cases p <;> simp only [next] at h <;> cases hp
  case computed b v f => cases h; rfl
  case stored b v => cases h; rfl
  all_goals cases h

theorem St.Moves.launched (h : s.Moves ttl compute i l a) (hp : (s.procs i).launched = true) :
    a.dest.launched = true := by
  cases h with
  | call h =>
    rw [h] at hp
    cases hp
  | next h => exact next_launched h hp
  | @answer b k e h =>
    obtain ⟨w, k', hthink⟩ | ⟨w, v, hthink⟩ := St.think_cases compute s b k e
    · rw [hthink]
      rfl
    · rw [hthink]
      rfl

/-- The call that `inFlight` names is the one whose result is not stored yet. -/
def FlightInv (s : St ω κ α) : Prop := Lts.Owned (Proc.leads ∘ s.procs) s.inFlight

theorem FlightInv.apply (h : FlightInv s) (ha : a.Flies s (s.procs i)) : FlightInv (s.apply i a) := by
  unfold FlightInv
  rw [St.apply_procs, Function.comp_update]
  cases a with
  | goto q | think w q => exact h.keep ha
  | lead q =>
    rw [Act.dest, ha.2]
    exact h.take ha.1 i
  | store b v =>
    have hown : s.inFlight = some i := (h i).mp ha
    have hfree : ∀ j, (none : Option Nat) = some j ↔ s.inFlight = some j ∧ j ≠ i := by
      intro j
      rw [hown]
      simp [eq_comm]
    exact h.release hfree

/-! ## What a call relies on -/

/-- The stored result was stored at `b` or later. -/
def St.storedSince (s : St ω κ α) (b : Instant) : Prop := ∃ v, s.value = some v ∧ b ≤ v.stored

/-- What holds of a call. -/
def ProcOk (ttl : Duration) (s : St ω κ α) : Proc κ α → Prop
  | .idle => True
  | .entering b _ | .computing b _ | .computed b _ _ => b ≤ s.now
  | .waiting b j =>
    b ≤ s.now ∧ (s.procs j).launched = true ∧ ((s.procs j).leads = true ∨ s.storedSince b)
  | .woken b => s.storedSince b
  | .stored b v => b ≤ v.stored
  | .returned b r => ∃ v, r = some v ∧ b ≤ v.stored + max ttl 0

/-- What the other calls see of a step. -/
structure Later (s s' : St ω κ α) : Prop where
  now : s.now ≤ s'.now
  since : ∀ b, s.storedSince b → s'.storedSince b
  launched : ∀ j, (s.procs j).launched = true → (s'.procs j).launched = true
  leads : ∀ b j, b ≤ s.now → (s.procs j).leads = true → (s'.procs j).leads = true ∨ s'.storedSince b

/-- What a call relies on stays true. -/
theorem ProcOk.mono (h : ProcOk ttl s p) (hs : Later s s') : ProcOk ttl s' p := by
  cases p with
  | idle => trivial
  | entering b ctx | computing b k | computed b v f => exact le_trans h hs.now
  | waiting b j =>
    refine ⟨le_trans h.1 hs.now, hs.launched j h.2.1, ?_⟩
    rcases h.2.2 with hl | hb
    · exact hs.leads b j h.1 hl
    · exact Or.inr (hs.since b hb)
  | woken b => exact hs.since b h
  | stored b v => exact h
  | returned b r => exact h

theorem Later.launched_apply (h : (s.procs i).launched = true → a.dest.launched = true) (j : Nat)
    (hj : (s.procs j).launched = true) : ((s.apply i a).procs j).launched = true := by
  by_cases hji : j = i
  · subst hji
    rw [St.apply_procs_self]
    exact h hj
  · rw [St.apply_procs_ne s a hji]
    exact hj

theorem Proc.launched_of_leads (h : p.leads = true) : p.launched = true := by
  cases p <;> first | rfl | cases h

structure CacheInv (ttl : Duration) (s : St ω κ α) : Prop where
  flight : FlightInv s
  value : ∀ v, s.value = some v → v.stored = s.taken ∧ v.stored ≤ s.now
  zero : s.value = none → s.taken = 0
  procs : ∀ i, ProcOk ttl s (s.procs i)

theorem CacheInv.init (now : Instant) (w : ω) : CacheInv ttl (St.init now w : St ω κ α) where
  flight i := by simp [St.init, Proc.leads]
  value := by simp [St.init]
  zero _ := rfl
  procs i := trivial

theorem le_add_max {x y d : Int} (h : x ≤ y) : x ≤ y + max d 0 := by omega

theorem le_add_max_of_sub_lt {x y z d : Int} (h : x ≤ y) (hd : y - z < d) : x ≤ z + max d 0 := by omega

/-- A result that the first branch of `Get` returns. -/
theorem CacheInv.fresh (h : CacheInv ttl s) (hf : s.fresh ttl = true) (hb : b ≤ s.now) :
    ∃ v, s.value = some v ∧ b ≤ v.stored + max ttl 0 := by
  simp only [St.fresh, Bool.and_eq_true, decide_eq_true_eq] at hf
  cases hv : s.value with
  | none => exact absurd (h.zero hv) hf.1
  | some v =>
    have hstored := (h.value v hv).1
    refine ⟨v, rfl, ?_⟩
    rw [hstored]
    exact le_add_max_of_sub_lt hb hf.2

/-- What a move leads to, for the call itself. -/
def ActOk (ttl : Duration) (s : St ω κ α) : Act ω κ α → Prop
  | .goto q | .lead q | .think _ q => ProcOk ttl s q
  | .store b v => b ≤ v.stored ∧ v.stored = s.now

theorem CacheInv.next_ok (h : CacheInv ttl s) (hp : ProcOk ttl s p)
    (hn : s.next ttl compute p = some a) : ActOk ttl s a := by
  cases p <;> simp only [St.next] at hn
  case entering b ctx =>
    split at hn
    · cases hn
      exact h.fresh ‹_› hp
    · split at hn
      · rename_i j hj
        cases hn
        have hleads : (s.procs j).leads = true := (h.flight j).mpr hj
        exact ⟨hp, Proc.launched_of_leads hleads, Or.inl hleads⟩
      · cases hn
        exact hp
  case waiting b j =>
    split at hn
    · rename_i hdone
      cases hn
      rcases hp.2.2 with hl | hs
      -- a call that has returned leads no flight
      · cases hj : s.procs j <;> simp_all [Proc.done, Proc.leads]
      · exact hs
    · cases hn
  case woken b =>
    cases hn
    obtain ⟨v, hv, hle⟩ := hp
    exact ⟨v, hv, le_add_max hle⟩
  case computed b v f =>
    cases hn
    exact ⟨hp, rfl⟩
  case stored b v =>
    cases hn
    exact ⟨v, rfl, le_add_max hp⟩
  all_goals cases hn

theorem CacheInv.moves_ok (h : CacheInv ttl s) (hm : s.Moves ttl compute i l a) : ActOk ttl s a := by
  have hp := h.procs i
  cases hm with
  | call _ => exact le_refl s.now
  | next hn => exact h.next_ok hp hn
  | @answer b k e hk =>
    rw [hk] at hp
    obtain ⟨w, k', hthink⟩ | ⟨w, v, hthink⟩ := St.think_cases compute s b k e
    · rw [hthink]
      exact hp
    · rw [hthink]
      exact hp

/-- A move that stores nothing. -/
theorem CacheInv.apply_quiet (h : CacheInv ttl s) (hf : a.Flies s (s.procs i))
    (hvalue : (s.apply i a).value = s.value) (htaken : (s.apply i a).taken = s.taken)
    (hlaunched : (s.procs i).launched = true → a.dest.launched = true)
    (hleads : (s.procs i).leads = true → a.dest.leads = true) (hok : ProcOk ttl s a.dest) :
    CacheInv ttl (s.apply i a) := by
  have hlater : Later s (s.apply i a) := by
    refine ⟨by simp, ?_, Later.launched_apply hlaunched, fun b j _ hj => Or.inl ?_⟩
    · rintro b ⟨v, hv, hle⟩
      exact ⟨v, hvalue.trans hv, hle⟩
    · by_cases hji : j = i
      · subst hji
        rw [St.apply_procs_self]
        exact hleads hj
      · rw [St.apply_procs_ne s a hji]
        exact hj
  refine ⟨h.flight.apply hf, ?_, ?_, ?_⟩
  · rw [hvalue, htaken, St.apply_now]
    exact h.value
  · rw [hvalue, htaken]
    exact h.zero
  · exact St.forall_procs_apply (hok.mono hlater) fun j _ => (h.procs j).mono hlater

/-- The last section of the leader: whoever waits for it began before. -/
theorem CacheInv.apply_store (h : CacheInv ttl s) {v : Value α} (hf : (s.procs i).leads = true)
    (hb : b ≤ v.stored) (hnow : v.stored = s.now) : CacheInv ttl (s.apply i (.store b v)) := by
  have hsince : ∀ b, b ≤ s.now → (s.apply i (.store b v)).storedSince b := fun b hb =>
    ⟨v, rfl, hnow ▸ hb⟩
  have hlater : Later s (s.apply i (.store b v)) := by
    refine ⟨by simp, ?_, Later.launched_apply fun _ => rfl, fun b _ hle _ => Or.inr (hsince b hle)⟩
    rintro b ⟨v', hv', hle⟩
    exact hsince b (le_trans hle (h.value v' hv').2)
  refine ⟨h.flight.apply (a := .store b v) hf, ?_, ?_, ?_⟩
  · rintro v' hv'
    cases hv'
    exact ⟨rfl, le_of_eq hnow⟩
  · intro hv
    cases hv
  · exact St.forall_procs_apply hb fun j _ => (h.procs j).mono hlater

theorem CacheInv.apply (h : CacheInv ttl s) (hm : s.Moves ttl compute i l a) :
    CacheInv ttl (s.apply i a) := by
  have hok := h.moves_ok hm
  have hf := hm.flies
  have hlaunched := hm.launched
  cases a with
  | goto q | think w q => exact h.apply_quiet hf rfl rfl hlaunched (fun hl => Eq.trans hf hl) hok
  | lead q => exact h.apply_quiet hf rfl rfl hlaunched (fun _ => hf.2) hok
  | store b v => exact h.apply_store hf hok.1 hok.2

theorem CacheInv.step (h : CacheInv ttl s) (hs : s.step ttl compute l = some s') : CacheInv ttl s' := by
  obtain ⟨d, -, rfl⟩ | ⟨w, -, rfl⟩ | ⟨i, a, hm, rfl⟩ := St.step_cases hs
  · have hnow : s.now ≤ s.now + (d : Int) := Int.le_add_of_nonneg_right (Int.natCast_nonneg d)
    refine ⟨h.flight, fun v hv => ?_, h.zero, fun i => ?_⟩
    · exact ⟨(h.value v hv).1, le_trans (h.value v hv).2 hnow⟩
    · exact (h.procs i).mono ⟨hnow, fun _ hs => hs, fun _ hl => hl, fun _ _ _ hl => Or.inl hl⟩
  · refine ⟨h.flight, h.value, h.zero, fun i => ?_⟩
    exact (h.procs i).mono ⟨le_refl s.now, fun _ hs => hs, fun _ hl => hl, fun _ _ _ hl => Or.inl hl⟩
  · exact h.apply hm

theorem CacheInv.of_run {G : St ω κ α → Label ω ε → Prop} {now : Instant} {w : ω}
    {ls : List (Label ω ε)} (h : St.Run ttl compute G (.init now w) ls s) : CacheInv ttl s :=
  h.inv (CacheInv.init now w) fun _ _ _ hi hs => hi.step hs.2

/-! ## What `compute` guarantees -/

/-- In runs that meet `G`, `compute` keeps `W` of what it shares and `K` of its own state, and returns only
what meets `A`. -/
structure Guarantees (compute : Compute ω κ α ε) (G : St ω κ α → Label ω ε → Prop) (W : ω → Prop)
    (K : κ → Prop) (A : α → Prop) : Prop where
  start : ∀ ctx, K (compute.start ctx)
  outside : ∀ s w, G s (.outside w) → W w
  step : ∀ s i b k e, G s (.answer i e) → s.procs i = .computing b k → W s.world → K k →
    W (compute.step s.now s.world k e).1 ∧ Sum.elim K A (compute.step s.now s.world k e).2

variable {G : St ω κ α → Label ω ε → Prop} {W : ω → Prop} {K : κ → Prop} {A : α → Prop}

def ResultOk (K : κ → Prop) (A : α → Prop) : Proc κ α → Prop
  | .computing _ k => K k
  | .computed _ v _ => A v
  | .stored _ v => A v.val
  | .returned _ r => ∀ v, r = some v → A v.val
  | _ => True

def ActResultOk (W : ω → Prop) (K : κ → Prop) (A : α → Prop) : Act ω κ α → Prop
  | .goto q | .lead q => ResultOk K A q
  | .think w q => W w ∧ ResultOk K A q
  | .store _ v => A v.val

structure ResultInv (W : ω → Prop) (K : κ → Prop) (A : α → Prop) (s : St ω κ α) : Prop where
  world : W s.world
  value : ∀ v, s.value = some v → A v.val
  procs : ∀ i, ResultOk K A (s.procs i)

theorem ResultInv.next_ok (h : ResultInv W K A s) (hg : Guarantees compute G W K A) (hp : ResultOk K A p)
    (hn : s.next ttl compute p = some a) : ActResultOk W K A a := by
  cases p <;> simp only [St.next] at hn
  case entering b ctx =>
    split at hn
    · cases hn
      exact h.value
    · split at hn
      · cases hn
        trivial
      · cases hn
        exact hg.start ctx
  case waiting b j =>
    split at hn <;> cases hn
    trivial
  case woken b =>
    cases hn
    exact h.value
  case computed b v f =>
    cases hn
    exact hp
  case stored b v =>
    cases hn
    rintro v' hv'
    cases hv'
    exact hp
  all_goals cases hn

theorem ResultInv.moves_ok (h : ResultInv W K A s) (hg : Guarantees compute G W K A) (hl : G s l)
    (hm : s.Moves ttl compute i l a) : ActResultOk W K A a := by
  have hp := h.procs i
  cases hm with
  | call _ => trivial
  | next hn => exact h.next_ok hg hp hn
  | @answer b k e hk =>
    rw [hk] at hp
    have hstep := hg.step s i b k e hl hk h.world hp
    rcases hr : compute.step s.now s.world k e with ⟨w, k' | v⟩
    · rw [hr] at hstep
      rw [St.think_of_inl hr]
      exact hstep
    · rw [hr] at hstep
      rw [St.think_of_inr hr]
      exact hstep

theorem ResultInv.apply (h : ResultInv W K A s) (hok : ActResultOk W K A a) :
    ResultInv W K A (s.apply i a) := by
  have hself : ResultOk K A a.dest := by
    cases a with
    | goto q | lead q => exact hok
    | think w q => exact hok.2
    | store b v => exact hok
  refine ⟨?_, ?_, St.forall_procs_apply hself fun j _ => h.procs j⟩
  · cases a with
    | goto q | lead q | store b v => exact h.world
    | think w q => exact hok.1
  · cases a with
    | goto q | lead q | think w q => exact h.value
    | store b v =>
      rintro v' hv'
      cases hv'
      exact hok

theorem ResultInv.step (h : ResultInv W K A s) (hg : Guarantees compute G W K A) (hl : G s l)
    (hs : s.step ttl compute l = some s') : ResultInv W K A s' := by
  obtain ⟨d, -, rfl⟩ | ⟨w, rfl, rfl⟩ | ⟨i, a, hm, rfl⟩ := St.step_cases hs
  · exact ⟨h.world, h.value, h.procs⟩
  · exact ⟨hg.outside s w hl, h.value, h.procs⟩
  · exact h.apply (h.moves_ok hg hl hm)

/-- What `compute` guarantees holds of everything that `Get` returns. -/
theorem Guarantees.returned (hg : Guarantees compute G W K A) {now : Instant} {w : ω}
    {ls : List (Label ω ε)} (hw : W w) (h : St.Run ttl compute G (.init now w) ls s) {r : Option (Value α)}
    (hp : s.procs i = .returned b r) : ∃ v, r = some v ∧ A v.val := by
  have hinit : ResultInv W K A (.init now w) := ⟨hw, by simp [St.init], fun _ => trivial⟩
  have hres : ResultInv W K A s := h.inv hinit fun _ _ _ hi hs => hi.step hg hs.1 hs.2
  have hresult := hres.procs i
  have hcache := (CacheInv.of_run h).procs i
  rw [hp] at hresult hcache
  obtain ⟨v, rfl, -⟩ := hcache
  exact ⟨v, rfl, hresult v rfl⟩

/-! ## Every call can return -/

/-- There are answers with which `compute` comes to its end. -/
inductive Compute.Returns (compute : Compute ω κ α ε) (now : Instant) : ω → κ → Prop where
  | last {w w' : ω} {k : κ} {e : ε} {v : α} (h : compute.step now w k e = (w', .inr v)) :
    Returns compute now w k
  | more {w w' : ω} {k k' : κ} {e : ε} (h : compute.step now w k e = (w', .inl k'))
    (hr : Returns compute now w' k') : Returns compute now w k

def Compute.Terminates (compute : Compute ω κ α ε) : Prop := ∀ now w k, compute.Returns now w k

/-- Nobody but call `i` has moved. -/
def St.Alone (s : St ω κ α) (i : Nat) (t : St ω κ α) : Prop := ∀ j, j ≠ i → t.procs j = s.procs j

variable (ttl compute) in
/-- Some way to go on leads to the return of call `i`. -/
def St.CanReturn (s : St ω κ α) (i : Nat) : Prop :=
  ∃ ls t b r, St.Run ttl compute anyStep s ls t ∧ t.procs i = .returned b r

variable (ttl compute) in
/-- The same, by steps of call `i` alone. -/
def St.ReturnsAlone (s : St ω κ α) (i : Nat) : Prop :=
  ∃ ls t b r, St.Run ttl compute anyStep s ls t ∧ t.procs i = .returned b r ∧ s.Alone i t

theorem St.CanReturn.of_run {ls : List (Label ω ε)} (h : St.Run ttl compute anyStep s ls t)
    (ht : t.CanReturn ttl compute i) : s.CanReturn ttl compute i := by
  obtain ⟨ls', u, b, r, hrun, hu⟩ := ht
  exact ⟨ls ++ ls', u, b, r, h.trans hrun, hu⟩

theorem St.ReturnsAlone.of_apply (h : s.step ttl compute l = some (s.apply i a))
    (ht : (s.apply i a).ReturnsAlone ttl compute i) : s.ReturnsAlone ttl compute i := by
  obtain ⟨ls, u, b, r, hrun, hu, halone⟩ := ht
  refine ⟨l :: ls, u, b, r, Lts.Run.cons ⟨trivial, h⟩ hrun, hu, fun j hj => ?_⟩
  rw [halone j hj, St.apply_procs_ne s a hj]

theorem St.returnsAlone_of_stored {v : Value α} (h : s.procs i = .stored b v) :
    s.ReturnsAlone ttl compute i := by
  have hstep : s.step ttl compute (.next i) = some (s.apply i (.goto (.returned b (some v)))) := by
    simp [step, h, next]
  refine .of_apply hstep ⟨[], _, b, some v, .refl, ?_, fun _ _ => rfl⟩
  rw [St.apply_procs_self]
  rfl

theorem St.returnsAlone_of_computed {v : α} {f : Instant} (h : s.procs i = .computed b v f) :
    s.ReturnsAlone ttl compute i := by
  have hstep : s.step ttl compute (.next i) = some (s.apply i (.store b ⟨v, f, s.now⟩)) := by
    simp [step, h, next]
  refine .of_apply hstep (St.returnsAlone_of_stored (b := b) (v := ⟨v, f, s.now⟩) ?_)
  rw [St.apply_procs_self]
  rfl

theorem St.returnsAlone_of_computing {w : ω} {k : κ} {n : Instant} (hr : compute.Returns n w k)
    (hnow : s.now = n) (hworld : s.world = w) (h : s.procs i = .computing b k) :
    s.ReturnsAlone ttl compute i := by
  induction hr generalizing s with
  | @last w w' k e v hstep =>
    subst hnow hworld
    have hs : s.step ttl compute (.answer i e) = some (s.apply i (.think w' (.computed b v s.now))) := by
      simp [step, h, think_of_inr hstep]
    refine .of_apply hs (St.returnsAlone_of_computed (b := b) (v := v) (f := s.now) ?_)
    rw [St.apply_procs_self]
    rfl
  | @more w w' k k' e hstep _ ih =>
    subst hnow hworld
    have hs : s.step ttl compute (.answer i e) = some (s.apply i (.think w' (.computing b k'))) := by
      simp [step, h, think_of_inl hstep]
    refine .of_apply hs (ih (by simp) rfl ?_)
    rw [St.apply_procs_self]
    rfl

theorem St.returnsAlone_of_launched (hterm : compute.Terminates) (h : (s.procs i).launched = true) :
    s.ReturnsAlone ttl compute i := by
  cases hp : s.procs i with
  | computing b k => exact St.returnsAlone_of_computing (hterm s.now s.world k) rfl rfl hp
  | computed b v f => exact St.returnsAlone_of_computed hp
  | stored b v => exact St.returnsAlone_of_stored hp
  | returned b r => exact ⟨[], s, b, r, .refl, hp, fun _ _ => rfl⟩
  | _ =>
    rw [hp] at h
    cases h

theorem St.canReturn_of_launched (hterm : compute.Terminates) (h : (s.procs i).launched = true) :
    s.CanReturn ttl compute i := by
  obtain ⟨ls, t, b, r, hrun, ht, -⟩ : s.ReturnsAlone ttl compute i :=
    St.returnsAlone_of_launched hterm h
  exact ⟨ls, t, b, r, hrun, ht⟩

theorem St.canReturn_of_woken (h : s.procs i = .woken b) : s.CanReturn ttl compute i := by
  have hstep : s.step ttl compute (.next i) = some (s.apply i (.goto (.returned b s.value))) := by
    simp [step, h, next]
  refine ⟨[.next i], _, b, s.value, .single ⟨trivial, hstep⟩, ?_⟩
  rw [St.apply_procs_self]
  rfl

/-- The leader returns first, and then the call that waits for it. -/
theorem CacheInv.canReturn_of_waiting (h : CacheInv ttl s) (hterm : compute.Terminates)
    (hp : s.procs i = .waiting b j) : s.CanReturn ttl compute i := by
  have hok := h.procs i
  rw [hp] at hok
  have hlaunched : (s.procs j).launched = true := hok.2.1
  have hne : i ≠ j := by
    rintro rfl
    rw [hp] at hlaunched
    cases hlaunched
  obtain ⟨ls, t, b', r, hrun, ht, halone⟩ : s.ReturnsAlone ttl compute j :=
    St.returnsAlone_of_launched hterm hlaunched
  have hpt : t.procs i = .waiting b j := (halone i hne).trans hp
  have hstep : t.step ttl compute (.next i) = some (t.apply i (.goto (.woken b))) := by
    simp [St.step, hpt, St.next, ht, Proc.done]
  refine .of_run (hrun.tail ⟨trivial, hstep⟩) (St.canReturn_of_woken (b := b) ?_)
  rw [St.apply_procs_self]
  rfl

theorem CacheInv.canReturn_of_entering (h : CacheInv ttl s) (hterm : compute.Terminates) {ctx : Context}
    (hp : s.procs i = .entering b ctx) : s.CanReturn ttl compute i := by
  cases hn : s.next ttl compute (s.procs i) with
  | none =>
    rw [hp] at hn
    simp only [St.next] at hn
    (repeat' split at hn) <;> cases hn
  | some a =>
    have hstep : s.step ttl compute (.next i) = some (s.apply i a) := by simp [St.step, hn]
    have hself : (s.apply i a).procs i = a.dest := St.apply_procs_self s i a
    refine .of_run (.single ⟨trivial, hstep⟩) ?_
    rw [hp] at hn
    simp only [St.next] at hn
    split at hn
    · cases hn
      exact St.canReturn_of_launched hterm (by rw [hself]; rfl)
    · split at hn
      · cases hn
        exact (h.step hstep).canReturn_of_waiting hterm hself
      · cases hn
        exact St.canReturn_of_launched hterm (by rw [hself]; rfl)

/-- No call of `Get` is ever stuck. -/
theorem CacheInv.canReturn (h : CacheInv ttl s) (hterm : compute.Terminates)
    (hp : s.procs i ≠ .idle) : s.CanReturn ttl compute i := by
  cases hpi : s.procs i with
  | idle => exact absurd hpi hp
  | entering b ctx => exact h.canReturn_of_entering hterm hpi
  | waiting b j => exact h.canReturn_of_waiting hterm hpi
  | woken b => exact St.canReturn_of_woken hpi
  | computing b k | computed b v f | stored b v | returned b r =>
    exact St.canReturn_of_launched hterm (by rw [hpi]; rfl)

/-! ## The theorem -/

/-- Every run of calls of `Get` on a cache that was never used: at most one flight is in the air, a result
that a call has returned was stored no earlier than `ttl` before the call began, and every call that has
not returned can still do so. -/
theorem single_flight {now : Instant} {w : ω} {ls : List (Label ω ε)} (hterm : compute.Terminates)
    (h : St.Run ttl compute anyStep (.init now w) ls s) :
    (∀ i j, (s.procs i).leads = true → (s.procs j).leads = true → i = j) ∧
      (∀ i b r, s.procs i = .returned b r → ∃ v, r = some v ∧ b ≤ v.stored + max ttl 0) ∧
      ∀ i, s.procs i ≠ .idle → s.CanReturn ttl compute i := by
  have hinv := CacheInv.of_run h
  refine ⟨fun i j hi hj => hinv.flight.unique hi hj, fun i b r hp => ?_, fun i hp => ?_⟩
  · have hok := hinv.procs i
    rw [hp] at hok
    exact hok
  · exact hinv.canReturn hterm hp

/-- A `compute` that returns at once. -/
def atOnce : Compute Unit Unit Nat Unit where
  start _ := ()
  step _ w _ _ := (w, .inr 0)

/-- The result that a call has returned, with the time at which the call began. -/
def Proc.result : Proc κ α → Option (Instant × Value α)
  | .returned b (some v) => some (b, v)
  | _ => none

theorem Proc.eq_of_result {c : Instant × Value α} (h : p.result = some c) :
    p = .returned c.1 (some c.2) := by
  unfold result at h
  split at h
  · cases h
    rfl
  · cases h

/-- Call 0 computes, is held up for ten seconds and stores; call 1 comes one second later. -/
def heldUpLabels : List (Label Unit Unit) :=
  [.call 0 ⟨none⟩, .next 0, .answer 0 (), .tick 10000000000, .next 0, .next 0, .tick 1000000000,
    .call 1 ⟨none⟩, .next 1]

theorem single_flight_held_up :
    ∃ s b v, St.Run (2 * second) atOnce anyStep (.init 1 ()) heldUpLabels s ∧
      s.procs 1 = .returned b (some v) ∧ b ≤ v.stored + 2 * second := by
  obtain ⟨s, hs, ht⟩ := Lts.Run.of_exec_any (P := fun s => (s.procs 1).result.isSome)
    (by decide +kernel : (Lts.exec (St.step (2 * second) atOnce) (.init 1 ()) heldUpLabels).any _ = true)
  have hrun : St.Run (2 * second) atOnce anyStep (.init 1 ()) heldUpLabels s :=
    hs.mono fun _ _ _ h => ⟨trivial, h⟩
  obtain ⟨c, hc⟩ := Option.isSome_iff_exists.mp ht
  have hp := Proc.eq_of_result hc
  obtain ⟨v, hv, hle⟩ := (single_flight (fun _ _ _ => .last (e := ()) rfl) hrun).2.1 1 c.1 _ hp
  cases hv
  exact ⟨s, c.1, c.2, hrun, hp, hle⟩

/-- What call 1 returns was computed more than `ttl` before it began. -/
theorem computed_before_ttl :
    ∃ s b v, St.Run (2 * second) atOnce anyStep (.init 1 ()) heldUpLabels s ∧
      s.procs 1 = .returned b (some v) ∧ v.finished + 2 * second < b := by
  obtain ⟨s, hs, ht⟩ := Lts.Run.of_exec_any
    (P := fun s => (s.procs 1).result.any fun c => c.2.finished + 2 * second < c.1)
    (by decide +kernel : (Lts.exec (St.step (2 * second) atOnce) (.init 1 ()) heldUpLabels).any _ = true)
  obtain ⟨c, hc, hlt⟩ := (Option.any_eq_true _ _).mp ht
  exact ⟨s, c.1, c.2, hs.mono fun _ _ _ h => ⟨trivial, h⟩, Proc.eq_of_result hc, of_decide_eq_true hlt⟩

end Vizra.HttpApi.ReadinessCache
