import Vizra.Lts.Basic
import Mathlib.Algebra.Order.Group.Int
import Mathlib.Data.List.Basic
import Mathlib.Logic.Function.Basic
import Mathlib.Tactic.Linarith

/-!
# Fixed-window counters

A table holds a counter with an expiry for every key. A call at `now` counts into the window of its key if
that is still open (`now` is not past its expiry) and opens a new one otherwise; it is granted while the
count is within the limit of the call.

What a table holds of closed windows is never read, so tables are compared by what is open (`Agree`). An
implementation that keeps other closed windows refines the table step by step, and answers every sequence of
calls at nondecreasing times as the table does (`Refines.replay_eq`). However calls on other keys and with
other limits are interleaved, and however the windows of a key lie against it, an interval of `n` window
lengths sees at most `n + 1` times the limit granted (`granted_le`).
-/

namespace FixedWindow

structure Window where
  count : Nat
  expires : Int
deriving DecidableEq, Repr

structure Call (κ : Type) where
  key : κ
  limit : Int
  window : Int
  now : Int
deriving DecidableEq, Repr

abbrev Table (κ : Type) : Type := κ → Option Window

/-- The window, if it is open at `t`. -/
def live (t : Int) : Option Window → Option Window
  | some w => if t ≤ w.expires then some w else none
  | none => none

/-- The window after a call. -/
def hit (t window : Int) (w : Option Window) : Window :=
  match live t w with
  | some w => { w with count := w.count + 1 }
  | none => { count := 1, expires := t + window }

/-- Whether a call is granted, and how many remain. -/
def answer (limit : Int) (count : Nat) : Bool × Int :=
  if limit < count then (false, 0) else (true, limit - count)

theorem live_eq_some {t : Int} {w : Option Window} {v : Window} :
    live t w = some v ↔ w = some v ∧ t ≤ v.expires := by
  cases w with
  | none => simp [live]
  | some w =>
    by_cases hw : t ≤ w.expires
    · simp only [live, hw, if_true, Option.some.injEq]
      constructor
      · rintro rfl
        exact ⟨rfl, hw⟩
      · rintro ⟨rfl, -⟩
        rfl
    · simp only [live, hw, if_false, Option.some.injEq, reduceCtorEq, false_iff, not_and]
      rintro rfl
      exact hw

theorem hit_open {t window : Int} (w : Option Window) (hpos : 0 < window) :
    t ≤ (hit t window w).expires ∧ 1 ≤ (hit t window w).count := by
  unfold hit
  split
  · rename_i w' hw
    exact ⟨(live_eq_some.mp hw).2, Nat.le_add_left ..⟩
  · exact ⟨by simp only; omega, Nat.le_refl _⟩

variable {κ : Type} [DecidableEq κ]
variable {t : Int} {a : Table κ} {c : Call κ} {cs : List (Call κ)}

def Table.step (a : Table κ) (c : Call κ) : Table κ × (Bool × Int) :=
  let w := hit c.now c.window (a c.key)
  (Function.update a c.key (some w), answer c.limit w.count)

/-! ## Open windows -/

theorem live_live {t' : Int} (h : t ≤ t') (w : Option Window) : live t' (live t w) = live t' w := by
  cases w with
  | none => rfl
  | some v =>
    by_cases hv : t ≤ v.expires
    · simp [live, hv]
    · have hv' : ¬ t' ≤ v.expires := by omega
      simp [live, hv, hv']

/-- Both hold the same open windows at `t`. -/
def Agree (t : Int) (a b : Table κ) : Prop := ∀ k, live t (a k) = live t (b k)

omit [DecidableEq κ] in
theorem Agree.mono {t' : Int} {b : Table κ} (h : Agree t a b) (ht : t ≤ t') : Agree t' a b := by
  intro k
  rw [← live_live ht (a k), h k, live_live ht]

theorem Agree.step {b : Table κ} (h : Agree c.now a b) :
    (a.step c).2 = (b.step c).2 ∧ Agree c.now (a.step c).1 (b.step c).1 := by
  have hhit : hit c.now c.window (a c.key) = hit c.now c.window (b c.key) := by
    unfold hit
    rw [h c.key]
  constructor
  · simp only [Table.step, hhit]
  · intro k
    simp only [Table.step, hhit]
    by_cases hk : k = c.key
    · subst hk
      simp
    · simp only [Function.update_of_ne hk]
      exact h k

/-! ## Refinement -/

section

variable {σ : Type}

/-- From a state that meets `I`, every call that meets `P` is answered as the table would, and leaves the
same windows open. -/
structure Refines (impl : σ → Call κ → σ × (Bool × Int)) (view : σ → Table κ) (I : σ → Prop)
    (P : Call κ → Prop) : Prop where
  keep : ∀ s c, I s → P c → I (impl s c).1
  reply : ∀ s c, I s → P c → (impl s c).2 = ((view s).step c).2
  agree : ∀ s c, I s → P c → Agree c.now (view (impl s c).1) ((view s).step c).1

theorem Refines.replay_eq {impl : σ → Call κ → σ × (Bool × Int)} {view : σ → Table κ} {I : σ → Prop}
    {P : Call κ → Prop} (h : Refines impl view I P) :
    ∀ {cs : List (Call κ)} {s : σ} {a : Table κ} {t : Int}, I s → Agree t (view s) a →
      (∀ c ∈ cs, P c ∧ t ≤ c.now) → cs.Pairwise (fun c d => c.now ≤ d.now) →
      (Lts.replay impl s cs).2 = (Lts.replay Table.step a cs).2 := by
  intro cs
  induction cs with
  | nil =>
    intro s a t _ _ _ _
    rfl
  | cons c cs ih =>
    intro s a t hI hag hcs hsorted
    obtain ⟨hP, hnow⟩ := hcs c List.mem_cons_self
    obtain ⟨hle, hsorted⟩ := List.pairwise_cons.mp hsorted
    have hag' := (hag.mono hnow).step
    have hnext : Agree c.now (view (impl s c).1) (a.step c).1 := by
      intro k
      rw [h.agree s c hI hP k, hag'.2 k]
    have hrest := ih (h.keep s c hI hP) hnext
      (fun d hd => ⟨(hcs d (List.mem_cons_of_mem _ hd)).1, hle d hd⟩) hsorted
    simp only [Lts.replay, hrest, h.reply s c hI hP, hag'.1]

/-- From a state without windows the clock may start anywhere. -/
theorem Refines.replay_eq_of_empty {impl : σ → Call κ → σ × (Bool × Int)} {view : σ → Table κ} {I : σ → Prop}
    {P : Call κ → Prop} (h : Refines impl view I P) {s : σ} (hI : I s) (hempty : view s = fun _ => none)
    (hP : ∀ c ∈ cs, P c) (hsorted : cs.Pairwise (fun c d => c.now ≤ d.now)) :
    (Lts.replay impl s cs).2 = (Lts.replay Table.step (fun _ => none) cs).2 := by
  cases cs with
  | nil => rfl
  | cons c cs =>
    have hag : Agree c.now (view s) (fun _ => none) := by
      intro k
      rw [hempty]
    refine h.replay_eq hI hag ?_ hsorted
    intro d hd
    refine ⟨hP d hd, ?_⟩
    rcases List.mem_cons.mp hd with rfl | hd
    · exact Int.le_refl _
    · exact (List.pairwise_cons.mp hsorted).1 d hd

end

/-! ## Counting what is granted -/

/-- A call on the key with the limit was granted. -/
def grants (key : κ) (limit : Nat) (e : Call κ × (Bool × Int)) : Bool :=
  e.1.key = key && e.1.limit = limit && e.2.1

def within (lo hi t : Int) : Bool := lo ≤ t && t ≤ hi

/-- The times at which calls on the key with the limit were granted. -/
def grantTimes (key : κ) (limit : Nat) (es : List (Call κ × (Bool × Int))) : List Int :=
  (es.filter (grants key limit)).map fun e => e.1.now

/-- A call on the key with the limit was granted between `lo` and `hi`. -/
def granted (key : κ) (limit : Nat) (lo hi : Int) (e : Call κ × (Bool × Int)) : Bool :=
  within lo hi e.1.now && grants key limit e

theorem countP_grantTimes (key : κ) (limit : Nat) (lo hi : Int) (es : List (Call κ × (Bool × Int))) :
    (grantTimes key limit es).countP (within lo hi) = es.countP (granted key limit lo hi) := by
  rw [grantTimes, List.countP_map, List.countP_filter]
  rfl

theorem exists_of_mem_grantTimes {key : κ} {limit : Nat} (h : t ∈ grantTimes key limit (Lts.replay Table.step a cs).2) :
    ∃ c ∈ cs, c.now = t := by
  obtain ⟨e, he, rfl⟩ := List.mem_map.mp h
  have hmem : e.1 ∈ (Lts.replay Table.step a cs).2.map Prod.fst :=
    List.mem_map.mpr ⟨e, (List.mem_filter.mp he).1, rfl⟩
  rw [Lts.map_fst_replay] at hmem
  exact ⟨e.1, hmem, rfl⟩

theorem grantTimes_append (key : κ) (limit : Nat) (es es' : List (Call κ × (Bool × Int))) :
    grantTimes key limit (es ++ es') = grantTimes key limit es ++ grantTimes key limit es' := by
  simp [grantTimes]

variable {key : κ} {limit : Nat} {window lo hi : Int}

theorem granted_iff {e : Call κ × (Bool × Int)} : granted key limit lo hi e = true ↔
    (lo ≤ e.1.now ∧ e.1.now ≤ hi) ∧ grants key limit e = true := by
  simp [granted, within]

/-- A call that is granted leaves a count within the limit. -/
theorem count_le_of_grants (h : grants key limit (c, (a.step c).2) = true) :
    c.key = key ∧ (hit c.now c.window (a c.key)).count ≤ limit := by
  simp only [grants, Bool.and_eq_true, decide_eq_true_iff] at h
  obtain ⟨⟨hkey, hlimit⟩, hok⟩ := h
  refine ⟨hkey, ?_⟩
  simp only [Table.step, answer] at hok
  split at hok
  · cases hok
  · omega

theorem countP_eq_zero_of_lt (h : ∀ c ∈ cs, hi < c.now) :
    (Lts.replay Table.step a cs).2.countP (granted key limit lo hi) = 0 := by
  induction cs generalizing a with
  | nil => rfl
  | cons c cs ih =>
    have hc := h c List.mem_cons_self
    have hno : granted key limit lo hi (c, (a.step c).2) = false := by
      simp [granted, within, Int.not_le.mpr hc]
    simp only [Lts.replay, List.countP_cons, hno]
    exact ih fun d hd => h d (List.mem_cons_of_mem _ hd)

theorem step_self (a : Table κ) (c : Call κ) :
    (a.step c).1 c.key = some (hit c.now c.window (a c.key)) := Function.update_self ..

theorem step_of_ne (a : Table κ) (h : key ≠ c.key) : (a.step c).1 key = a key :=
  Function.update_of_ne h ..

theorem not_granted_of_ne (h : key ≠ c.key) (r : Bool × Int) : granted key limit lo hi (c, r) = false := by
  simp [granted, grants, h.symm]

theorem countP_replay_cons (a : Table κ) (c : Call κ) (cs : List (Call κ)) :
    (Lts.replay Table.step a (c :: cs)).2.countP (granted key limit lo hi) =
      (Lts.replay Table.step (a.step c).1 cs).2.countP (granted key limit lo hi) +
        if granted key limit lo hi (c, (a.step c).2) = true then 1 else 0 := by
  simp only [Lts.replay, List.countP_cons]

theorem countP_replay_of_ne (h : key ≠ c.key) (cs : List (Call κ)) :
    (Lts.replay Table.step a (c :: cs)).2.countP (granted key limit lo hi) =
      (Lts.replay Table.step (a.step c).1 cs).2.countP (granted key limit lo hi) := by
  rw [countP_replay_cons, not_granted_of_ne h]
  simp

/-- A call uses up one of what its window grants, or is not granted. -/
theorem countP_replay_le {m : Nat} (hone : 1 ≤ (hit c.now c.window (a c.key)).count)
    (hrest : (Lts.replay Table.step (a.step c).1 cs).2.countP (granted c.key limit lo hi) ≤
      (limit - (hit c.now c.window (a c.key)).count) + m) :
    (Lts.replay Table.step a (c :: cs)).2.countP (granted c.key limit lo hi) ≤
      (limit - ((hit c.now c.window (a c.key)).count - 1)) + m := by
  rw [countP_replay_cons]
  split
  · rename_i hg
    have hcount := (count_le_of_grants (granted_iff.mp hg).2).2
    omega
  · omega

/-- What the window of a key still grants until `hi`, which is at most `k` window lengths past its end. -/
theorem granted_le_of_open {w : Window} {k : Nat} (hwin : ∀ c ∈ cs, c.key = key → c.window = window)
    (hpos : 0 < window) (hlo : ∀ c ∈ cs, t ≤ c.now) (hsorted : cs.Pairwise (fun c d => c.now ≤ d.now))
    (hw : a key = some w) (ht : t ≤ w.expires) (hhi : hi ≤ w.expires + k * window) :
    (Lts.replay Table.step a cs).2.countP (granted key limit lo hi) ≤ (limit - w.count) + k * limit := by
  induction cs generalizing a t w k with
  | nil => exact Nat.zero_le _
  | cons c cs ih =>
    obtain ⟨hle, hsorted⟩ := List.pairwise_cons.mp hsorted
    have hwin' : ∀ d ∈ cs, d.key = key → d.window = window := fun d hd => hwin d (List.mem_cons_of_mem _ hd)
    have hlo' : ∀ d ∈ cs, t ≤ d.now := fun d hd => hlo d (List.mem_cons_of_mem _ hd)
    by_cases hkey : key = c.key
    · subst hkey
      have hself := step_self a c
      by_cases hopen : c.now ≤ w.expires
      · -- the call counts into the open window
        have hhit : hit c.now c.window (a c.key) = { w with count := w.count + 1 } := by
          simp [hit, hw, live, hopen]
        have hrest : (Lts.replay Table.step (a.step c).1 cs).2.countP (granted c.key limit lo hi) ≤
            (limit - (hit c.now c.window (a c.key)).count) + k * limit :=
          ih hwin' hlo' hsorted hself (by rw [hhit]; exact ht) (by rw [hhit]; exact hhi)
        have hall := countP_replay_le (by rw [hhit]; exact Nat.le_add_left 1 w.count) hrest
        rw [hhit] at hall
        exact hall
      · by_cases hlast : c.now ≤ hi
        · -- a new window: one of the `k` lengths is used up
          have hhit : hit c.now c.window (a c.key) = { count := 1, expires := c.now + window } := by
            simp [hit, hw, live, hopen, hwin c List.mem_cons_self rfl]
          obtain ⟨k, rfl⟩ : ∃ k', k = k' + 1 := by
            cases k with
            | zero =>
              simp only [Nat.cast_zero, Int.zero_mul] at hhi
              omega
            | succ k => exact ⟨k, rfl⟩
          have hhi' : hi ≤ c.now + window + k * window := by
            push_cast at hhi
            linarith
          have hrest : (Lts.replay Table.step (a.step c).1 cs).2.countP (granted c.key limit lo hi) ≤
              (limit - (hit c.now c.window (a c.key)).count) + k * limit :=
            ih hwin' hle hsorted hself (by rw [hhit]; simp only; omega) (by rw [hhit]; exact hhi')
          have hall := countP_replay_le (by rw [hhit]) hrest
          have hmul : (k + 1) * limit = k * limit + limit := Nat.succ_mul k limit
          rw [hhit] at hall
          simp only at hall
          omega
        · have hlate : ∀ d ∈ c :: cs, hi < d.now := by
            intro d hd
            rcases List.mem_cons.mp hd with rfl | hd
            · omega
            · have := hle d hd
              omega
          rw [countP_eq_zero_of_lt hlate]
          exact Nat.zero_le _
    · rw [countP_replay_of_ne hkey]
      exact ih hwin' hlo' hsorted ((step_of_ne a hkey).trans hw) ht hhi

/-- An interval of `n` window lengths sees at most `n + 1` times the limit granted. -/
theorem granted_le {n : Nat} (hwin : ∀ c ∈ cs, c.key = key → c.window = window) (hpos : 0 < window)
    (hsorted : cs.Pairwise (fun c d => c.now ≤ d.now)) :
    (Lts.replay Table.step a cs).2.countP (granted key limit lo (lo + n * window)) ≤ (n + 1) * limit := by
  induction cs generalizing a with
  | nil => exact Nat.zero_le _
  | cons c cs ih =>
    obtain ⟨hle, hsorted⟩ := List.pairwise_cons.mp hsorted
    have hwin' : ∀ d ∈ cs, d.key = key → d.window = window := fun d hd => hwin d (List.mem_cons_of_mem _ hd)
    cases hg : granted key limit lo (lo + n * window) (c, (a.step c).2) with
    | false =>
      rw [countP_replay_cons, hg]
      simpa using ih hwin' hsorted
    | true =>
      -- the first call that is granted leaves its window open
      obtain ⟨⟨hnow, -⟩, hgrant⟩ := granted_iff.mp hg
      have hlo : lo ≤ c.now := hnow
      obtain ⟨rfl, -⟩ := count_le_of_grants hgrant
      have hwindow := hwin c List.mem_cons_self rfl
      obtain ⟨hopen, hone⟩ := hit_open (t := c.now) (a c.key) (hwindow ▸ hpos)
      have hrest : (Lts.replay Table.step (a.step c).1 cs).2.countP
            (granted c.key limit lo (lo + n * window)) ≤
          (limit - (hit c.now c.window (a c.key)).count) + n * limit :=
        granted_le_of_open hwin' hpos hle hsorted (step_self a c) hopen (by omega)
      have hall := countP_replay_le hone hrest
      have hmul : (n + 1) * limit = n * limit + limit := Nat.succ_mul n limit
      omega

theorem countP_grantTimes_le (lo : Int) (n : Nat) (hwin : ∀ c ∈ cs, c.key = key → c.window = window)
    (hpos : 0 < window) (hsorted : cs.Pairwise (fun c d => c.now ≤ d.now)) :
    (grantTimes key limit (Lts.replay Table.step a cs).2).countP (within lo (lo + n * window)) ≤
      (n + 1) * limit := by
  rw [countP_grantTimes]
  exact granted_le hwin hpos hsorted

/-- A limit of one is granted by the call that opens a window only, so that grants are more than a window
length apart. -/
theorem pairwise_grantTimes (hcount : ∀ w, a key = some w → 1 ≤ w.count)
    (hwin : ∀ c ∈ cs, c.key = key → c.window = window) (hpos : 0 < window)
    (hsorted : cs.Pairwise (fun c d => c.now ≤ d.now)) :
    (grantTimes key 1 (Lts.replay Table.step a cs).2).Pairwise (fun t t' => t + window < t') := by
  induction cs generalizing a with
  | nil => exact List.Pairwise.nil
  | cons c cs ih =>
    obtain ⟨hle, hsorted⟩ := List.pairwise_cons.mp hsorted
    have hwin' : ∀ d ∈ cs, d.key = key → d.window = window := fun d hd => hwin d (List.mem_cons_of_mem _ hd)
    have hcount' : ∀ w, (a.step c).1 key = some w → 1 ≤ w.count := by
      intro w hw
      by_cases hkey : key = c.key
      · subst hkey
        rw [step_self] at hw
        cases hw
        exact (hit_open _ (hwin c List.mem_cons_self rfl ▸ hpos)).2
      · rw [step_of_ne a hkey] at hw
        exact hcount w hw
    have hrest := ih hcount' hwin' hsorted
    cases hg : grants key 1 (c, (a.step c).2) with
    | false => simpa [grantTimes, Lts.replay, hg] using hrest
    | true =>
      obtain ⟨rfl, hone⟩ := count_le_of_grants hg
      have hnew : hit c.now c.window (a c.key) = { count := 1, expires := c.now + window } := by
        unfold hit at hone ⊢
        split at hone
        · rename_i w hw
          have := hcount w (live_eq_some.mp hw).1
          simp only at hone
          omega
        · rw [hwin c List.mem_cons_self rfl]
      have hself := step_self a c
      rw [hnew] at hself
      have hnone : (grantTimes c.key 1 (Lts.replay Table.step (a.step c).1 cs).2).countP
          (within c.now (c.now + window)) = 0 := by
        rw [countP_grantTimes]
        have hzero : (Lts.replay Table.step (a.step c).1 cs).2.countP
              (granted c.key 1 c.now (c.now + window)) ≤ (1 - 1) + 0 * 1 :=
          granted_le_of_open hwin' hpos hle hsorted hself (by simp only; omega) (by simp)
        omega
      have hcons : grantTimes c.key 1 (Lts.replay Table.step a (c :: cs)).2 =
          c.now :: grantTimes c.key 1 (Lts.replay Table.step (a.step c).1 cs).2 := by
        simp [grantTimes, Lts.replay, hg]
      rw [hcons, List.pairwise_cons]
      refine ⟨?_, hrest⟩
      intro t ht
      have hout := List.countP_eq_zero.mp hnone t ht
      obtain ⟨d, hd, rfl⟩ := exists_of_mem_grantTimes ht
      have := hle d hd
      simp only [within, Bool.and_eq_true, decide_eq_true_iff] at hout
      omega

end FixedWindow
