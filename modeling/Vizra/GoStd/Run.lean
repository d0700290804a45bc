import Mathlib.Logic.Relation
import Vizra.Report.Basic

/-!
# Calls that may panic

A call returns a value, returns an error or panics. A loop is a step on its state that goes on with a next state or
leaves the loop with a result; it comes with a size that every further round makes smaller, so that a run ends. What
a run ends in is what the step does in the last state that the run reaches.
-/

namespace Go

/-- How a call ends that does not return a value. -/
inductive Fault (ε : Type) where
  | error (e : ε)
  | panic
deriving DecidableEq

abbrev Run (ε α : Type) := Except (Fault ε) α

variable {ε α β : Type}

namespace Run

def fail (e : ε) : Run ε α := .error (.error e)

def crash : Run ε α := .error .panic

def Panics (x : Run ε α) : Prop := x = crash

variable {x y : Run ε α} {f : α → Run ε β} {p : Prop} [Decidable p] {e : ε} {a : α}

theorem not_panics_ok (a : α) : ¬ Panics (.ok a : Run ε α) := nofun

theorem not_panics_pure (a : α) : ¬ Panics (pure a : Run ε α) := nofun

theorem not_panics_fail (e : ε) : ¬ Panics (fail e : Run ε α) := nofun

theorem panics_crash : Panics (crash : Run ε α) := rfl

theorem panics_bind : Panics (x >>= f) ↔ Panics x ∨ ∃ a, x = .ok a ∧ Panics (f a) := by
  cases x with
  | error e =>
    constructor
    · intro h
      exact .inl (congrArg _ (Except.error.inj h))
    · rintro (h | ⟨a, ha, -⟩)
      · exact congrArg _ (Except.error.inj h)
      · cases ha
  | ok a =>
    constructor
    · intro h
      exact .inr ⟨a, rfl, h⟩
    · rintro (h | ⟨a', ha, h⟩)
      · cases h
      · rw [← Except.ok.inj ha] at h
        exact h

theorem not_panics_bind (hx : ¬ Panics x) (hf : ∀ a, x = .ok a → ¬ Panics (f a)) : ¬ Panics (x >>= f) := by
  rw [panics_bind]
  rintro (h | ⟨a, ha, h⟩)
  · exact hx h
  · exact hf a ha h

theorem panics_bind_of_not (hx : ¬ Panics x) : Panics (x >>= f) ↔ ∃ a, x = .ok a ∧ Panics (f a) := by
  rw [panics_bind]
  exact or_iff_right hx

theorem panics_bind_pure {g : α → β} : Panics (x >>= fun a => pure (g a)) ↔ Panics x := by
  rw [panics_bind]
  exact or_iff_left fun ⟨a, _, h⟩ => not_panics_pure _ h

theorem panics_ite : Panics (if p then x else y) ↔ (p ∧ Panics x) ∨ (¬ p ∧ Panics y) := by
  by_cases h : p
  · simp only [h, if_true, true_and, not_true, false_and, or_false]
  · simp only [h, if_false, false_and, not_false_eq_true, true_and, false_or]

theorem not_panics_ite (hx : p → ¬ Panics x) (hy : ¬ p → ¬ Panics y) : ¬ Panics (if p then x else y) := by
  rw [panics_ite]
  rintro (⟨h, hpanic⟩ | ⟨h, hpanic⟩)
  · exact hx h hpanic
  · exact hy h hpanic

/-- A check that returns an error does not panic: what panics is what follows it. -/
theorem panics_check : Panics (if p then fail e else y) ↔ ¬ p ∧ Panics y := by
  rw [panics_ite]
  exact or_iff_right fun h => not_panics_fail e h.2

theorem not_panics_check (hy : ¬ p → ¬ Panics y) : ¬ Panics (if p then fail e else y) :=
  not_panics_ite (fun _ => not_panics_fail e) hy

theorem panics_check_bind : Panics ((if p then fail e else x) >>= f) ↔ ¬ p ∧ Panics (x >>= f) := by
  by_cases h : p
  · rw [if_pos h]
    exact ⟨nofun, fun hnot => absurd h hnot.1⟩
  · rw [if_neg h]
    exact ⟨fun hpanic => ⟨h, hpanic⟩, And.right⟩

theorem check_eq_ok : (if p then fail e else x) = .ok a ↔ ¬ p ∧ x = .ok a := by
  by_cases h : p
  · rw [if_pos h]
    exact ⟨nofun, fun hnot => absurd h hnot.1⟩
  · rw [if_neg h]
    exact ⟨fun hx => ⟨h, hx⟩, And.right⟩

/-- A call that has no errors returns where it does not panic. -/
theorem exists_ok_of_not_panics {x : Run Empty α} (h : ¬ Panics x) : ∃ a, x = .ok a := by
  match x with
  | .ok a => exact ⟨a, rfl⟩
  | .error .panic => exact absurd panics_crash h

/-- The result or the error of a part that cannot panic. -/
def lift (x : Except ε α) : Run ε α := x.mapError .error

theorem not_panics_lift (x : Except ε α) : ¬ Panics (lift x) := by
  cases x with
  | error e => nofun
  | ok a => nofun

/-- A call whose error is passed on as `f` says. -/
def wrap (f : ε → ε) : Run ε α → Run ε α
  | .ok a => .ok a
  | .error (.error e) => fail (f e)
  | .error .panic => crash

theorem panics_wrap {f : ε → ε} : Panics (wrap f x) ↔ Panics x := by
  match x with
  | .ok a => exact ⟨nofun, nofun⟩
  | .error (.error e) => exact ⟨nofun, nofun⟩
  | .error .panic => exact ⟨fun _ => rfl, fun _ => rfl⟩

theorem wrap_eq_ok {f : ε → ε} : wrap f x = .ok a ↔ x = .ok a := by
  match x with
  | .ok b => exact Iff.rfl
  | .error (.error e) => exact ⟨nofun, nofun⟩
  | .error .panic => exact ⟨nofun, nofun⟩

end Run

/-! ## Loops -/

structure Loop (ε σ α : Type) where
  step : σ → Run ε (σ ⊕ α)
  size : σ → Nat
  decreases {s t : σ} : step s = .ok (.inl t) → size t < size s

namespace Loop

open Relation Run

variable {σ : Type}

def run (l : Loop ε σ α) (s : σ) : Run ε α :=
  match h : l.step s with
  | .ok (.inl t) => run l t
  | .ok (.inr a) => .ok a
  | .error e => .error e
termination_by l.size s
decreasing_by exact l.decreases h

/-- The run from `s` comes to `t`. -/
def Goes (l : Loop ε σ α) : σ → σ → Prop := ReflTransGen fun s t => l.step s = .ok (.inl t)

variable {l : Loop ε σ α} {s t : σ} {a : α}

theorem run_of_next (h : l.step s = .ok (.inl t)) : l.run s = l.run t := by
  rw [run]
  split
  · next t' ht => rw [h] at ht; cases ht; rfl
  · next a ha => rw [h] at ha; cases ha
  · next e he => rw [h] at he; cases he

theorem run_of_done (h : l.step s = .ok (.inr a)) : l.run s = .ok a := by
  rw [run]
  split
  · next t ht => rw [h] at ht; cases ht
  · next a' ha => rw [h] at ha; cases ha; rfl
  · next e he => rw [h] at he; cases he

theorem run_of_fault {e : Fault ε} (h : l.step s = .error e) : l.run s = .error e := by
  rw [run]
  split
  · next t ht => rw [h] at ht; cases ht
  · next a ha => rw [h] at ha; cases ha
  · next e' he => rw [h] at he; cases he; rfl

theorem run_of_goes (h : l.Goes s t) : l.run s = l.run t := by
  induction h with
  | refl => rfl
  | tail _ h ih => rw [ih, run_of_next h]

/-- Induction along a run. -/
theorem induction (l : Loop ε σ α) {P : σ → Prop} (h : ∀ s, (∀ t, l.step s = .ok (.inl t) → P t) → P s) (s : σ) :
    P s :=
  (measure l.size).wf.induction s fun s ih => h s fun t ht => ih t (l.decreases ht)

theorem exists_last (l : Loop ε σ α) (s : σ) : ∃ t, l.Goes s t ∧ l.step t = Sum.inr <$> l.run s := by
  induction s using l.induction with
  | _ s ih =>
    cases h : l.step s with
    | error e => exact ⟨s, .refl, by rw [h, run_of_fault h]; rfl⟩
    | ok r =>
      cases r with
      | inr a => exact ⟨s, .refl, by rw [h, run_of_done h]; rfl⟩
      | inl t =>
        obtain ⟨u, hu, hlast⟩ := ih t h
        exact ⟨u, .head h hu, by rw [hlast, run_of_next h]⟩

theorem run_eq_ok_iff : l.run s = .ok a ↔ ∃ t, l.Goes s t ∧ l.step t = .ok (.inr a) := by
  constructor
  · intro h
    obtain ⟨t, ht, hlast⟩ := l.exists_last s
    rw [h] at hlast
    exact ⟨t, ht, hlast⟩
  · rintro ⟨t, ht, hlast⟩
    rw [run_of_goes ht, run_of_done hlast]

theorem panics_run_iff : Panics (l.run s) ↔ ∃ t, l.Goes s t ∧ Panics (l.step t) := by
  constructor
  · intro h
    obtain ⟨t, ht, hlast⟩ := l.exists_last s
    rw [show l.run s = crash from h] at hlast
    exact ⟨t, ht, hlast⟩
  · rintro ⟨t, ht, hlast⟩
    rw [run_of_goes ht]
    exact run_of_fault hlast

theorem Goes.invariant {P : σ → Prop} (h : l.Goes s t) (hs : P s)
    (hstep : ∀ u v, P u → l.step u = .ok (.inl v) → P v) : P t := by
  induction h with
  | refl => exact hs
  | tail _ h ih => exact hstep _ _ ih h

end Loop

/-! ## Walks

A walk visits an offset, keeps the record that it finds there and goes on behind it.
-/

section Walks

open Run

variable {ρ : Type} {visit : Nat → Run ε (Option (Nat × ρ))}

/-- The records that a walk finds from an offset on, until it stops. -/
inductive Visits (visit : Nat → Run ε (Option (Nat × ρ))) : Nat → List ρ → Prop where
  | stop {i : Nat} (h : visit i = .ok none) : Visits visit i []
  | item {i j : Nat} {r : ρ} {rs : List ρ} (h : visit i = .ok (some (j, r))) (hrest : Visits visit j rs) :
      Visits visit i (r :: rs)

/-- The round of a loop that keeps what it visits. -/
def collect (visit : Nat → Run ε (Option (Nat × ρ))) (s : Nat × List ρ) : Run ε ((Nat × List ρ) ⊕ List ρ) :=
  match visit s.1 with
  | .ok none => .ok (.inr s.2)
  | .ok (some (j, r)) => .ok (.inl (j, s.2 ++ [r]))
  | .error e => .error e

variable {l : Loop ε (Nat × List ρ) (List ρ)} (hl : ∀ s, l.step s = collect visit s) {s : Nat × List ρ}

include hl

theorem run_of_visits {rs : List ρ} (h : Visits visit s.1 rs) : l.run s = .ok (s.2 ++ rs) := by
  obtain ⟨i, out⟩ := s
  dsimp only at h
  induction h generalizing out with
  | stop h =>
    rw [Loop.run_of_done (by rw [hl, collect, h]), List.append_nil]
  | @item i j r rs h _ ih =>
    have hnext : l.step (i, out) = .ok (.inl (j, out ++ [r])) := by rw [hl, collect, h]
    rw [Loop.run_of_next hnext, ih, List.append_assoc, List.singleton_append]

theorem visits_of_run {out : List ρ} (h : l.run s = .ok out) : ∃ rs, out = s.2 ++ rs ∧ Visits visit s.1 rs := by
  induction s using l.induction with
  | _ s ih =>
    have hstep := hl s
    rw [collect] at hstep
    match hvisit : visit s.1 with
    | .error e =>
      rw [hvisit] at hstep
      rw [Loop.run_of_fault hstep] at h
      cases h
    | .ok none =>
      rw [hvisit] at hstep
      rw [Loop.run_of_done hstep] at h
      exact ⟨[], by rw [← Except.ok.inj h, List.append_nil], .stop hvisit⟩
    | .ok (some (j, r)) =>
      rw [hvisit] at hstep
      rw [Loop.run_of_next hstep] at h
      obtain ⟨rs, rfl, hrs⟩ := ih _ hstep h
      exact ⟨r :: rs, by rw [List.append_assoc, List.singleton_append], .item hvisit hrs⟩

/-- A walk from nothing returns what it visits. -/
theorem run_eq_ok_iff_visits {i : Nat} {out : List ρ} : l.run (i, []) = .ok out ↔ Visits visit i out := by
  constructor
  · intro h
    obtain ⟨rs, rfl, hrs⟩ := visits_of_run hl h
    exact hrs
  · intro h
    exact run_of_visits (s := (i, [])) hl h

theorem not_panics_walk (h : ∀ i, ¬ Panics (visit i)) : ¬ Panics (l.run s) := by
  rw [Loop.panics_run_iff]
  rintro ⟨t, -, hpanic⟩
  rw [hl, collect] at hpanic
  match hvisit : visit t.1, hpanic with
  | .error .panic, _ => exact h t.1 hvisit

end Walks

/-! ## Counted loops -/

section Counted

open Run

variable {σ : Type}

/-- `for i := lo; i < hi; i++`. -/
def forRange (lo hi : Nat) (body : σ → Nat → Run ε σ) (s : σ) : Run ε σ := (List.range' lo (hi - lo)).foldlM body s

/-- A round that keeps the invariant, and moves it on by one, makes the loop end with it. -/
theorem forRange_rule {I : Nat → σ → Prop} {lo hi : Nat} {body : σ → Nat → Run ε σ} {s : σ} (hle : lo ≤ hi)
    (hs : I lo s) (hround : ∀ i s, lo ≤ i → i < hi → I i s → ∃ t, body s i = .ok t ∧ I (i + 1) t) :
    ∃ t, forRange lo hi body s = .ok t ∧ I hi t := by
  obtain ⟨n, rfl⟩ := Nat.exists_eq_add_of_le hle
  rw [forRange, Nat.add_sub_cancel_left]
  clear hle
  induction n generalizing lo s with
  | zero => exact ⟨s, rfl, hs⟩
  | succ n ih =>
    obtain ⟨t, ht, hI⟩ := hround lo s (Nat.le_refl lo) (by omega) hs
    obtain ⟨u, hu, hJ⟩ := @ih (lo + 1) t hI fun i s hlo hhi => hround i s (by omega) (by omega)
    refine ⟨u, ?_, by rwa [Nat.add_assoc, Nat.add_comm 1 n] at hJ⟩
    rw [List.range'_succ, List.foldlM_cons, ht]
    exact hu

theorem forRange_snoc {lo hi : Nat} {body : σ → Nat → Run ε σ} {s : σ} (h : lo ≤ hi) :
    forRange lo (hi + 1) body s = forRange lo hi body s >>= fun t => body t hi := by
  rw [forRange, show hi + 1 - lo = hi - lo + 1 by omega, List.range'_concat, List.foldlM_append]
  have hlast : lo + 1 * (hi - lo) = hi := by omega
  simp only [List.foldlM_cons, List.foldlM_nil, bind_pure, hlast]
  rfl

end Counted

end Go
