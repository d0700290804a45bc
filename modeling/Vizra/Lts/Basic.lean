import Mathlib.Data.List.Basic

/-!
# Labelled transition systems

A system is a transition relation `T : σ → ε → σ → Prop` over states `σ` and events `ε`. All
nondeterminism of an executable system (scheduling, clock, inputs) is put into the event, so that a
step function gives its relation through `graph` (partial step) or `mealy` (total step with a
reply, where the event is the pair of the request and the reply).

`Run T s es t` is a finite run; its events are listed in the order in which they happened. The rules
below are the ones a safety proof needs: an invariant of the last state, an invariant that also reads
the events so far, and the point at which a property of states becomes true.
-/

namespace Lts

variable {σ ε α ο : Type}

/-- A finite run from a state, with its events in order. -/
inductive Run (T : σ → ε → σ → Prop) (s : σ) : List ε → σ → Prop where
  | refl : Run T s [] s
  | tail {es : List ε} {t u : σ} {e : ε} (h : Run T s es t) (ht : T t e u) : Run T s (es ++ [e]) u

/-- The transition relation of a partial step function: an event that is not enabled has no step. -/
def graph (step : σ → α → Option σ) : σ → α → σ → Prop := fun s a t => step s a = some t

/-- The transition relation of a total step function with a reply. -/
def mealy (step : σ → α → σ × ο) : σ → α × ο → σ → Prop := fun s e t => step s e.1 = (t, e.2)

/-- The steps of `T` that meet the condition `G` on the state before the step and the event. -/
def guarded (G : σ → ε → Prop) (T : σ → ε → σ → Prop) : σ → ε → σ → Prop :=
  fun s e t => G s e ∧ T s e t

/-- The partial step function that also refuses what does not meet `G`. -/
def restrict (G : σ → α → Prop) [∀ s a, Decidable (G s a)] (step : σ → α → Option σ) :
    σ → α → Option σ :=
  fun s a => if G s a then step s a else none

theorem graph_restrict {G : σ → α → Prop} [∀ s a, Decidable (G s a)] {step : σ → α → Option σ} {s t : σ}
    {a : α} (h : graph (restrict G step) s a t) : guarded G (graph step) s a t := by
  simp only [graph, restrict, Option.ite_none_right_eq_some] at h
  exact h

/-- The state after a list of requests, if each of them is enabled in turn. -/
def exec (step : σ → α → Option σ) : σ → List α → Option σ
  | s, [] => some s
  | s, a :: as => (step s a).bind fun t => exec step t as

/-- The state after a list of requests to a total system, with the requests and their replies. -/
def replay (step : σ → α → σ × ο) : σ → List α → σ × List (α × ο)
  | s, [] => (s, [])
  | s, a :: as =>
    let r := step s a
    let rest := replay step r.1 as
    (rest.1, (a, r.2) :: rest.2)

namespace Run

variable {T T' : σ → ε → σ → Prop} {s t u : σ} {es es' : List ε} {e : ε}

theorem single (h : T s e t) : Run T s [e] t := Run.tail .refl h

theorem trans (h1 : Run T s es t) (h2 : Run T t es' u) : Run T s (es ++ es') u := by
  induction h2 with
  | refl => simpa using h1
  | tail _ ht ih => rw [← List.append_assoc]; exact ih.tail ht

theorem cons (h : T s e t) (h2 : Run T t es u) : Run T s (e :: es) u := (single h).trans h2

theorem mono (hT : ∀ s e t, T s e t → T' s e t) (h : Run T s es t) : Run T' s es t := by
  induction h with
  | refl => exact .refl
  | tail _ ht ih => exact ih.tail (hT _ _ _ ht)

/-- What holds at the start and is kept by every step holds at the end. -/
theorem inv {I : σ → Prop} (h : Run T s es t) (h0 : I s)
    (hs : ∀ t e u, I t → T t e u → I u) : I t := by
  induction h with
  | refl => exact h0
  | tail _ ht ih => exact hs _ _ _ ih ht

/-- The same, for an invariant that also reads the events so far. -/
theorem inv_events {I : List ε → σ → Prop} (h : Run T s es t) (h0 : I [] s)
    (hs : ∀ es t e u, I es t → T t e u → I (es ++ [e]) u) : I es t := by
  induction h with
  | refl => exact h0
  | tail _ ht ih => exact hs _ _ _ _ ih ht

/-- A property that is false at the start and true at the end becomes true at some step. -/
theorem crossing {P : σ → Prop} (h : Run T s es u) (h0 : ¬ P s) (h1 : P u) :
    ∃ pre e post t t', es = pre ++ e :: post ∧ Run T s pre t ∧ T t e t' ∧ Run T t' post u ∧
      ¬ P t ∧ P t' := by
  induction h with
  | refl => exact absurd h1 h0
  | @tail es t u e h ht ih =>
    by_cases hP : P t
    · obtain ⟨pre, e', post, v, v', rfl, hr1, hv, hr2, hn, hp⟩ := ih hP
      exact ⟨pre, e', post ++ [e], v, v', by simp, hr1, hv, hr2.tail ht, hn, hp⟩
    · exact ⟨es, e, [], t, u, rfl, h, ht, .refl, hP, h1⟩

end Run

/-- Requests that are enabled in turn make a run. -/
theorem Run.of_exec {step : σ → α → Option σ} :
    ∀ {as : List α} {s t : σ}, exec step s as = some t → Run (graph step) s as t := by
  intro as
  induction as with
  | nil => intro s t h; cases h; exact .refl
  | cons a as ih =>
    intro s t h
    simp only [exec, Option.bind_eq_some_iff] at h
    obtain ⟨v, hv, h⟩ := h
    exact Run.cons hv (ih h)

/-- The same for a state that a test accepts, so that one evaluation gives the run and the test. -/
theorem Run.of_exec_any {step : σ → α → Option σ} {as : List α} {s : σ} {P : σ → Bool}
    (h : (exec step s as).any P = true) : ∃ t, Run (graph step) s as t ∧ P t = true := by
  obtain ⟨t, ht, hP⟩ := (Option.any_eq_true _ _).mp h
  exact ⟨t, Run.of_exec ht, hP⟩

/-- A replayed list of requests is a run. -/
theorem Run.of_replay (step : σ → α → σ × ο) :
    ∀ (as : List α) (s : σ), Run (mealy step) s (replay step s as).2 (replay step s as).1 := by
  intro as
  induction as with
  | nil => intro s; exact .refl
  | cons a as ih => intro s; exact Run.cons rfl (ih _)

theorem map_fst_replay (step : σ → α → σ × ο) (as : List α) (s : σ) :
    (replay step s as).2.map Prod.fst = as := by
  induction as generalizing s with
  | nil => rfl
  | cons a as ih => simp only [replay, List.map_cons, ih]

theorem replay_append (step : σ → α → σ × ο) (as bs : List α) (s : σ) :
    replay step s (as ++ bs) =
      ((replay step (replay step s as).1 bs).1, (replay step s as).2 ++ (replay step (replay step s as).1 bs).2) := by
  induction as generalizing s with
  | nil => rfl
  | cons a as ih => simp only [List.cons_append, replay, ih]

end Lts
