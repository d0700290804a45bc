import Mathlib.Logic.Function.Basic
import Vizra.GoStd.Context
import Vizra.Lts.Basic

/-!
# The single-flight cache of `/readyz` (`internal/httpapi/probes.go`)

Any number of calls of `Get` run at once. What a call does while it has the mutex is one step, and so is
what `compute` does between two answers from outside. The function `compute` is a parameter: it shares a
value of type `ω` with the rest of the process, its local state is of type `κ`, an answer is of type `ε`
and its result of type `α`. The wait group of a flight is known by the call that leads it.
-/

namespace Vizra.HttpApi.ReadinessCache

open Go

variable {ω κ α ε : Type}

/-- The field `compute`: its state when it is called, and what it does with the next answer. -/
structure Compute (ω κ α ε : Type) where
  start : Context → κ
  step : Instant → ω → κ → ε → ω × (κ ⊕ α)

/-- A result, with the time at which `compute` returned it and the time at which it was stored. -/
structure Value (α : Type) where
  val : α
  finished : Instant
  stored : Instant
deriving DecidableEq

/-- A call of `Get`, with the time at which it began. -/
inductive Proc (κ α : Type) where
  | idle
  -- Before the first section of the mutex.
  | entering (began : Instant) (ctx : Context)
  -- In `wg.Wait()`.
  | waiting (began : Instant) (leader : Nat)
  | woken (began : Instant)
  | computing (began : Instant) (k : κ)
  -- `compute` has returned and nothing is stored yet.
  | computed (began : Instant) (val : α) (finished : Instant)
  -- Before `wg.Done()`.
  | stored (began : Instant) (v : Value α)
  | returned (began : Instant) (v : Option (Value α))

/-- The fields of the cache, the clock, and the calls. Before the first store `taken` is the zero time and
`value` is not there. -/
structure St (ω κ α : Type) where
  now : Instant
  world : ω
  value : Option (Value α)
  taken : Instant
  inFlight : Option Nat
  procs : Nat → Proc κ α

def St.init (now : Instant) (world : ω) : St ω κ α :=
  { now, world, value := none, taken := 0, inFlight := none, procs := fun _ => .idle }

/-- The effect of one step of a call. -/
inductive Act (ω κ α : Type) where
  | goto (p : Proc κ α)
  -- The call puts its own wait group into `inFlight`.
  | lead (p : Proc κ α)
  -- A step of `compute`.
  | think (world : ω) (p : Proc κ α)
  -- The last section of the mutex.
  | store (began : Instant) (v : Value α)

def St.apply (s : St ω κ α) (i : Nat) : Act ω κ α → St ω κ α
  | .goto p => { s with procs := Function.update s.procs i p }
  | .lead p => { s with procs := Function.update s.procs i p, inFlight := some i }
  | .think world p => { s with procs := Function.update s.procs i p, world }
  | .store began v =>
    { s with
      procs := Function.update s.procs i (.stored began v), value := some v, taken := v.stored
      inFlight := none }

/-- The call has called `wg.Done()` if it had a wait group. -/
def Proc.done : Proc κ α → Bool
  | .returned .. => true
  | _ => false

/-- The condition of the first branch of `Get`. -/
def St.fresh (ttl : Duration) (s : St ω κ α) : Bool := s.taken ≠ 0 && s.now - s.taken < ttl

section

variable (ttl : Duration) (compute : Compute ω κ α ε)

/-- The next step of a call, outside of `compute`; `none` while it waits. -/
def St.next (s : St ω κ α) : Proc κ α → Option (Act ω κ α)
  | .entering began ctx =>
    if s.fresh ttl then some (.goto (.returned began s.value))
    else match s.inFlight with
      | some leader => some (.goto (.waiting began leader))
      | none => some (.lead (.computing began (compute.start ctx)))
  | .waiting began leader => if (s.procs leader).done then some (.goto (.woken began)) else none
  -- whatever is there now, which need not be what the flight has stored
  | .woken began => some (.goto (.returned began s.value))
  | .computed began val finished => some (.store began { val, finished, stored := s.now })
  | .stored began v => some (.goto (.returned began (some v)))
  | .idle | .computing .. | .returned .. => none

/-- A step of `compute` in a call that began at `began`. -/
def St.think (s : St ω κ α) (began : Instant) (k : κ) (e : ε) : Act ω κ α :=
  let r := compute.step s.now s.world k e
  match r.2 with
  | .inl k => .think r.1 (.computing began k)
  | .inr val => .think r.1 (.computed began val s.now)

inductive Label (ω ε : Type) where
  | tick (d : Nat)
  -- The rest of the process changes what it shares with `compute`.
  | outside (world : ω)
  | call (i : Nat) (ctx : Context)
  | next (i : Nat)
  -- The `compute` of call `i` gets the answer `e` and goes on.
  | answer (i : Nat) (e : ε)

def St.step (s : St ω κ α) : Label ω ε → Option (St ω κ α)
  | .tick d => some { s with now := s.now + d }
  | .outside world => some { s with world }
  | .call i ctx =>
    match s.procs i with
    | .idle => some (s.apply i (.goto (.entering s.now ctx)))
    | _ => none
  | .next i => (s.next ttl compute (s.procs i)).map (s.apply i)
  | .answer i e =>
    match s.procs i with
    | .computing began k => some (s.apply i (s.think compute began k e))
    | _ => none

/-- Runs whose steps meet `G`. -/
abbrev St.Run (G : St ω κ α → Label ω ε → Prop) (s : St ω κ α) (ls : List (Label ω ε))
    (t : St ω κ α) : Prop :=
  Lts.Run (Lts.guarded G (Lts.graph (St.step ttl compute))) s ls t

/-- No condition on the steps. -/
def anyStep : St ω κ α → Label ω ε → Prop := fun _ _ => True

end

end Vizra.HttpApi.ReadinessCache
