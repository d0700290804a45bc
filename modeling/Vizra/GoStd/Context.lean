import Vizra.GoStd.Time

/-!
# `context`

A context of one execution is known by the instant at which its `Done` channel closes, if it ever
does: the earliest of its own deadline, its own cancellation and its parent's end. A call that is given
a context whose `Done` is closed returns its error and does nothing else.
-/

namespace Go

/-- A context, with the instant at which it is done. -/
structure Context where
  doneAt : Option Instant
deriving DecidableEq, Repr

namespace Context

/-- The earlier of two instants, where `none` is never. -/
def earlier : Option Instant → Option Instant → Option Instant
  | some a, some b => some (min a b)
  | some a, none => some a
  | none, b => b

/-- The context is not done at `t`. -/
def live (c : Context) (t : Instant) : Bool :=
  match c.doneAt with
  | none => true
  | some d => t < d

/-- `context.WithoutCancel`. -/
def withoutCancel (_parent : Context) : Context := { doneAt := none }

/-- `context.WithTimeout` called at `now`, cancelled at `cancelAt` if at all. -/
def withTimeout (parent : Context) (now : Instant) (timeout : Duration) (cancelAt : Option Instant) :
    Context :=
  { doneAt := earlier (earlier parent.doneAt (some (now + timeout))) cancelAt }

/-- A detached context with a timeout is live until the timeout and no longer. -/
theorem live_withTimeout_withoutCancel (parent : Context) (now t : Instant) (timeout : Duration) :
    ((withoutCancel parent).withTimeout now timeout none).live t = true ↔ t < now + timeout := by
  simp [withTimeout, withoutCancel, earlier, live]

end Context

end Go
