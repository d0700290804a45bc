import Mathlib.Logic.Function.Basic

/-!
# Exclusive locks

`holds i` says that process `i` is at a point of its program at which it has the lock, and `lock` is the
process the lock itself names. A system keeps the two together (`Owned`) when every step either leaves
both as they are, takes a free lock, or ends what its process held; then at most one process is past
the point where the lock is taken.
-/

namespace Lts

variable {ι : Type} {holds : ι → Bool} {lock lock' : Option ι} {i j : ι}

/-- The process that the lock names is the one that holds it. -/
def Owned (holds : ι → Bool) (lock : Option ι) : Prop := ∀ i, holds i = true ↔ lock = some i

namespace Owned

theorem unique (h : Owned holds lock) (hi : holds i = true) (hj : holds j = true) : i = j :=
  Option.some.inj (((h i).mp hi).symm.trans ((h j).mp hj))

theorem free (h : Owned holds lock) (hlock : lock = none) (i : ι) : holds i = false := by
  rw [Bool.eq_false_iff]
  intro hi
  rw [(h i).mp hi] at hlock
  cases hlock

variable [DecidableEq ι]

/-- A step that does not touch the lock. -/
theorem keep (h : Owned holds lock) {b : Bool} (hb : b = holds i) :
    Owned (Function.update holds i b) lock := by
  rw [hb, Function.update_eq_self]
  exact h

/-- A step that takes the lock, which was free. -/
theorem take (h : Owned holds lock) (hfree : lock = none) (i : ι) :
    Owned (Function.update holds i true) (some i) := by
  intro j
  by_cases hj : j = i
  · subst hj
    simp
  · rw [Function.update_of_ne hj, h.free hfree j]
    simp [Ne.symm hj]

/-- A step after which process `i` does not hold the lock, and everybody else does as before. -/
theorem release (h : Owned holds lock) (hlock : ∀ j, lock' = some j ↔ lock = some j ∧ j ≠ i) :
    Owned (Function.update holds i false) lock' := by
  intro j
  rw [hlock]
  by_cases hj : j = i
  · subst hj
    simp
  · rw [Function.update_of_ne hj, h j]
    simp [hj]

end Owned

end Lts
