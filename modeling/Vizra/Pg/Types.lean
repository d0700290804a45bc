import Mathlib.Data.BitVec
import Vizra.GoStd.Time

/-!
# Column types shared by the tables

Timestamps and intervals are the integers PostgreSQL stores: microseconds. A Go `time.Duration` is an
integer number of nanoseconds and reaches a statement through `toInterval`.
-/

namespace Vizra.Pg

open Go

/-- `timestamptz`, in microseconds. -/
abbrev Time := Int

/-- `interval`, in microseconds (`pgtype.Interval` with only `Microseconds` set). -/
abbrev Interval := Int

abbrev Uuid := BitVec 128

/-- `d.Microseconds()`: integer division towards zero. -/
def toInterval (d : Duration) : Interval := d.tdiv microsecond

/-- What a `text` column can hold: PostgreSQL refuses U+0000. -/
def storable (s : String) : Bool := s.toList.all fun c => c != Char.ofNat 0

/-- `strPtr`: the empty string is passed as NULL. -/
def strPtr (s : String) : Option String := if s = "" then none else some s

/-- SQL `a = b` in a WHERE clause: a comparison with NULL selects nothing. -/
def sqlEq {α : Type} [DecidableEq α] : Option α → Option α → Bool
  | some a, some b => a = b
  | _, _ => false

/-- SQL `a < b` in a WHERE clause. -/
def sqlLt : Option Time → Time → Bool
  | some a, b => a < b
  | none, _ => false

theorem sqlEq_eq_true {α : Type} [DecidableEq α] {a b : Option α} :
    sqlEq a b = true ↔ ∃ x, a = some x ∧ b = some x := by
  cases a <;> cases b <;> simp [sqlEq, eq_comm]

theorem strPtr_of_ne {s : String} (h : s ≠ "") : strPtr s = some s := by simp [strPtr, h]

end Vizra.Pg
