import Vizra.GoStd.Binary
import Vizra.GoStd.Run

/-!
# Slices

A slice is what it holds and what stands behind it in its array up to its capacity. A slice of a slice may reach into
what stands behind; an index may not.
-/

namespace Go

structure Slice (α : Type) where
  data : List α
  spare : List α

namespace Slice

open Run

variable {ε α : Type}

def len (s : Slice α) : Nat := s.data.length

def cap (s : Slice α) : Nat := s.data.length + s.spare.length

@[simp] theorem length_data (s : Slice α) : s.data.length = s.len := rfl

theorem len_le_cap (s : Slice α) : s.len ≤ s.cap := Nat.le_add_right _ _

/-- The elements from `lo` to `hi`, where these are bounds of the array. -/
def sub (s : Slice α) (lo hi : Nat) : Slice α :=
  ⟨((s.data ++ s.spare).drop lo).take (hi - lo), (s.data ++ s.spare).drop hi⟩

/-- `s[i]`. -/
def index (s : Slice α) (i : Nat) : Run ε α :=
  match s.data[i]? with
  | some a => .ok a
  | none => crash

/-- `s[lo:hi]`. -/
def slice (s : Slice α) (lo hi : Nat) : Run ε (Slice α) :=
  if lo ≤ hi ∧ hi ≤ s.cap then .ok (s.sub lo hi) else crash

/-- `s[lo:]`. -/
def sliceFrom (s : Slice α) (lo : Nat) : Run ε (Slice α) := s.slice lo s.len

/-- `binary.BigEndian.UintN`, for a number of `k` bytes. -/
def beUint (s : Slice UInt8) (k : Nat) : Run ε Nat :=
  if k ≤ s.len then .ok (uintBE (s.data.take k)) else crash

/-- `binary.LittleEndian.UintN`, for a number of `k` bytes. -/
def leUint (s : Slice UInt8) (k : Nat) : Run ε Nat :=
  if k ≤ s.len then .ok (uintLE (s.data.take k)) else crash

variable {s : Slice α} {lo hi i : Nat}

theorem len_sub (h : hi ≤ s.cap) : (s.sub lo hi).len = hi - lo := by
  rw [cap] at h
  simp only [len, sub, List.length_take, List.length_drop, List.length_append]
  omega

theorem cap_sub (hlo : lo ≤ hi) (h : hi ≤ s.cap) : (s.sub lo hi).cap = s.cap - lo := by
  have hlen : (s.sub lo hi).data.length = hi - lo := len_sub h
  rw [cap] at h
  rw [cap, hlen]
  simp only [cap, sub, List.length_drop, List.length_append]
  omega

theorem data_sub (h : hi ≤ s.len) : (s.sub lo hi).data = (s.data.drop lo).take (hi - lo) := by
  simp only [sub]
  rw [len] at h
  rw [List.drop_append, List.take_append_of_le_length]
  rw [List.length_drop]
  omega

theorem data_sub_append {mid : Nat} (hlo : lo ≤ mid) (hhi : mid ≤ hi) :
    (s.sub lo hi).data = (s.sub lo mid).data ++ (s.sub mid hi).data := by
  simp only [sub]
  rw [show hi - lo = mid - lo + (hi - mid) by omega, List.take_add, List.drop_drop, Nat.add_sub_cancel' hlo]

theorem slice_eq_ok (hlo : lo ≤ hi) (h : hi ≤ s.cap) : (s.slice lo hi : Run ε (Slice α)) = .ok (s.sub lo hi) :=
  if_pos ⟨hlo, h⟩

theorem panics_slice : Panics (s.slice lo hi : Run ε (Slice α)) ↔ hi < lo ∨ s.cap < hi := by
  by_cases h : lo ≤ hi ∧ hi ≤ s.cap
  · rw [slice, if_pos h]
    exact ⟨nofun, by omega⟩
  · rw [slice, if_neg h]
    exact ⟨fun _ => by omega, fun _ => panics_crash⟩

theorem index_eq_ok (h : i < s.len) : (s.index i : Run ε α) = .ok s.data[i] := by
  rw [index, List.getElem?_eq_getElem h]

theorem panics_index : Panics (s.index i : Run ε α) ↔ s.len ≤ i := by
  by_cases h : i < s.len
  · rw [index_eq_ok h]
    exact ⟨nofun, by omega⟩
  · rw [index, List.getElem?_eq_none (Nat.le_of_not_lt h)]
    exact ⟨fun _ => by omega, fun _ => panics_crash⟩

section Bind

variable {β : Type}

theorem slice_bind {f : Slice α → Run ε β} (hlo : lo ≤ hi) (h : hi ≤ s.cap) : (s.slice lo hi >>= f) = f (s.sub lo hi) := by
  rw [slice_eq_ok hlo h]
  rfl

theorem panics_slice_bind {f : Slice α → Run ε β} (hlo : lo ≤ hi) :
    Panics (s.slice lo hi >>= f) ↔ s.cap < hi ∨ hi ≤ s.cap ∧ Panics (f (s.sub lo hi)) := by
  by_cases h : hi ≤ s.cap
  · rw [slice_bind hlo h]
    exact ⟨fun hf => .inr ⟨h, hf⟩, fun hor => hor.elim (fun hlt => absurd h (by omega)) And.right⟩
  · rw [panics_bind, panics_slice]
    exact ⟨fun _ => .inl (by omega), fun _ => .inl (by omega)⟩

theorem panics_index_bind {f : α → Run ε β} :
    Panics (s.index i >>= f) ↔ s.len ≤ i ∨ ∃ a, s.data[i]? = some a ∧ Panics (f a) := by
  rw [panics_bind, panics_index, index]
  refine or_congr_right (exists_congr fun a => and_congr_left fun _ => ?_)
  cases s.data[i]? with
  | none => exact ⟨nofun, nofun⟩
  | some c => exact ⟨fun h => congrArg some (Except.ok.inj h), fun h => congrArg Except.ok (Option.some.inj h)⟩

theorem index_bind {f : α → Run ε β} (h : i < s.len) : (s.index i >>= f) = f s.data[i] := by
  rw [index_eq_ok h]
  rfl

theorem index_bind_getD {f : α → Run ε β} (d : α) (h : i < s.len) : (s.index i >>= f) = f (s.data.getD i d) := by
  rw [index_bind h, List.getD_eq_getElem?_getD, List.getElem?_eq_getElem h]
  rfl

end Bind

/-- The elements `x` stand in a slice from offset `i` on. -/
def At (s : Slice α) (i : Nat) (x : List α) : Prop := x <+: s.data.drop i

namespace At

variable {x y : List α}

theorem fits (h : s.At i x) (hx : 0 < x.length) : i + x.length ≤ s.len := by
  have := h.length_le
  rw [List.length_drop, length_data] at this
  omega

theorem append_iff : s.At i (x ++ y) ↔ s.At i x ∧ s.At (i + x.length) y := by
  constructor
  · rintro ⟨z, hz⟩
    refine ⟨⟨y ++ z, by rw [← hz, List.append_assoc]⟩, z, ?_⟩
    rw [← List.drop_drop, ← hz, List.append_assoc, List.drop_left]
  · rintro ⟨⟨z, hz⟩, w, hw⟩
    rw [← List.drop_drop, ← hz, List.drop_left] at hw
    exact ⟨w, by rw [← hz, ← hw, List.append_assoc]⟩

theorem iff_sub (hhi : hi = i + x.length) (h : hi ≤ s.len) : s.At i x ↔ (s.sub i hi).data = x := by
  rw [data_sub h, hhi, Nat.add_sub_cancel_left]
  constructor
  · rintro ⟨y, hy⟩
    rw [← hy, List.take_left]
  · intro hx
    rw [At, ← hx]
    exact List.take_prefix _ _

end At

section Bytes

variable {s : Slice UInt8} {k : Nat}

/-- The number between two bounds of the array, the highest byte first. -/
def beAt (s : Slice UInt8) (lo hi : Nat) : Nat := uintBE (s.sub lo hi).data

/-- The number between two bounds of the array, the lowest byte first. -/
def leAt (s : Slice UInt8) (lo hi : Nat) : Nat := uintLE (s.sub lo hi).data

theorem beAt_lt (hk : hi - lo = k) (h : hi ≤ s.cap) : s.beAt lo hi < 256 ^ k := by
  have hlt := uintBE_lt (s.sub lo hi).data
  rwa [length_data, len_sub h, hk] at hlt

/-- A number that is written at an offset is the one that is read there. -/
theorem At.putBE_iff {n : Nat} (hhi : hi = lo + k) (h : hi ≤ s.len) (hn : n < 256 ^ k) :
    s.At lo (putBE k n) ↔ s.beAt lo hi = n := by
  have hlen : (s.sub lo hi).data.length = k := (len_sub (h.trans s.len_le_cap)).trans (by omega)
  rw [At.iff_sub (by rw [length_putBE]; exact hhi) h, beAt]
  constructor
  · intro hput
    rw [hput, uintBE_putBE hn]
  · rintro rfl
    rw [← hlen, putBE_uintBE]

theorem At.putLE_iff {n : Nat} (hhi : hi = lo + k) (h : hi ≤ s.len) (hn : n < 256 ^ k) :
    s.At lo (putLE k n) ↔ s.leAt lo hi = n := by
  have hlen : (s.sub lo hi).data.length = k := (len_sub (h.trans s.len_le_cap)).trans (by omega)
  rw [At.iff_sub (by rw [length_putLE]; exact hhi) h, leAt]
  constructor
  · intro hput
    rw [hput, uintLE_putLE hn]
  · rintro rfl
    rw [← hlen, putLE_uintLE]

/-- A number that fills the slice it is read from. -/
theorem beUint_sub (hk : hi - lo = k) (h : hi ≤ s.cap) :
    ((s.sub lo hi).beUint k : Run ε Nat) = .ok (s.beAt lo hi) := by
  have hlen : (s.sub lo hi).len = k := (len_sub h).trans hk
  rw [beUint, if_pos hlen.ge, List.take_of_length_le hlen.le]
  rfl

/-- Reading a number at fixed bounds. -/
theorem beUint_bind {β : Type} {f : Nat → Run ε β} (hlo : lo ≤ hi) (hk : hi - lo = k) (h : hi ≤ s.cap) :
    (s.slice lo hi >>= fun t => t.beUint k >>= f) = f (s.beAt lo hi) := by
  rw [slice_bind hlo h, beUint_sub hk h]
  rfl

theorem panics_beUint_bind {β : Type} {f : Nat → Run ε β} (hlo : lo ≤ hi) (hk : hi - lo = k) :
    Panics (s.slice lo hi >>= fun t => t.beUint k >>= f) ↔
      s.cap < hi ∨ hi ≤ s.cap ∧ Panics (f (s.beAt lo hi)) := by
  rw [panics_slice_bind hlo]
  constructor
  · rintro (hlt | ⟨h, hpanic⟩)
    · exact .inl hlt
    · rw [beUint_sub hk h] at hpanic
      exact .inr ⟨h, hpanic⟩
  · rintro (hlt | ⟨h, hpanic⟩)
    · exact .inl hlt
    · rw [beUint_sub hk h]
      exact .inr ⟨h, hpanic⟩

theorem leUint_sub (hk : hi - lo = k) (h : hi ≤ s.cap) :
    ((s.sub lo hi).leUint k : Run ε Nat) = .ok (s.leAt lo hi) := by
  have hlen : (s.sub lo hi).len = k := (len_sub h).trans hk
  rw [leUint, if_pos hlen.ge, List.take_of_length_le hlen.le]
  rfl

theorem leUint_bind {β : Type} {f : Nat → Run ε β} (hlo : lo ≤ hi) (hk : hi - lo = k) (h : hi ≤ s.cap) :
    (s.slice lo hi >>= fun t => t.leUint k >>= f) = f (s.leAt lo hi) := by
  rw [slice_bind hlo h, leUint_sub hk h]
  rfl

end Bytes

end Slice

/-- Two reads of one slice need the longer of the two. -/
theorem short_or {c m n : Nat} {Q : Prop} (h : m ≤ n) : (c < m ∨ m ≤ c ∧ (c < n ∨ n ≤ c ∧ Q)) ↔ c < n ∨ n ≤ c ∧ Q := by
  constructor
  · rintro (hlt | ⟨-, hor⟩)
    · exact .inl (by omega)
    · exact hor
  · intro hor
    by_cases hlt : c < m
    · exact .inl hlt
    · exact .inr ⟨by omega, hor⟩

end Go
