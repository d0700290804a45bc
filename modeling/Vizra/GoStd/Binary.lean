import Mathlib.Data.Nat.Digits.Defs
import Vizra.GoStd.Bytes

/-!
# Numbers in byte strings (`encoding/binary`)

The number of a byte string in either byte order, and the string of a given length for a number.
-/

namespace Go

def uintLE (bs : Bytes) : Nat := bs.foldr (fun b n => b.toNat + 256 * n) 0

def uintBE (bs : Bytes) : Nat := uintLE bs.reverse

/-- The lowest `k` bytes of a number, the lowest first. -/
def putLE : Nat → Nat → Bytes
  | 0, _ => []
  | k + 1, n => UInt8.ofNat n :: putLE k (n / 256)

def putBE (k n : Nat) : Bytes := (putLE k n).reverse

@[simp] theorem length_putLE (k n : Nat) : (putLE k n).length = k := by
  induction k generalizing n with
  | zero => rfl
  | succ k ih => rw [putLE, List.length_cons, ih]

@[simp] theorem length_putBE (k n : Nat) : (putBE k n).length = k := by
  rw [putBE, List.length_reverse, length_putLE]

theorem uintLE_lt (bs : Bytes) : uintLE bs < 256 ^ bs.length := by
  induction bs with
  | nil => exact Nat.one_pos
  | cons b bs ih =>
    have hb : b.toNat < 256 := b.toNat_lt
    have : uintLE (b :: bs) = b.toNat + 256 * uintLE bs := rfl
    rw [this, List.length_cons, pow_succ]
    omega

theorem uintBE_lt (bs : Bytes) : uintBE bs < 256 ^ bs.length := by
  have h := uintLE_lt bs.reverse
  rwa [List.length_reverse] at h

theorem uintLE_putLE {k n : Nat} (h : n < 256 ^ k) : uintLE (putLE k n) = n := by
  induction k generalizing n with
  | zero =>
    have : n = 0 := by simpa using h
    rw [this]
    rfl
  | succ k ih =>
    have hdiv : n / 256 < 256 ^ k := by
      rw [pow_succ] at h
      exact Nat.div_lt_of_lt_mul (by omega)
    have hcons : uintLE (putLE (k + 1) n) = (UInt8.ofNat n).toNat + 256 * uintLE (putLE k (n / 256)) := rfl
    rw [hcons, ih hdiv, UInt8.toNat_ofNat']
    omega

theorem uintBE_putBE {k n : Nat} (h : n < 256 ^ k) : uintBE (putBE k n) = n := by
  rw [uintBE, putBE, List.reverse_reverse, uintLE_putLE h]

theorem putLE_uintLE (bs : Bytes) : putLE bs.length (uintLE bs) = bs := by
  induction bs with
  | nil => rfl
  | cons b bs ih =>
    have hb : b.toNat < 256 := b.toNat_lt
    have hcons : uintLE (b :: bs) = b.toNat + 256 * uintLE bs := rfl
    have hdiv : uintLE (b :: bs) / 256 = uintLE bs := by rw [hcons]; omega
    have hlow : UInt8.ofNat (uintLE (b :: bs)) = b := by
      apply UInt8.toNat_inj.mp
      rw [UInt8.toNat_ofNat', hcons]
      omega
    rw [List.length_cons, putLE, hdiv, ih, hlow]

theorem putBE_uintBE (bs : Bytes) : putBE bs.length (uintBE bs) = bs := by
  have h := putLE_uintLE bs.reverse
  rw [List.length_reverse] at h
  rw [putBE, uintBE, h, List.reverse_reverse]

end Go
