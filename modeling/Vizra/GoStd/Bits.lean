import Mathlib.Data.List.Basic
import Mathlib.Data.Nat.Bitwise
import Vizra.GoStd.Bytes

/-!
# Bits, the lowest first

The lowest bits of a number, and the bits of a byte string.
-/

namespace Go

def bitsLE (k n : Nat) : List Bool := (List.range k).map n.testBit

/-- The bits of a byte string, the lowest bit of each byte first. -/
def bitStream (bs : Bytes) : List Bool := bs.flatMap fun b => bitsLE 8 b.toNat

@[simp] theorem length_bitsLE (k n : Nat) : (bitsLE k n).length = k := by
  rw [bitsLE, List.length_map, List.length_range]

theorem bitsLE_succ (k n : Nat) : bitsLE (k + 1) n = bitsLE k n ++ [n.testBit k] := by
  rw [bitsLE, List.range_succ, List.map_append]
  rfl

theorem getElem?_bitsLE {k n j : Nat} (h : j < k) : (bitsLE k n)[j]? = some (n.testBit j) := by
  rw [bitsLE, List.getElem?_map, List.getElem?_range h]
  rfl

theorem two_pow_mul_add_eq_or {x k : Nat} (hx : x < 2 ^ k) (bit : Bool) :
    x ||| bit.toNat <<< k = 2 ^ k * bit.toNat + x := by
  rw [Nat.shiftLeft_eq, Nat.mul_comm, Nat.two_pow_add_eq_or_of_lt hx, Nat.lor_comm]

/-- A bit in front of a number that it does not reach into. -/
theorem bitsLE_succ_of_lt {x k : Nat} (hx : x < 2 ^ k) (bit : Bool) :
    bitsLE (k + 1) (2 ^ k * bit.toNat + x) = bitsLE k x ++ [bit] := by
  rw [bitsLE_succ]
  congr 1
  · apply List.map_congr_left
    intro j hj
    rw [Nat.testBit_two_pow_mul_add _ hx, if_pos (List.mem_range.mp hj)]
  · rw [Nat.testBit_two_pow_mul_add _ hx, if_neg (Nat.lt_irrefl k), Nat.sub_self]
    cases bit with
    | false => rfl
    | true => rfl

theorem bitsLE_add_of_lt {x k : Nat} (hx : x < 2 ^ k) (m : Nat) :
    bitsLE (k + m) x = bitsLE k x ++ List.replicate m false := by
  induction m with
  | zero => rw [List.replicate_zero, List.append_nil, Nat.add_zero]
  | succ m ih =>
    have hbit : x.testBit (k + m) = false :=
      Nat.testBit_eq_false_of_lt (hx.trans_le (Nat.pow_le_pow_right (by omega) (by omega)))
    rw [← Nat.add_assoc, bitsLE_succ, ih, hbit, List.append_assoc, ← List.replicate_succ']

/-- The bits in front of a place, with the bit at that place. -/
theorem mod_two_pow_or_testBit (v i : Nat) :
    v % 2 ^ i ||| (v.testBit i).toNat <<< i = v % 2 ^ (i + 1) := by
  rw [two_pow_mul_add_eq_or (Nat.mod_lt _ (Nat.two_pow_pos i)), Nat.mod_pow_succ, Nat.toNat_testBit, Nat.add_comm]

theorem bitStream_append (bs bs' : Bytes) : bitStream (bs ++ bs') = bitStream bs ++ bitStream bs' :=
  List.flatMap_append

theorem bitStream_singleton (b : UInt8) : bitStream [b] = bitsLE 8 b.toNat := List.flatMap_singleton _ _

theorem length_bitStream (bs : Bytes) : (bitStream bs).length = 8 * bs.length := by
  induction bs with
  | nil => rfl
  | cons b bs ih =>
    have hcons : bitStream (b :: bs) = bitsLE 8 b.toNat ++ bitStream bs := rfl
    rw [hcons, List.length_append, length_bitsLE, ih, List.length_cons]
    omega

theorem getElem?_bitStream (bs : Bytes) (p : Nat) :
    (bitStream bs)[p]? = bs[p / 8]?.map fun b => b.toNat.testBit (p % 8) := by
  induction bs generalizing p with
  | nil => rfl
  | cons b bs ih =>
    have hcons : bitStream (b :: bs) = bitsLE 8 b.toNat ++ bitStream bs := rfl
    rw [hcons]
    by_cases hp : p < 8
    · rw [List.getElem?_append_left (by rw [length_bitsLE]; exact hp), getElem?_bitsLE hp, Nat.div_eq_of_lt hp,
        Nat.mod_eq_of_lt hp]
      rfl
    · have hdiv : p / 8 = (p - 8) / 8 + 1 := by omega
      have hmod : p % 8 = (p - 8) % 8 := by omega
      rw [List.getElem?_append_right (by rw [length_bitsLE]; omega), length_bitsLE, ih, hdiv, hmod,
        List.getElem?_cons_succ]

end Go
