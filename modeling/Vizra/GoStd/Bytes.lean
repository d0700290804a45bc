import Mathlib.Data.Nat.Digits.Lemmas
import Mathlib.Data.UInt

/-!
# Byte strings, `encoding/hex` and `strconv`

A Go string whose bytes matter is the list of its bytes. Decimal numbers are written with `Nat.digits`, so
that reading and writing are inverse by the lemmas of the digits.
-/

namespace Go

abbrev Bytes := List UInt8

/-- The bytes of a text in ASCII. -/
def ascii (s : String) : Bytes := s.toList.map fun c => UInt8.ofNat c.toNat

/-! ## Decimal numbers -/

def isDecimal (b : UInt8) : Bool := 0x30 ≤ b && b ≤ 0x39

/-- The value of a string of decimal digits, most significant first. -/
def decimalValue (bs : Bytes) : Nat := bs.foldl (fun n b => 10 * n + (b.toNat - 48)) 0

def decimalDigit (d : Nat) : UInt8 := UInt8.ofNat (48 + d)

/-- `strconv.FormatInt(n, 10)`. -/
def formatInt (n : Int) : Bytes :=
  if n < 0 then 0x2D :: ((Nat.digits 10 n.natAbs).reverse.map decimalDigit)
  else if n = 0 then [0x30]
  else (Nat.digits 10 n.natAbs).reverse.map decimalDigit

theorem isDecimal_iff {b : UInt8} : isDecimal b = true ↔ 48 ≤ b.toNat ∧ b.toNat ≤ 57 := by
  simp [isDecimal, UInt8.le_iff_toNat_le]

theorem toNat_decimalDigit {d : Nat} (h : d < 10) : (decimalDigit d).toNat = 48 + d := by
  have hlt : 48 + d < 256 := by omega
  exact UInt8.toNat_ofNat_of_lt hlt

theorem isDecimal_decimalDigit {d : Nat} (h : d < 10) : isDecimal (decimalDigit d) = true := by
  rw [isDecimal_iff, toNat_decimalDigit h]
  omega

theorem decimalDigit_sub {b : UInt8} (h : isDecimal b = true) : decimalDigit (b.toNat - 48) = b := by
  rw [isDecimal_iff] at h
  have hd : b.toNat - 48 < 10 := by omega
  have hnat := toNat_decimalDigit hd
  exact UInt8.toNat_inj.mp (by omega)

theorem decimalValue_eq_ofDigits (bs : Bytes) :
    decimalValue bs = Nat.ofDigits 10 (bs.reverse.map fun b => b.toNat - 48) := by
  unfold decimalValue
  rw [Nat.ofDigits_eq_foldr, List.foldr_map, List.foldr_reverse]
  congr 1
  funext n b
  simp only [Nat.cast_id]
  omega

theorem decimalValue_digits (n : Nat) :
    decimalValue ((Nat.digits 10 n).reverse.map decimalDigit) = n := by
  have hmap : ((Nat.digits 10 n).map decimalDigit).map (fun b => b.toNat - 48) = Nat.digits 10 n := by
    rw [List.map_map]
    refine (List.map_congr_left ?_).trans (List.map_id _)
    intro d hd
    have hlt := Nat.digits_lt_base (by decide) hd
    simp only [Function.comp_apply, toNat_decimalDigit hlt, id]
    omega
  rw [decimalValue_eq_ofDigits]
  simp only [List.map_reverse, List.reverse_reverse]
  rw [hmap, Nat.ofDigits_digits]

/-- A string of digits without a leading zero is what its value is written as. -/
theorem digits_decimalValue {bs : Bytes} (hd : ∀ b ∈ bs, isDecimal b = true) (hne : bs ≠ [])
    (h0 : bs.head hne ≠ 0x30) :
    (Nat.digits 10 (decimalValue bs)).reverse.map decimalDigit = bs := by
  have hdigits : Nat.digits 10 (decimalValue bs) = bs.reverse.map fun b => b.toNat - 48 := by
    rw [decimalValue_eq_ofDigits]
    refine Nat.digits_ofDigits 10 (by decide) _ ?_ ?_
    · intro d hmem
      obtain ⟨b, hb, rfl⟩ := List.mem_map.mp hmem
      have := isDecimal_iff.mp (hd b (List.mem_reverse.mp hb))
      omega
    · intro hnil hzero
      rw [List.getLast_map, List.getLast_reverse] at hzero
      have hhead := isDecimal_iff.mp (hd _ (List.head_mem hne))
      apply h0
      apply UInt8.toNat_inj.mp
      have : (bs.head hne).toNat = 48 := by omega
      exact this
  rw [hdigits]
  simp only [List.map_reverse, List.reverse_reverse, List.map_map]
  refine (List.map_congr_left ?_).trans (List.map_id _)
  intro b hb
  exact decimalDigit_sub (hd b hb)

/-! ## Hexadecimal -/

def isLowerHex (b : UInt8) : Bool := (0x30 ≤ b && b ≤ 0x39) || (0x61 ≤ b && b ≤ 0x66)

def hexDigit (d : Nat) : UInt8 := UInt8.ofNat (if d < 10 then 48 + d else 87 + d)

/-- `hex.EncodeToString`. -/
def hexEncode (bs : Bytes) : Bytes := bs.flatMap fun b => [hexDigit (b.toNat / 16), hexDigit (b.toNat % 16)]

theorem isLowerHex_hexDigit {d : Nat} (h : d < 16) : isLowerHex (hexDigit d) = true := by
  have hall : ∀ d < 16, isLowerHex (hexDigit d) = true := by decide
  exact hall d h

theorem isLowerHex_hexEncode {bs : Bytes} : ∀ b ∈ hexEncode bs, isLowerHex b = true := by
  intro b hb
  obtain ⟨x, -, hx⟩ := List.mem_flatMap.mp hb
  have hlt := x.toNat_lt
  simp only [List.mem_cons, List.not_mem_nil, or_false] at hx
  rcases hx with rfl | rfl
  · exact isLowerHex_hexDigit (by omega)
  · exact isLowerHex_hexDigit (by omega)

theorem length_hexEncode (bs : Bytes) : (hexEncode bs).length = 2 * bs.length := by
  induction bs with
  | nil => rfl
  | cons b bs ih =>
    have hcons : hexEncode (b :: bs) =
      hexDigit (b.toNat / 16) :: hexDigit (b.toNat % 16) :: hexEncode bs := rfl
    rw [hcons, List.length_cons, List.length_cons, ih, List.length_cons]
    omega

/-! ## Splitting a joined text -/

variable {α : Type} {c : α}

/-- The part before the first separator. -/
theorem append_cons_inj_left {x x' y y' : List α} (hx : c ∉ x) (hx' : c ∉ x')
    (h : x ++ c :: y = x' ++ c :: y') : x = x' ∧ y = y' := by
  induction x generalizing x' with
  | nil =>
    cases x' with
    | nil => exact ⟨rfl, List.tail_eq_of_cons_eq h⟩
    | cons a x' =>
      have ha : c = a := List.head_eq_of_cons_eq h
      exact absurd (ha ▸ List.mem_cons_self) hx'
  | cons a x ih =>
    cases x' with
    | nil =>
      have ha : a = c := List.head_eq_of_cons_eq h
      exact absurd (ha ▸ List.mem_cons_self) hx
    | cons a' x' =>
      have ha : a = a' := List.head_eq_of_cons_eq h
      have htail : x ++ c :: y = x' ++ c :: y' := List.tail_eq_of_cons_eq h
      obtain ⟨rfl, rfl⟩ := ih (fun hm => hx (List.mem_cons_of_mem _ hm))
        (fun hm => hx' (List.mem_cons_of_mem _ hm)) htail
      exact ⟨by rw [ha], rfl⟩

/-- The part after the last separator. -/
theorem append_cons_inj_right {x x' y y' : List α} (hy : c ∉ y) (hy' : c ∉ y')
    (h : x ++ c :: y = x' ++ c :: y') : x = x' ∧ y = y' := by
  have hrev : y.reverse ++ c :: x.reverse = y'.reverse ++ c :: x'.reverse := by
    have := congrArg List.reverse h
    simpa using this
  have hsplit := append_cons_inj_left (by simpa using hy) (by simpa using hy') hrev
  exact ⟨List.reverse_injective hsplit.2, List.reverse_injective hsplit.1⟩

end Go
