import Mathlib.Algebra.Group.Nat.Defs
import Mathlib.Data.List.DropRight

/-!
# `net/netip`

Addresses with the text form `netip` gives them, the one of RFC 5952 for IPv6, and the prefix of an address. The two
parsers, `net.SplitHostPort` and `netip.ParseAddr`, stay parameters of whatever calls them.
-/

namespace Netip

inductive Addr where
  | v4 (bits : BitVec 32)
  | v6 (bits : BitVec 128) (zone : String)
deriving DecidableEq, Repr

/-- The parsers: the host that `SplitHostPort` cuts out, and the address that `ParseAddr` reads. -/
structure Parsers where
  splitHostPort : String → Option String
  parseAddr : String → Option Addr

namespace Addr

def zone : Addr → String
  | v4 _ => ""
  | v6 _ zone => zone

def is4 : Addr → Bool
  | v4 _ => true
  | v6 .. => false

/-- An IPv4 address written as `::ffff:a.b.c.d`. -/
def is4In6 : Addr → Bool
  | v4 _ => false
  | v6 bits _ => bits >>> 32 == 0xffff#128

def unmap (a : Addr) : Addr :=
  match a with
  | v4 _ => a
  | v6 bits _ => if a.is4In6 then v4 (bits.setWidth 32) else a

def isUnspecified (a : Addr) : Bool := a == v4 0 || a == v6 0 ""

def isLoopback (a : Addr) : Bool :=
  match a.unmap with
  | v4 bits => bits >>> 24 == 127#32
  | v6 bits _ => bits == 1#128

def octets (bits : BitVec 32) : List Nat :=
  [bits.toNat / 2 ^ 24, bits.toNat / 2 ^ 16 % 2 ^ 8, bits.toNat / 2 ^ 8 % 2 ^ 8, bits.toNat % 2 ^ 8]

/-- The 16-bit groups of an IPv6 address. -/
def groups (bits : BitVec 128) : List Nat :=
  (List.range 8).map fun i => bits.toNat / 2 ^ (16 * (7 - i)) % 2 ^ 16

def dotted (bits : BitVec 32) : List Char := ['.'].intercalate ((octets bits).map (Nat.toDigits 10))

def colons (gs : List Nat) : List Char := [':'].intercalate (gs.map (Nat.toDigits 16))

/-- How many of the leading groups are zero. -/
def zeros (gs : List Nat) : Nat := (gs.takeWhile (· == 0)).length

/-- Start and length of the first longest run of two or more zero groups; the length is 0 if there is none. -/
def zeroRun (gs : List Nat) : Nat × Nat :=
  (List.range gs.length).foldl
    (fun run i => if 2 ≤ zeros (gs.drop i) ∧ run.2 < zeros (gs.drop i) then (i, zeros (gs.drop i)) else run) (0, 0)

/-- The groups in hexadecimal, with that run written as `::`. -/
def compressed (gs : List Nat) : List Char :=
  let run := zeroRun gs
  if run.2 = 0 then colons gs
  else colons (gs.take run.1) ++ "::".toList ++ colons (gs.drop (run.1 + run.2))

def text : Addr → List Char
  | v4 bits => dotted bits
  | v6 bits zone =>
    (if (v6 bits zone).is4In6 then "::ffff:".toList ++ dotted (bits.setWidth 32) else compressed (groups bits)) ++
      (if zone = "" then [] else '%' :: zone.toList)

/-- The address with all but its first `n` bits cleared, without its zone. -/
def masked (n : Nat) : Addr → Addr
  | v4 bits => v4 (bits >>> (32 - n) <<< (32 - n))
  | v6 bits _ => v6 (bits >>> (128 - n) <<< (128 - n)) ""

/-- The text of `Prefix(n)`. -/
def prefixText (a : Addr) (n : Nat) : String :=
  String.ofList ((a.masked n).text ++ '/' :: Nat.toDigits 10 n)

/-! ## Digits -/

theorem mem_toDigits {b n : Nat} (hb : 1 < b) {c : Char} (h : c ∈ Nat.toDigits b n) : ∃ d < b, c = d.digitChar := by
  induction n using Nat.strongRecOn with
  | ind n ih =>
    rw [Nat.toDigits_eq_if hb] at h
    by_cases hlt : n < b
    · rw [if_pos hlt, List.mem_singleton] at h
      exact ⟨n, hlt, h⟩
    · rw [if_neg hlt, List.mem_append, List.mem_singleton] at h
      rcases h with h | h
      · exact ih (n / b) (Nat.div_lt_self (by omega) hb) h
      · exact ⟨n % b, Nat.mod_lt n (by omega), h⟩

theorem notMem_toDigits {b : Nat} (hb : 1 < b) (n : Nat) {c : Char} (h : ∀ d < b, c ≠ d.digitChar) :
    c ∉ Nat.toDigits b n := by
  intro hmem
  obtain ⟨d, hd, hc⟩ := mem_toDigits hb hmem
  exact h d hd hc

theorem digitChar_inj : ∀ d < 16, ∀ e < 16, d.digitChar = e.digitChar → d = e := by decide

theorem toDigits_inj {b n m : Nat} (hb : 1 < b) (hb' : b ≤ 16) (h : Nat.toDigits b n = Nat.toDigits b m) : n = m := by
  induction n using Nat.strongRecOn generalizing m with
  | ind n ih =>
    have hlength := congrArg List.length h
    rw [Nat.toDigits_eq_if hb, Nat.toDigits_eq_if hb (n := m)] at h hlength
    have hpos : ∀ k, 0 < (Nat.toDigits b k).length := fun _ => Nat.length_toDigits_pos
    by_cases hn : n < b
    · by_cases hm : m < b
      · rw [if_pos hn, if_pos hm] at h
        exact digitChar_inj n (by omega) m (by omega) (List.cons.inj h).1
      · rw [if_pos hn, if_neg hm, List.length_append, List.length_singleton, List.length_singleton] at hlength
        have := hpos (m / b)
        omega
    · by_cases hm : m < b
      · rw [if_neg hn, if_pos hm, List.length_append, List.length_singleton, List.length_singleton] at hlength
        have := hpos (n / b)
        omega
      · rw [if_neg hn, if_neg hm] at h
        obtain ⟨hdiv, hmod⟩ := List.append_inj' h rfl
        have hquot : n / b = m / b := ih (n / b) (Nat.div_lt_self (by omega) hb) hdiv
        have hnb : n % b < b := Nat.mod_lt n (by omega)
        have hmb : m % b < b := Nat.mod_lt m (by omega)
        have hrem : n % b = m % b :=
          digitChar_inj _ (by omega) _ (by omega) (List.cons.inj hmod).1
        rw [← Nat.div_add_mod n b, ← Nat.div_add_mod m b, hquot, hrem]

/-- Numbers joined by a character that is no digit can be read back. -/
theorem intercalate_toDigits_inj {b : Nat} (hb : 1 < b) (hb' : b ≤ 16) {c : Char} (hc : ∀ d < b, c ≠ d.digitChar)
    {xs ys : List Nat} (hxs : xs ≠ []) (hys : ys ≠ [])
    (h : [c].intercalate (xs.map (Nat.toDigits b)) = [c].intercalate (ys.map (Nat.toDigits b))) : xs = ys := by
  have hread : ∀ zs : List Nat, zs ≠ [] →
      List.splitOn c ([c].intercalate (zs.map (Nat.toDigits b))) = zs.map (Nat.toDigits b) := by
    intro zs hzs
    refine List.splitOn_intercalate c ?_ (by simpa using hzs)
    intro l hl
    obtain ⟨n, -, rfl⟩ := List.mem_map.mp hl
    exact notMem_toDigits hb n hc
  have hmap : xs.map (Nat.toDigits b) = ys.map (Nat.toDigits b) := by rw [← hread xs hxs, ← hread ys hys, h]
  exact List.map_injective_iff.mpr (fun _ _ => toDigits_inj hb hb') hmap

/-! ## The text of a prefix -/

theorem octets_masked (bits : BitVec 32) :
    octets (bits >>> 8 <<< 8) = [bits.toNat / 2 ^ 24, bits.toNat / 2 ^ 16 % 2 ^ 8, bits.toNat / 2 ^ 8 % 2 ^ 8, 0] := by
  have hlt := bits.isLt
  simp only [octets, BitVec.toNat_shiftLeft, BitVec.toNat_ushiftRight, Nat.shiftLeft_eq, Nat.shiftRight_eq_div_pow,
    List.cons.injEq, and_true]
  omega

/-- The groups of the upper 64 bits. -/
def upper (bits : BitVec 128) : List Nat :=
  [bits.toNat / 2 ^ 112, bits.toNat / 2 ^ 96 % 2 ^ 16, bits.toNat / 2 ^ 80 % 2 ^ 16, bits.toNat / 2 ^ 64 % 2 ^ 16]

theorem groups_masked (bits : BitVec 128) : groups (bits >>> 64 <<< 64) = upper bits ++ [0, 0, 0, 0] := by
  have hlt := bits.isLt
  have hrange : List.range 8 = [0, 1, 2, 3, 4, 5, 6, 7] := rfl
  simp only [groups, upper, hrange, List.map_cons, List.map_nil, List.cons_append, List.nil_append,
    BitVec.toNat_shiftLeft, BitVec.toNat_ushiftRight, Nat.shiftLeft_eq, Nat.shiftRight_eq_div_pow, List.cons.injEq,
    and_true]
  omega

theorem not_is4In6_masked (bits : BitVec 128) : (v6 (bits >>> 64 <<< 64) "").is4In6 = false := by
  have hlt := bits.isLt
  simp only [is4In6, beq_eq_false_iff_ne, ne_eq, ← BitVec.toNat_inj, BitVec.toNat_shiftLeft,
    BitVec.toNat_ushiftRight, Nat.shiftLeft_eq, Nat.shiftRight_eq_div_pow, BitVec.toNat_ofNat]
  omega

theorem zeros_cons_zero (gs : List Nat) : zeros (0 :: gs) = zeros gs + 1 := rfl

theorem zeros_cons_of_ne {g : Nat} (h : g ≠ 0) (gs : List Nat) : zeros (g :: gs) = 0 := by
  simp [zeros, h]

/-- Four zero groups at the end are part of the longest run. -/
theorem zeroRun_append_zeros (a b c d : Nat) :
    zeroRun ([a, b, c, d] ++ [0, 0, 0, 0]) =
      (([a, b, c, d].rdropWhile (· == 0)).length, 8 - ([a, b, c, d].rdropWhile (· == 0)).length) := by
  have hrange : List.range 8 = [0, 1, 2, 3, 4, 5, 6, 7] := rfl
  have hnil : zeros [] = 0 := rfl
  unfold zeroRun
  simp only [List.cons_append, List.nil_append, List.length_cons, List.length_nil, hrange, List.foldl_cons,
    List.foldl_nil, List.drop_succ_cons, List.drop_zero, List.rdropWhile, List.reverse_cons, List.reverse_nil]
  by_cases ha : a = 0 <;> by_cases hb : b = 0 <;> by_cases hc : c = 0 <;> by_cases hd : d = 0 <;>
    simp [zeros_cons_zero, zeros_cons_of_ne, ha, hb, hc, hd, hnil]

theorem compressed_append_zeros (a b c d : Nat) :
    compressed ([a, b, c, d] ++ [0, 0, 0, 0]) = colons ([a, b, c, d].rdropWhile (· == 0)) ++ "::".toList := by
  have hstart : [a, b, c, d].rdropWhile (· == 0) <+: [a, b, c, d] ++ [0, 0, 0, 0] :=
    (List.rdropWhile_prefix _ _).trans (List.prefix_append _ _)
  have hlength : ([a, b, c, d].rdropWhile (· == 0)).length ≤ 4 := (List.rdropWhile_prefix _ _).length_le
  have hnil : colons [] = [] := rfl
  unfold compressed
  rw [zeroRun_append_zeros]
  dsimp only
  rw [if_neg (by omega), Nat.add_sub_of_le (by omega), ← List.prefix_iff_eq_take.mp hstart,
    List.drop_of_length_le (by simp), hnil, List.append_nil]

theorem text_masked_v4 (bits : BitVec 32) :
    ((v4 bits).masked 24).text = ['.'].intercalate
      ([bits.toNat / 2 ^ 24, bits.toNat / 2 ^ 16 % 2 ^ 8, bits.toNat / 2 ^ 8 % 2 ^ 8, 0].map (Nat.toDigits 10)) := by
  rw [← octets_masked]
  rfl

theorem text_masked_v6 (bits : BitVec 128) (zone : String) :
    ((v6 bits zone).masked 64).text = colons ((upper bits).rdropWhile (· == 0)) ++ "::".toList := by
  have hmasked : (v6 bits zone).masked 64 = v6 (bits >>> 64 <<< 64) "" := rfl
  have hgroups := groups_masked bits
  unfold upper at hgroups
  rw [hmasked, text, not_is4In6_masked, hgroups, compressed_append_zeros]
  simp [upper]

/-! ## What a prefix tells apart -/

theorem toList_prefixText (a : Addr) (n : Nat) :
    (a.prefixText n).toList = (a.masked n).text ++ '/' :: Nat.toDigits 10 n := by
  rw [prefixText, String.toList_ofList]

/-- Lists of one length that differ only in their trailing zeros are the same. -/
theorem rdropWhile_zero_inj {xs ys : List Nat} (hlength : xs.length = ys.length)
    (h : xs.rdropWhile (· == 0) = ys.rdropWhile (· == 0)) : xs = ys := by
  have hzeros : ∀ zs : List Nat, zs = zs.rdropWhile (· == 0) ++ List.replicate (zs.rtakeWhile (· == 0)).length 0 := by
    intro zs
    have htail : zs.rtakeWhile (· == 0) = List.replicate (zs.rtakeWhile (· == 0)).length 0 := by
      refine List.eq_replicate_of_mem fun z hz => ?_
      simpa using List.mem_rtakeWhile_imp hz
    rw [← htail, List.rdropWhile_append_rtakeWhile]
  have hxs := congrArg List.length (hzeros xs)
  have hys := congrArg List.length (hzeros ys)
  rw [List.length_append, List.length_replicate] at hxs hys
  rw [hzeros xs, hzeros ys, h]
  congr 2
  rw [h] at hxs
  omega

theorem prefixText_v4_inj {x y : BitVec 32} : (v4 x).prefixText 24 = (v4 y).prefixText 24 ↔ x >>> 8 = y >>> 8 := by
  have hx := x.isLt
  have hy := y.isLt
  have hnet : x >>> 8 = y >>> 8 ↔ x.toNat / 2 ^ 8 = y.toNat / 2 ^ 8 := by
    rw [← BitVec.toNat_inj, BitVec.toNat_ushiftRight, BitVec.toNat_ushiftRight, Nat.shiftRight_eq_div_pow,
      Nat.shiftRight_eq_div_pow]
  constructor
  · intro h
    have htext := congrArg String.toList h
    rw [toList_prefixText, toList_prefixText, text_masked_v4, text_masked_v4] at htext
    have hoctets := intercalate_toDigits_inj (by decide) (by decide) (by decide) (List.cons_ne_nil _ _)
      (List.cons_ne_nil _ _) (List.append_cancel_right htext)
    simp only [List.cons.injEq, and_true] at hoctets
    rw [hnet]
    omega
  · intro h
    unfold prefixText masked
    dsimp only
    rw [show 32 - 24 = 8 from rfl, h]

theorem upper_inj {x y : BitVec 128} : upper x = upper y ↔ x >>> 64 = y >>> 64 := by
  have hx := x.isLt
  have hy := y.isLt
  rw [← BitVec.toNat_inj, BitVec.toNat_ushiftRight, BitVec.toNat_ushiftRight, Nat.shiftRight_eq_div_pow,
    Nat.shiftRight_eq_div_pow]
  simp only [upper, List.cons.injEq, and_true]
  omega

theorem prefixText_v6_inj {x y : BitVec 128} {zone zone' : String} (hx : (upper x).rdropWhile (· == 0) ≠ [])
    (hy : (upper y).rdropWhile (· == 0) ≠ []) :
    (v6 x zone).prefixText 64 = (v6 y zone').prefixText 64 ↔ x >>> 64 = y >>> 64 := by
  rw [← upper_inj]
  constructor
  · intro h
    have htext := congrArg String.toList h
    rw [toList_prefixText, toList_prefixText, text_masked_v6, text_masked_v6] at htext
    have hgroups := intercalate_toDigits_inj (by decide) (by decide) (by decide) hx hy
      (List.append_cancel_right (List.append_cancel_right htext))
    exact rdropWhile_zero_inj rfl hgroups
  · intro h
    rw [← String.toList_inj, toList_prefixText, toList_prefixText, text_masked_v6, text_masked_v6, h]

/-- The width tells the two families apart. -/
theorem prefixText_ne (a b : Addr) : a.prefixText 24 ≠ b.prefixText 64 := by
  intro h
  have htext := congrArg String.toList h
  rw [toList_prefixText, toList_prefixText] at htext
  have hwidth := (List.append_inj' htext rfl).2
  revert hwidth
  decide

end Addr

end Netip
