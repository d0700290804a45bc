import Mathlib.Data.Bool.AllAny
import Mathlib.Data.List.GetD
import Mathlib.Data.UInt

/-!
# `base64.RawStdEncoding`

Three bytes become four characters; one or two bytes at the end become two or three, without padding. The decoder
skips CR and LF wherever they stand, and does not look at the bits that are left over at the end.
-/

namespace Go.Base64

def alphabet : List Char := "ABCDEFGHIJKLMNOPQRSTUVWXYZabcdefghijklmnopqrstuvwxyz0123456789+/".toList

/-- The character of the low six bits. -/
def sextet (n : Nat) : Char := alphabet.getD (n % 64) 'A'

/-- `EncodeToString`, as a list of characters. -/
def encode : List UInt8 → List Char
  | a :: b :: c :: rest =>
    let n := a.toNat * 65536 + b.toNat * 256 + c.toNat
    sextet (n / 262144) :: sextet (n / 4096) :: sextet (n / 64) :: sextet n :: encode rest
  | [a, b] =>
    let n := a.toNat * 65536 + b.toNat * 256
    [sextet (n / 262144), sextet (n / 4096), sextet (n / 64)]
  | [a] =>
    let n := a.toNat * 65536
    [sextet (n / 262144), sextet (n / 4096)]
  | [] => []

/-- `decodeMap`. -/
def value (c : Char) : Option Nat := alphabet.idxOf? c

def isLineBreak (c : Char) : Bool := c == '\n' || c == '\r'

/-- The bytes of sextets; a single one at the end is corrupt input. -/
def bytesOf : List Nat → Option (List UInt8)
  | a :: b :: c :: d :: rest =>
    let n := a * 262144 + b * 4096 + c * 64 + d
    (bytesOf rest).map fun bs => UInt8.ofNat (n / 65536) :: UInt8.ofNat (n / 256) :: UInt8.ofNat n :: bs
  | [a, b, c] =>
    let n := a * 262144 + b * 4096 + c * 64
    some [UInt8.ofNat (n / 65536), UInt8.ofNat (n / 256)]
  | [a, b] =>
    let n := a * 262144 + b * 4096
    some [UInt8.ofNat (n / 65536)]
  | [_] => none
  | [] => some []

/-- `DecodeString`; its error is `none`. -/
def decode (s : List Char) : Option (List UInt8) :=
  ((s.filter fun c => !isLineBreak c).mapM value).bind bytesOf

theorem sextet_mem (n : Nat) : sextet n ∈ alphabet := by
  have h : n % 64 < alphabet.length := Nat.mod_lt n (by decide)
  rw [sextet, List.getD_eq_getElem _ _ h]
  exact List.getElem_mem h

theorem encode_mem {bs : List UInt8} : ∀ c ∈ encode bs, c ∈ alphabet := by
  fun_induction encode bs with
  | case1 a b c rest n ih =>
    intro x hx
    simp only [List.mem_cons] at hx
    rcases hx with rfl | rfl | rfl | rfl | hx
    · exact sextet_mem _
    · exact sextet_mem _
    · exact sextet_mem _
    · exact sextet_mem _
    · exact ih x hx
  | case2 a b n => simp [sextet_mem]
  | case3 a n => simp [sextet_mem]
  | case4 => simp

theorem length_encode (bs : List UInt8) : (encode bs).length = (4 * bs.length + 2) / 3 := by
  fun_induction encode bs with
  | case1 a b c rest n ih => simp only [List.length_cons, ih]; omega
  | case2 a b n => simp
  | case3 a n => simp
  | case4 => rfl

/-! ## Decoding -/

theorem value_sextet (n : Nat) : value (sextet n) = some (n % 64) := by
  have hall : ∀ i < 64, value (alphabet.getD i 'A') = some i := by decide +kernel
  exact hall (n % 64) (Nat.mod_lt n (by decide))

theorem isLineBreak_of_mem {c : Char} (h : c ∈ alphabet) : isLineBreak c = false := by
  have hall : ∀ d ∈ alphabet, isLineBreak d = false := List.all_iff_forall_prop.mp (by decide)
  exact hall c h

/-- The sextets that are encoded. -/
def sextets : List UInt8 → List Nat
  | a :: b :: c :: rest =>
    let n := a.toNat * 65536 + b.toNat * 256 + c.toNat
    n / 262144 % 64 :: n / 4096 % 64 :: n / 64 % 64 :: n % 64 :: sextets rest
  | [a, b] =>
    let n := a.toNat * 65536 + b.toNat * 256
    [n / 262144 % 64, n / 4096 % 64, n / 64 % 64]
  | [a] =>
    let n := a.toNat * 65536
    [n / 262144 % 64, n / 4096 % 64]
  | [] => []

theorem mapM_value_encode (bs : List UInt8) : (encode bs).mapM value = some (sextets bs) := by
  fun_induction encode bs with
  | case1 a b c rest n ih =>
    simp only [List.mapM_cons, value_sextet, ih, sextets]
    rfl
  | case2 a b n =>
    simp only [List.mapM_cons, value_sextet, sextets]
    rfl
  | case3 a n =>
    simp only [List.mapM_cons, value_sextet, sextets]
    rfl
  | case4 => rfl

theorem ofNat_eq {n : Nat} {b : UInt8} (h : n % 256 = b.toNat) : UInt8.ofNat n = b := by
  apply UInt8.toNat_inj.mp
  rw [UInt8.toNat_ofNat', h]

theorem bytesOf_sextets (bs : List UInt8) : bytesOf (sextets bs) = some bs := by
  fun_induction sextets bs with
  | case1 a b c rest n ih =>
    have ha := a.toNat_lt
    have hb := b.toNat_lt
    have hc := c.toNat_lt
    have hn : n / 262144 % 64 * 262144 + n / 4096 % 64 * 4096 + n / 64 % 64 * 64 + n % 64 = n := by omega
    have h1 : UInt8.ofNat (n / 65536) = a := ofNat_eq (by omega)
    have h2 : UInt8.ofNat (n / 256) = b := ofNat_eq (by omega)
    have h3 : UInt8.ofNat n = c := ofNat_eq (by omega)
    simp only [bytesOf, ih, hn, h1, h2, h3, Option.map_some]
  | case2 a b n =>
    have ha := a.toNat_lt
    have hb := b.toNat_lt
    have hn : n / 262144 % 64 * 262144 + n / 4096 % 64 * 4096 + n / 64 % 64 * 64 = n := by omega
    have h1 : UInt8.ofNat (n / 65536) = a := ofNat_eq (by omega)
    have h2 : UInt8.ofNat (n / 256) = b := ofNat_eq (by omega)
    simp only [bytesOf, hn, h1, h2]
  | case3 a n =>
    have ha := a.toNat_lt
    have hn : n / 262144 % 64 * 262144 + n / 4096 % 64 * 4096 = n := by omega
    have h1 : UInt8.ofNat (n / 65536) = a := ofNat_eq (by omega)
    simp only [bytesOf, hn, h1]
  | case4 => rfl

theorem decode_encode (bs : List UInt8) : decode (encode bs) = some bs := by
  have hfilter : (encode bs).filter (fun c => !isLineBreak c) = encode bs := by
    rw [List.filter_eq_self]
    intro c hc
    rw [isLineBreak_of_mem (encode_mem c hc)]
    rfl
  rw [decode, hfilter, mapM_value_encode, Option.bind_some, bytesOf_sextets]

theorem length_bytesOf {ns : List Nat} {bs : List UInt8} (h : bytesOf ns = some bs) : bs.length = 3 * ns.length / 4 := by
  induction ns using bytesOf.induct generalizing bs with
  | case1 a b c d rest ih =>
    obtain ⟨tail, htail, rfl⟩ := Option.map_eq_some_iff.mp h
    simp only [List.length_cons, ih htail]
    omega
  | case2 a b c =>
    cases h
    simp only [List.length_cons, List.length_nil]
  | case3 a b =>
    cases h
    simp only [List.length_cons, List.length_nil]
  | case4 a => cases h
  | case5 =>
    cases h
    rfl

theorem length_mapM {α β : Type} {f : α → Option β} {l : List α} {bs : List β} (h : l.mapM f = some bs) :
    bs.length = l.length := by
  induction l generalizing bs with
  | nil =>
    cases h
    rfl
  | cons a l ih =>
    rw [List.mapM_cons] at h
    obtain ⟨b, -, h⟩ := Option.bind_eq_some_iff.mp h
    obtain ⟨bs', hbs', h⟩ := Option.bind_eq_some_iff.mp h
    cases h
    rw [List.length_cons, List.length_cons, ih hbs']

/-- Three bytes for four characters. -/
theorem length_decode {s : List Char} {bs : List UInt8} (h : decode s = some bs) :
    bs.length = 3 * (s.filter fun c => !isLineBreak c).length / 4 := by
  obtain ⟨ns, hns, h⟩ := Option.bind_eq_some_iff.mp h
  rw [length_bytesOf h, length_mapM hns]

end Go.Base64
