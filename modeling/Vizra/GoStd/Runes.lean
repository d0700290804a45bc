import Vizra.GoStd.Bytes
import Vizra.GoStd.Utf8

/-!
# Strings as runes with their bytes

What ranges over a Go string rune by rune and copies parts of it (`regexp`, `strings.ToValidUTF8`) keeps the
bytes that each rune was read from: a byte that starts no well-formed sequence is read as U+FFFD and copied
as it is.
-/

namespace Go

open Utf8

structure Rune where
  char : Char
  bytes : Bytes
deriving DecidableEq

namespace Rune

/-- A rune below U+0080. -/
def ofAscii (c : Char) : Rune := ⟨c, [UInt8.ofNat c.toNat]⟩

/-- What a byte that starts no well-formed sequence is read as. -/
def bad (a : UInt8) : Rune := ⟨runeError, [a]⟩

/-- The rune was read from a well-formed sequence. -/
def valid (r : Rune) : Bool :=
  match r.bytes with
  | [a] => a < 0x80
  | _ => true

end Rune

variable {b a : UInt8} {r : Rune} {t : Bytes} {u v : List Rune}

/-- A text in ASCII. -/
def asciiRunes (s : String) : List Rune := s.toList.map Rune.ofAscii

def two (a b : UInt8) : Rune := ⟨Char.ofNat (a.toNat % 32 * 64 + payload b), [a, b]⟩

def three (a b c : UInt8) : Rune := ⟨Char.ofNat (a.toNat % 16 * 4096 + payload b * 64 + payload c), [a, b, c]⟩

def four (a b c d : UInt8) : Rune :=
  ⟨Char.ofNat (a.toNat % 8 * 262144 + payload b * 4096 + payload c * 64 + payload d), [a, b, c, d]⟩

/-- The runes of a string. -/
def decode : Bytes → List Rune
  | [] => []
  | a :: rest =>
    if a < 0x80 then ⟨Char.ofNat a.toNat, [a]⟩ :: decode rest
    else match rest with
      | [] => [.bad a]
      | b :: rest2 =>
        if isTwo a b then two a b :: decode rest2
        else match rest2 with
          | [] => .bad a :: decode [b]
          | c :: rest3 =>
            if isThree a b c then three a b c :: decode rest3
            else match rest3 with
              | [] => .bad a :: decode [b, c]
              | d :: rest4 =>
                if isFour a b c d then four a b c d :: decode rest4
                else .bad a :: decode (b :: c :: d :: rest4)

def encode (rs : List Rune) : Bytes := rs.flatMap Rune.bytes

@[simp] theorem encode_nil : encode [] = [] := rfl

@[simp] theorem encode_cons (r : Rune) (rs : List Rune) : encode (r :: rs) = r.bytes ++ encode rs := rfl

@[simp] theorem encode_append (rs rs' : List Rune) : encode (rs ++ rs') = encode rs ++ encode rs' := by
  simp [encode]

/-- `utf8.ValidString`. -/
def validString (s : Bytes) : Bool := (decode s).all Rune.valid

/-- `strings.ToValidUTF8` with an empty replacement. -/
def toValidUTF8 (s : Bytes) : Bytes := encode ((decode s).filter Rune.valid)

/-! ## Reading one rune -/

/-- The rune that is read when the bytes after its own are `t`. -/
inductive Reads : Rune → Bytes → Prop where
  | one {a : UInt8} {t : Bytes} (h : a < 0x80) : Reads ⟨Char.ofNat a.toNat, [a]⟩ t
  | two {a b : UInt8} {t : Bytes} (h : isTwo a b = true) : Reads (two a b) t
  | three {a b c : UInt8} {t : Bytes} (h : isThree a b c = true) : Reads (three a b c) t
  | four {a b c d : UInt8} {t : Bytes} (h : isFour a b c d = true) : Reads (four a b c d) t
  | bad {a : UInt8} {t : Bytes} (h : ¬ a < 0x80) (h2 : ∀ b, [b] <+: t → isTwo a b = false)
      (h3 : ∀ b c, [b, c] <+: t → isThree a b c = false)
      (h4 : ∀ b c d, [b, c, d] <+: t → isFour a b c d = false) : Reads (.bad a) t

theorem isTail_iff : isTail b = true ↔ 0x80 ≤ b.toNat ∧ b.toNat ≤ 0xBF := by
  simp [isTail, UInt8.le_iff_toNat_le]

theorem lead_of_isTwo (h : isTwo a b = true) : 0xC2 ≤ a.toNat ∧ a.toNat ≤ 0xDF ∧ isTail b = true := by
  simpa [isTwo, UInt8.le_iff_toNat_le, and_assoc] using h

theorem lead_of_isThree {c : UInt8} (h : isThree a b c = true) :
    0xE0 ≤ a.toNat ∧ a.toNat ≤ 0xEF ∧ isTail b = true ∧ isTail c = true := by
  simp only [isThree, Bool.and_eq_true, decide_eq_true_iff, UInt8.le_iff_toNat_le] at h
  exact ⟨h.1.1.1.1.1, h.1.1.1.1.2, h.1.1.1.2, h.1.1.2⟩

theorem lead_of_isFour {c d : UInt8} (h : isFour a b c d = true) :
    0xF0 ≤ a.toNat ∧ a.toNat ≤ 0xF4 ∧ isTail b = true ∧ isTail c = true ∧ isTail d = true := by
  simp only [isFour, Bool.and_eq_true, decide_eq_true_iff, UInt8.le_iff_toNat_le] at h
  exact ⟨h.1.1.1.1.1.1, h.1.1.1.1.1.2, h.1.1.1.1.2, h.1.1.1.2, h.1.1.2⟩

theorem lt_ascii_iff : a < 0x80 ↔ a.toNat < 0x80 := UInt8.lt_iff_toNat_lt

theorem decode_read (h : Reads r t) : decode (r.bytes ++ t) = r :: decode t := by
  cases h with
  | @one a _ h =>
    rw [List.singleton_append, decode.eq_def]
    simp only [h, if_true]
  | @two a b _ h =>
    have hlead := lead_of_isTwo h
    have hna : ¬ a < 0x80 := by
      rw [lt_ascii_iff]
      omega
    simp only [two, List.cons_append, List.nil_append]
    rw [decode.eq_def]
    simp only [hna, if_false, h, if_true, two]
  | @three a b c _ h =>
    have hlead := lead_of_isThree h
    have hna : ¬ a < 0x80 := by
      rw [lt_ascii_iff]
      omega
    have htwo : isTwo a b = false := by
      rw [Bool.eq_false_iff]
      intro h2
      have := lead_of_isTwo h2
      omega
    simp only [three, List.cons_append, List.nil_append]
    rw [decode.eq_def]
    simp only [hna, if_false, htwo, Bool.false_eq_true, h, if_true, three]
  | @four a b c d _ h =>
    have hlead := lead_of_isFour h
    have hna : ¬ a < 0x80 := by
      rw [lt_ascii_iff]
      omega
    have htwo : isTwo a b = false := by
      rw [Bool.eq_false_iff]
      intro h2
      have := lead_of_isTwo h2
      omega
    have hthree : isThree a b c = false := by
      rw [Bool.eq_false_iff]
      intro h3
      have := lead_of_isThree h3
      omega
    simp only [four, List.cons_append, List.nil_append]
    rw [decode.eq_def]
    simp only [hna, if_false, htwo, hthree, Bool.false_eq_true, h, if_true, four]
  | @bad a _ h h2 h3 h4 =>
    rw [Rune.bad, List.singleton_append, decode.eq_def]
    simp only [h, if_false]
    match t with
    | [] => rfl
    | [b] => simp only [h2 b ⟨[], rfl⟩, Bool.false_eq_true, if_false, Rune.bad]
    | [b, c] => simp only [h2 b ⟨[c], rfl⟩, h3 b c ⟨[], rfl⟩, Bool.false_eq_true, if_false, Rune.bad]
    | b :: c :: d :: t =>
      simp only [h2 b ⟨c :: d :: t, rfl⟩, h3 b c ⟨d :: t, rfl⟩, h4 b c d ⟨t, rfl⟩, Bool.false_eq_true,
        if_false, Rune.bad]

theorem exists_reads (a : UInt8) (s : Bytes) : ∃ r t, a :: s = r.bytes ++ t ∧ Reads r t := by
  by_cases ha : a < 0x80
  · exact ⟨_, s, rfl, .one ha⟩
  by_cases h2 : ∃ b t, s = b :: t ∧ isTwo a b = true
  · obtain ⟨b, t, rfl, h⟩ := h2
    exact ⟨_, t, rfl, .two h⟩
  by_cases h3 : ∃ b c t, s = b :: c :: t ∧ isThree a b c = true
  · obtain ⟨b, c, t, rfl, h⟩ := h3
    exact ⟨_, t, rfl, .three h⟩
  by_cases h4 : ∃ b c d t, s = b :: c :: d :: t ∧ isFour a b c d = true
  · obtain ⟨b, c, d, t, rfl, h⟩ := h4
    exact ⟨_, t, rfl, .four h⟩
  refine ⟨_, s, rfl, .bad ha ?_ ?_ ?_⟩
  · rintro b ⟨t, rfl⟩
    exact Bool.eq_false_iff.mpr fun h => h2 ⟨b, t, rfl, h⟩
  · rintro b c ⟨t, rfl⟩
    exact Bool.eq_false_iff.mpr fun h => h3 ⟨b, c, t, rfl, h⟩
  · rintro b c d ⟨t, rfl⟩
    exact Bool.eq_false_iff.mpr fun h => h4 ⟨b, c, d, t, rfl, h⟩

theorem Reads.bytes_ne_nil (h : Reads r t) : r.bytes ≠ [] := by
  cases h <;> simp [Go.two, Go.three, Go.four, Rune.bad]

/-- A string is read rune by rune. -/
theorem runes_induction {P : Bytes → Prop} (nil : P []) (rune : ∀ r t, Reads r t → P t → P (r.bytes ++ t))
    (s : Bytes) : P s := by
  induction h : s.length using Nat.strong_induction_on generalizing s with
  | _ n ih =>
    cases s with
    | nil => exact nil
    | cons a s =>
      obtain ⟨r, t, hs, hread⟩ := exists_reads a s
      have hlen : t.length < n := by
        have hpos := List.length_pos_of_ne_nil hread.bytes_ne_nil
        rw [← h, hs, List.length_append]
        omega
      rw [hs]
      exact rune r t hread (ih _ hlen t rfl)

theorem length_decode_le (s : Bytes) : (decode s).length ≤ s.length := by
  induction s using runes_induction with
  | nil => exact Nat.le_refl _
  | rune r t h ih =>
    have hpos := List.length_pos_of_ne_nil h.bytes_ne_nil
    rw [decode_read h, List.length_cons, List.length_append]
    omega

/-- A rune from a well-formed sequence is read whatever follows. -/
theorem Reads.of_valid (h : Reads r t) (hv : r.valid = true) (t' : Bytes) : Reads r t' := by
  cases h with
  | one h => exact .one h
  | two h => exact .two h
  | three h => exact .three h
  | four h => exact .four h
  | bad h _ _ _ => exact absurd hv (by simpa [Rune.valid, Rune.bad] using h)

/-- A byte that starts no well-formed sequence is not NUL. -/
theorem Reads.zero_notMem (h : Reads r t) (hv : r.valid = false) : 0 ∉ r.bytes := by
  cases h with
  | one h => exact absurd hv (by simpa [Rune.valid] using h)
  | two _ | three _ | four _ => exact absurd hv (by simp [Rune.valid, Go.two, Go.three, Go.four])
  | bad h _ _ _ =>
    intro h0
    obtain rfl := List.mem_singleton.mp h0
    exact h (by decide)

theorem toNat_ofNat {n : Nat} (hv : n < 0xD800 ∨ 0xDFFF < n ∧ n < 0x110000) : (Char.ofNat n).toNat = n := by
  rw [Char.ofNat, dif_pos hv]
  rfl

/-- A rune below U+0080 is read from its one byte. -/
theorem Reads.eq_ofAscii (h : Reads r t) (hr : r.char.toNat < 0x80) : r = Rune.ofAscii r.char := by
  -- the other forms are of larger scalar values
  cases h with
  | @one a _ h =>
    have hlt : a.toNat < 128 := by simpa [UInt8.lt_iff_toNat_lt] using h
    rw [Rune.ofAscii, toNat_ofNat (by omega), UInt8.ofNat_toNat]
  | @two a b _ h =>
    have ha := lead_of_isTwo h
    simp only [Go.two, payload] at hr
    rw [toNat_ofNat (by omega)] at hr
    omega
  | @three a b c _ h =>
    have ha := lead_of_isThree h
    simp only [isThree, Bool.and_eq_true, Bool.or_eq_true, bne_iff_ne, decide_eq_true_iff, ne_eq,
      ← UInt8.toNat_inj, UInt8.le_iff_toNat_le] at h
    have hb := isTail_iff.mp ha.2.2.1
    simp only [Go.three, payload] at hr
    simp at h
    rw [toNat_ofNat (by omega)] at hr
    omega
  | @four a b c d _ h =>
    have ha := lead_of_isFour h
    simp only [isFour, Bool.and_eq_true, Bool.or_eq_true, bne_iff_ne, decide_eq_true_iff, ne_eq,
      ← UInt8.toNat_inj, UInt8.le_iff_toNat_le] at h
    have hb := isTail_iff.mp ha.2.2.1
    simp only [Go.four, payload] at hr
    simp at h
    rw [toNat_ofNat (by omega)] at hr
    omega
  | bad _ _ _ _ =>
    have hbad : ¬ runeError.toNat < 0x80 := by decide
    exact absurd hr hbad

/-- A rune below U+0080 of a string is read from its one byte. -/
theorem eq_ofAscii_of_mem {s : Bytes} (hr : r ∈ decode s) (hlt : r.char.toNat < 0x80) : r = Rune.ofAscii r.char := by
  induction s using runes_induction with
  | nil => cases hr
  | rune r' t hread ih =>
    rw [decode_read hread] at hr
    rcases List.mem_cons.mp hr with rfl | hr
    · exact hread.eq_ofAscii hlt
    · exact ih hr

/-- U+0000 is read from a NUL byte only. -/
theorem Reads.char_ne_nul (h : Reads r t) (h0 : 0 ∉ r.bytes) : r.char ≠ Char.ofNat 0 := by
  intro hnul
  have hascii := h.eq_ofAscii (by rw [hnul]; decide)
  rw [hnul] at hascii
  rw [hascii] at h0
  exact h0 (by decide)

theorem char_ne_nul_of_mem {s : Bytes} (h : 0 ∉ s) (hr : r ∈ decode s) : r.char ≠ Char.ofNat 0 := by
  induction s using runes_induction with
  | nil => cases hr
  | rune r' t hread ih =>
    rw [List.mem_append, not_or] at h
    rw [decode_read hread] at hr
    rcases List.mem_cons.mp hr with rfl | hr
    · exact hread.char_ne_nul h.1
    · exact ih h.2 hr

theorem decode_append_of_valid {s : Bytes} (h : validString s = true) (t : Bytes) :
    decode (s ++ t) = decode s ++ decode t := by
  induction s using runes_induction with
  | nil => rfl
  | rune r u hr ih =>
    rw [validString, decode_read hr, List.all_cons, Bool.and_eq_true] at h
    rw [List.append_assoc, decode_read (hr.of_valid h.1 _), decode_read hr, ih h.2, List.cons_append]

theorem decode_toValidUTF8 (s : Bytes) : decode (toValidUTF8 s) = (decode s).filter Rune.valid := by
  unfold toValidUTF8
  induction s using runes_induction with
  | nil => rfl
  | rune r t hr ih =>
    rw [decode_read hr]
    cases hv : r.valid with
    | true =>
      rw [List.filter_cons_of_pos hv, encode_cons, decode_read (hr.of_valid hv _), ih]
    | false => rw [List.filter_cons_of_neg (by simp [hv]), ih]

theorem validString_toValidUTF8 (s : Bytes) : validString (toValidUTF8 s) = true := by
  rw [validString, decode_toValidUTF8, List.all_eq_true]
  intro r hr
  exact (List.mem_filter.mp hr).2

theorem zero_mem_toValidUTF8 (s : Bytes) : 0 ∈ toValidUTF8 s ↔ 0 ∈ s := by
  unfold toValidUTF8
  induction s using runes_induction with
  | nil => exact Iff.rfl
  | rune r t hr ih =>
    rw [decode_read hr, List.mem_append]
    cases hv : r.valid with
    | true => rw [List.filter_cons_of_pos hv, encode_cons, List.mem_append, ih]
    | false =>
      rw [List.filter_cons_of_neg (by simp [hv]), ih]
      simp [hr.zero_notMem hv]

/-- Fewer bytes after it do not change the rune. -/
theorem Reads.of_append {z : Bytes} (h : Reads r (t ++ z)) : Reads r t := by
  cases h with
  | one h => exact .one h
  | two h => exact .two h
  | three h => exact .three h
  | four h => exact .four h
  | bad h h2 h3 h4 =>
    have hpre {w : Bytes} (hw : w <+: t) : w <+: t ++ z := hw.trans (List.prefix_append t z)
    exact .bad h (fun b hb => h2 b (hpre hb)) (fun b c hb => h3 b c (hpre hb)) fun b c d hb => h4 b c d (hpre hb)

/-- Nor do more of them, if the first is not a trailing byte. -/
theorem Reads.append {z : Bytes} (h : Reads r t) (hz : ∀ b, [b] <+: z → isTail b = false) : Reads r (t ++ z) := by
  cases h with
  | one h => exact .one h
  | two h => exact .two h
  | three h => exact .three h
  | four h => exact .four h
  | bad h h2 h3 h4 =>
    -- a word that goes beyond `t` takes the first byte of `z`
    have hpre {w : Bytes} (hw : w <+: t ++ z) : w <+: t ∨ ∃ b ∈ w, isTail b = false := by
      rcases List.prefix_or_prefix_of_prefix hw (List.prefix_append t z) with hwt | ⟨v, rfl⟩
      · exact Or.inl hwt
      · cases v with
        | nil => exact Or.inl (by simp)
        | cons b v =>
          have hv := (List.prefix_append_right_inj t).mp hw
          exact Or.inr ⟨b, by simp, hz b ((List.prefix_append [b] v).trans hv)⟩
    refine .bad h ?_ ?_ ?_
    · intro b hb
      rcases hpre hb with hb | ⟨x, hmem, hx⟩
      · exact h2 b hb
      · rw [Bool.eq_false_iff]
        intro htwo
        have htail : ∀ y ∈ [b], isTail y = true := by simpa using (lead_of_isTwo htwo).2.2
        exact absurd (htail x hmem) (by simp [hx])
    · intro b c hb
      rcases hpre hb with hb | ⟨x, hmem, hx⟩
      · exact h3 b c hb
      · rw [Bool.eq_false_iff]
        intro hthree
        have htail : ∀ y ∈ [b, c], isTail y = true := by simpa using (lead_of_isThree hthree).2.2
        exact absurd (htail x hmem) (by simp [hx])
    · intro b c d hb
      rcases hpre hb with hb | ⟨x, hmem, hx⟩
      · exact h4 b c d hb
      · rw [Bool.eq_false_iff]
        intro hfour
        have htail : ∀ y ∈ [b, c, d], isTail y = true := by simpa using (lead_of_isFour hfour).2.2
        exact absurd (htail x hmem) (by simp [hx])

/-! ## Lists of runes that are read back -/

/-- The runes of some string. -/
def Canonical (rs : List Rune) : Prop := decode (encode rs) = rs

theorem canonical_nil : Canonical [] := rfl

theorem canonical_cons {rs : List Rune} : Canonical (r :: rs) ↔ Reads r (encode rs) ∧ Canonical rs := by
  constructor
  · intro h
    rw [Canonical, encode_cons] at h
    cases hb : r.bytes ++ encode rs with
    | nil =>
      rw [hb] at h
      cases h
    | cons a s =>
      obtain ⟨r', t, hs, hread⟩ := exists_reads a s
      rw [hb, hs, decode_read hread] at h
      obtain ⟨rfl, ht⟩ := List.cons.inj h
      obtain rfl := List.append_cancel_left (hb.trans hs)
      exact ⟨hread, ht⟩
  · rintro ⟨hread, hrs⟩
    rw [Canonical, encode_cons, decode_read hread, hrs]

theorem encode_decode (s : Bytes) : encode (decode s) = s := by
  induction s using runes_induction with
  | nil => rfl
  | rune r t h ih => rw [decode_read h, encode_cons, ih]

theorem canonical_decode (s : Bytes) : Canonical (decode s) := by rw [Canonical, encode_decode]

theorem Canonical.left (h : Canonical (u ++ v)) : Canonical u := by
  induction u with
  | nil => exact canonical_nil
  | cons r u ih =>
    rw [List.cons_append, canonical_cons, encode_append] at h
    obtain ⟨hread, hrest⟩ := h
    exact canonical_cons.mpr ⟨hread.of_append, ih hrest⟩

theorem Canonical.right (h : Canonical (u ++ v)) : Canonical v := by
  induction u with
  | nil => exact h
  | cons r u ih => exact ih (canonical_cons.mp h).2

theorem Canonical.append (hu : Canonical u) (hv : Canonical v) (hz : ∀ b, [b] <+: encode v → isTail b = false) :
    Canonical (u ++ v) := by
  induction u with
  | nil => exact hv
  | cons r u ih =>
    obtain ⟨hread, hrest⟩ := canonical_cons.mp hu
    rw [List.cons_append, canonical_cons, encode_append]
    exact ⟨hread.append hz, ih hrest⟩

/-- A text in ASCII can stand between any two texts. -/
theorem Canonical.insert {c : Char} {cs : List Char} (hc : ∀ x ∈ c :: cs, x.toNat < 0x80) (hu : Canonical u)
    (hv : Canonical v) : Canonical (u ++ (c :: cs).map Rune.ofAscii ++ v) := by
  have hbyte {x : Char} (hx : x.toNat < 0x80) : (UInt8.ofNat x.toNat).toNat = x.toNat :=
    UInt8.toNat_ofNat_of_lt (by change x.toNat < 256; omega)
  have hread {x : Char} (hx : x.toNat < 0x80) (t : Bytes) : Reads (Rune.ofAscii x) t := by
    have hlt : UInt8.ofNat x.toNat < 0x80 := by rw [lt_ascii_iff, hbyte hx]; exact hx
    have hone : Reads ⟨Char.ofNat (UInt8.ofNat x.toNat).toNat, [UInt8.ofNat x.toNat]⟩ t := .one hlt
    rw [hbyte hx, Char.ofNat_toNat] at hone
    exact hone
  have hright : ∀ cs : List Char, (∀ x ∈ cs, x.toNat < 0x80) → Canonical (cs.map Rune.ofAscii ++ v) := by
    intro cs
    induction cs with
    | nil => exact fun _ => hv
    | cons x cs ih =>
      intro hall
      rw [List.forall_mem_cons] at hall
      exact canonical_cons.mpr ⟨hread hall.1 _, ih hall.2⟩
  rw [List.append_assoc]
  refine hu.append (hright _ hc) ?_
  intro b hb
  have hx := hc c List.mem_cons_self
  obtain ⟨t, ht⟩ := hb
  simp only [List.map_cons, List.cons_append, encode_cons, Rune.ofAscii, List.nil_append, List.cons.injEq] at ht
  rw [Bool.eq_false_iff]
  intro htail
  have := isTail_iff.mp htail
  rw [ht.1, hbyte hx] at this
  omega

end Go
