import Mathlib.Data.List.GetD
import Vizra.Jobs.Proofs.SafeErrorProofs

/-!
# Truncation of valid text

A byte of a valid string starts a rune exactly if it stands where one ends and the next begins, so backing off to
such a byte cuts the string behind as many whole runes as fit.
-/

namespace Vizra.Jobs

open Go Utf8

/-! ## Boundaries -/

/-- The length of the first `k` runes. -/
def runeEnd (s : Bytes) (k : Nat) : Nat := (encode ((decode s).take k)).length

theorem runeEnd_zero (s : Bytes) : runeEnd s 0 = 0 := by
  rw [runeEnd, List.take_zero]
  rfl

theorem runeEnd_succ {r : Rune} {t : Bytes} (h : Reads r t) (k : Nat) :
    runeEnd (r.bytes ++ t) (k + 1) = r.bytes.length + runeEnd t k := by
  rw [runeEnd, decode_read h, List.take_succ_cons, encode_cons, List.length_append, runeEnd]

theorem isTail_of_lead {a : UInt8} (h : a.toNat < 0x80 ∨ 0xBF < a.toNat) : isTail a = false := by
  rw [Bool.eq_false_iff]
  intro htail
  have := isTail_iff.mp htail
  omega

/-- The bytes of a rune behind its first are trailing bytes. -/
theorem isTail_of_reads {r : Rune} {t : Bytes} (h : Reads r t) (hv : r.valid = true) {i : Nat}
    (hi : i < r.bytes.length) : isTail (r.bytes.getD i 0) = decide (i ≠ 0) := by
  cases h with
  | @one a _ h =>
    have ha : isTail a = false := isTail_of_lead (Or.inl (lt_ascii_iff.mp h))
    match i with
    | 0 => exact ha
  | @two a b _ h =>
    obtain ⟨hmin, -, hb⟩ := lead_of_isTwo h
    have ha : isTail a = false := isTail_of_lead (Or.inr (by omega))
    match i with
    | 0 => exact ha
    | 1 => exact hb
  | @three a b c _ h =>
    obtain ⟨hmin, -, hb, hc⟩ := lead_of_isThree h
    have ha : isTail a = false := isTail_of_lead (Or.inr (by omega))
    match i with
    | 0 => exact ha
    | 1 => exact hb
    | 2 => exact hc
  | @four a b c d _ h =>
    obtain ⟨hmin, -, hb, hc, hd⟩ := lead_of_isFour h
    have ha : isTail a = false := isTail_of_lead (Or.inr (by omega))
    match i with
    | 0 => exact ha
    | 1 => exact hb
    | 2 => exact hc
    | 3 => exact hd
  | bad h _ _ _ => exact absurd hv (by simpa [Rune.valid, Rune.bad] using h)

/-- Where a rune starts in a valid string. -/
theorem runeStart_iff {s : Bytes} (h : validString s = true) {i : Nat} (hi : i < s.length) :
    runeStart (s.getD i 0) = true ↔ ∃ k, runeEnd s k = i := by
  induction s using runes_induction generalizing i with
  | nil => cases hi
  | rune r t hread ih =>
    rw [validString, decode_read hread, List.all_cons, Bool.and_eq_true] at h
    obtain ⟨hr, ht⟩ := h
    by_cases hlt : i < r.bytes.length
    · rw [List.getD_append _ _ _ _ hlt, runeStart, isTail_of_reads hread hr hlt]
      constructor
      · intro hstart
        have hzero : i = 0 := by simpa using hstart
        exact ⟨0, by rw [runeEnd_zero, hzero]⟩
      · rintro ⟨k, hk⟩
        cases k with
        | zero =>
          rw [runeEnd_zero] at hk
          simp [← hk]
        | succ k =>
          rw [runeEnd_succ hread] at hk
          omega
    · rw [Nat.not_lt] at hlt
      rw [List.length_append] at hi
      rw [List.getD_append_right _ _ _ _ hlt, ih ht (by omega)]
      constructor
      · rintro ⟨k, hk⟩
        exact ⟨k + 1, by rw [runeEnd_succ hread]; omega⟩
      · rintro ⟨k, hk⟩
        cases k with
        | zero =>
          have hpos := List.length_pos_of_ne_nil hread.bytes_ne_nil
          rw [runeEnd_zero] at hk
          omega
        | succ k =>
          rw [runeEnd_succ hread] at hk
          exact ⟨k, by omega⟩

/-! ## The loop -/

theorem backOff_start (s : Bytes) (cut : Nat) : backOff s cut = 0 ∨ runeStart (s.getD (backOff s cut) 0) = true := by
  induction cut with
  | zero => exact Or.inl rfl
  | succ cut ih =>
    rw [backOff]
    by_cases hstart : runeStart (s.getD (cut + 1) 0) = true
    · rw [if_pos hstart]
      exact Or.inr hstart
    · rw [if_neg hstart]
      exact ih

theorem le_backOff {s : Bytes} {i cut : Nat} (hi : i ≤ cut) (h : runeStart (s.getD i 0) = true) : i ≤ backOff s cut := by
  induction cut with
  | zero => omega
  | succ cut ih =>
    rw [backOff]
    by_cases hstart : runeStart (s.getD (cut + 1) 0) = true
    · rw [if_pos hstart]
      exact hi
    · rw [if_neg hstart]
      refine ih ?_
      have hne : i ≠ cut + 1 := by
        rintro rfl
        exact hstart h
      omega

/-! ## The result -/

/-- The text `p` is what the first runes of `s` are written as. -/
def IsWholeRunes (s p : Bytes) : Prop := ∃ k, p = encode ((decode s).take k)

/-- The longest prefix of `s` of at most `max` bytes that consists of whole runes. -/
structure IsLongestPrefix (max : Nat) (s p : Bytes) : Prop where
  isPrefix : p <+: s
  wholeRunes : IsWholeRunes s p
  length_le : p.length ≤ max
  longest : ∀ q, IsWholeRunes s q → q.length ≤ max → q <+: p

theorem isPrefix_of_isWholeRunes {s p : Bytes} (h : IsWholeRunes s p) : p <+: s := by
  obtain ⟨k, rfl⟩ := h
  refine ⟨encode ((decode s).drop k), ?_⟩
  rw [← encode_append, List.take_append_drop, encode_decode]

theorem validString_of_isWholeRunes {s p : Bytes} (hs : validString s = true) (h : IsWholeRunes s p) :
    validString p = true := by
  obtain ⟨k, rfl⟩ := h
  have hcanonical : Canonical ((decode s).take k ++ (decode s).drop k) := by
    rw [List.take_append_drop]
    exact canonical_decode s
  rw [validString, hcanonical.left, List.all_eq_true]
  intro r hr
  exact List.all_eq_true.mp hs r (List.mem_of_mem_take hr)

/-- The cut is behind the whole runes that fit. -/
theorem isLongestPrefix_backOff {s : Bytes} (hs : validString s = true) (hlen : errorMax < s.length) :
    IsLongestPrefix errorMax s (s.take (backOff s errorMax)) := by
  have hcut := backOff_le s errorMax
  obtain ⟨k, hk⟩ : ∃ k, runeEnd s k = backOff s errorMax := by
    rcases backOff_start s errorMax with hzero | hstart
    · exact ⟨0, by rw [runeEnd_zero, hzero]⟩
    · exact (runeStart_iff hs (by omega)).mp hstart
  have htake : ∀ q, IsWholeRunes s q → q = s.take q.length := by
    intro q hq
    exact List.prefix_iff_eq_take.mp (isPrefix_of_isWholeRunes hq)
  have hwhole : IsWholeRunes s (s.take (backOff s errorMax)) := by
    have heq := htake _ ⟨k, rfl⟩
    rw [← runeEnd, hk] at heq
    exact ⟨k, heq.symm⟩
  refine ⟨List.take_prefix _ _, hwhole, ?_, ?_⟩
  · rw [List.length_take]
    omega
  · intro q hq hqlen
    have hstart : runeStart (s.getD q.length 0) = true := by
      obtain ⟨j, rfl⟩ := hq
      exact (runeStart_iff hs (by omega)).mpr ⟨j, rfl⟩
    have hle := le_backOff hqlen hstart
    rw [htake q hq]
    exact List.take_prefix_take_left hle

/-- A valid string is kept if it has at most 2000 bytes and is cut behind the whole runes that fit otherwise; what is
written is valid and at most the mark longer. -/
theorem truncate_of_valid (s : Bytes) (hs : validString s = true) :
    (s.length ≤ errorMax → truncate s = s) ∧
      (errorMax < s.length → ∃ p, IsLongestPrefix errorMax s p ∧ truncate s = p ++ truncatedMark) ∧
      validString (truncate s) = true ∧ (truncate s).length ≤ errorMax + truncatedMark.length := by
  by_cases hlen : s.length ≤ errorMax
  · rw [truncate_of_le hlen]
    exact ⟨fun _ => rfl, fun hlong => absurd hlen (by omega), hs, by omega⟩
  · have hlong : errorMax < s.length := by omega
    have hlongest := isLongestPrefix_backOff hs hlong
    have hvalid := validString_of_isWholeRunes hs hlongest.wholeRunes
    have hrepaired : repaired s = s.take (backOff s errorMax) := if_pos hvalid
    rw [truncate_of_gt hlen, hrepaired]
    refine ⟨fun h => absurd h hlen, fun _ => ⟨_, hlongest, rfl⟩, ?_, ?_⟩
    · rw [validString, decode_append_of_valid hvalid, List.all_append, Bool.and_eq_true]
      exact ⟨hvalid, truncatedMark_valid.1⟩
    · have hle := hlongest.length_le
      rw [List.length_append]
      omega

/-- A rune of two bytes that lies across the bound. -/
def acrossBound : Bytes := List.replicate 1999 0x61 ++ [0xC3, 0xA9]

theorem truncate_of_valid_across :
    validString acrossBound = true ∧ errorMax < acrossBound.length ∧
      ∃ p, IsLongestPrefix errorMax acrossBound p ∧ truncate acrossBound = p ++ truncatedMark := by
  have hvalid : validString acrossBound = true := by decide +kernel
  have hlong : errorMax < acrossBound.length := by decide +kernel
  exact ⟨hvalid, hlong, (truncate_of_valid acrossBound hvalid).2.1 hlong⟩

end Vizra.Jobs
