import Vizra.Jobs.SafeError

/-!
# When `safeError` can be stored

`truncate` repairs what is not UTF-8 on one of its branches and keeps every NUL byte: `safeError_storable_iff`.
-/

namespace Vizra.Jobs

open Go Vizra.Pg Vizra.Obs

theorem textParam_isSome_iff {s : Bytes} : (textParam s).isSome = true ↔ validString s = true ∧ 0 ∉ s := by
  unfold textParam
  split
  · rename_i h
    simpa using h
  · rename_i h
    simpa using h

theorem length_of_textParam {s : Bytes} {x : String} (h : textParam s = some x) :
    x.toList.length = (decode s).length := by
  unfold textParam at h
  split at h
  · obtain rfl := Option.some.inj h
    simp
  · cases h

theorem storable_of_textParam {s : Bytes} {x : String} (h : textParam s = some x) : storable x = true := by
  have h0 := (textParam_isSome_iff.mp (by rw [h]; rfl)).2
  unfold textParam at h
  split at h
  · obtain rfl := Option.some.inj h
    simp only [storable, String.toList_ofList, List.all_map, List.all_eq_true]
    intro r hr
    simpa using char_ne_nul_of_mem h0 hr
  · cases h

theorem storableError_iff {s : Bytes} :
    storableError s = true ↔ (validString s = true ∧ 0 ∉ s) ∧ (decode s).length ≤ 4096 := by
  rw [← textParam_isSome_iff]
  unfold storableError
  cases h : textParam s with
  | none => simp
  | some x => simp [length_of_textParam h]

theorem backOff_le (s : Bytes) (cut : Nat) : backOff s cut ≤ cut := by
  induction cut with
  | zero => exact Nat.le_refl 0
  | succ cut ih =>
    rw [backOff]
    split
    · exact Nat.le_refl _
    · omega

/-- The part of a long message that is stored, after the repair. -/
def repaired (s : Bytes) : Bytes :=
  if validString (s.take (backOff s errorMax)) then s.take (backOff s errorMax)
  else toValidUTF8 (s.take (backOff s errorMax))

theorem validString_repaired (s : Bytes) : validString (repaired s) = true := by
  unfold repaired
  split
  · assumption
  · exact validString_toValidUTF8 _

theorem zero_mem_repaired (s : Bytes) : 0 ∈ repaired s ↔ 0 ∈ s.take (backOff s errorMax) := by
  unfold repaired
  split
  · exact Iff.rfl
  · exact zero_mem_toValidUTF8 _

theorem length_decode_repaired (s : Bytes) : (decode (repaired s)).length ≤ errorMax := by
  have hcut : (decode (s.take (backOff s errorMax))).length ≤ errorMax := by
    refine (length_decode_le _).trans ?_
    rw [List.length_take]
    exact (Nat.min_le_left _ _).trans (backOff_le s errorMax)
  unfold repaired
  split
  · exact hcut
  · rw [decode_toValidUTF8]
    exact (List.length_filter_le _ _).trans hcut

theorem truncate_of_le {s : Bytes} (h : s.length ≤ errorMax) : truncate s = s := by rw [truncate, if_pos h]

theorem truncate_of_gt {s : Bytes} (h : ¬ s.length ≤ errorMax) : truncate s = repaired s ++ truncatedMark := by
  rw [truncate, if_neg h]
  rfl

theorem truncatedMark_valid : validString truncatedMark = true ∧ 0 ∉ truncatedMark ∧
    (decode truncatedMark).length ≤ 13 := by
  decide +kernel

theorem length_decode_truncate (s : Bytes) : (decode (truncate s)).length ≤ 4096 := by
  by_cases hlen : s.length ≤ errorMax
  · rw [truncate_of_le hlen]
    exact (length_decode_le s).trans (hlen.trans (by decide))
  · have hrep := length_decode_repaired s
    have hmark := truncatedMark_valid.2.2
    rw [truncate_of_gt hlen, decode_append_of_valid (validString_repaired s), List.length_append]
    simp only [errorMax] at hrep
    omega

theorem length_decode_safeError (s : Bytes) : (decode (safeError s)).length ≤ 4096 :=
  length_decode_truncate (redact s)

theorem truncate_storable_iff (s : Bytes) :
    storableError (truncate s) = true ↔ 0 ∉ kept s ∧ (s.length ≤ errorMax → validString s = true) := by
  rw [storableError_iff, and_iff_left (length_decode_truncate s)]
  by_cases hlen : s.length ≤ errorMax
  · rw [truncate_of_le hlen, kept, if_pos hlen]
    constructor
    · rintro ⟨hv, h0⟩
      exact ⟨h0, fun _ => hv⟩
    · rintro ⟨h0, hv⟩
      exact ⟨hv hlen, h0⟩
  · have hvalid : validString (repaired s ++ truncatedMark) = true := by
      rw [validString, decode_append_of_valid (validString_repaired s), List.all_append, Bool.and_eq_true]
      exact ⟨validString_repaired s, truncatedMark_valid.1⟩
    rw [truncate_of_gt hlen, kept, if_neg hlen, List.mem_append, zero_mem_repaired]
    constructor
    · rintro ⟨-, h0⟩
      exact ⟨fun h => h0 (Or.inl h), fun h => absurd h hlen⟩
    · rintro ⟨h0, -⟩
      exact ⟨hvalid, fun h => h.elim h0 truncatedMark_valid.2.1⟩

end Vizra.Jobs
