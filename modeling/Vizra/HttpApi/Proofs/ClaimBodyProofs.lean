import Vizra.GoStd.Bytes
import Vizra.HttpApi.ClaimRequest

/-!
# Proofs: which bodies a claim request gets past the decoder with

The decoder accepts `null` for a struct, and `More` is made for the elements of an array: it finds nothing where a
closing bracket follows. So a body that is accepted is one JSON object with known fields exactly if it ends cleanly.
-/

namespace Vizra.HttpApi

open Go

/-- The whole body is one JSON object with known fields; spaces may surround it. -/
def WholeObject (body : List UInt8) : Prop :=
  ∃ members, Json.parse body = some (.obj members) ∧ ∀ m ∈ members, (Json.findField claimFields m.1).isSome = true

def isKnownObject : Option Json → Bool
  | some (.obj members) => members.all fun m => (Json.findField claimFields m.1).isSome
  | _ => false

theorem wholeObject_iff {body : List UInt8} : WholeObject body ↔ isKnownObject (Json.parse body) = true := by
  unfold WholeObject isKnownObject
  constructor
  · rintro ⟨members, hparse, hknown⟩
    rw [hparse]
    exact List.all_eq_true.mpr hknown
  · intro h
    split at h
    · rename_i members hparse
      exact ⟨members, hparse, List.all_eq_true.mp h⟩
    · cases h

instance (body : List UInt8) : Decidable (WholeObject body) := decidable_of_iff _ wholeObject_iff.symm

/-- A body within the limit that is accepted: a value that fits the struct, and nothing behind it that `More` finds. -/
theorem read_of_decodeClaim {body : List UInt8} {request : ClaimOwnerRequest}
    (hlimit : body.length ≤ claimBodyLimitBytes) (h : decodeClaim body = .ok request) :
    ∃ v rest, Json.readValue .eof Json.Scanner.start (Utf8.runes body) = .ok (v, rest) ∧ Json.more rest = false ∧
      (v = .null ∨
        ∃ members, v = .obj members ∧ ∀ m ∈ members, (Json.findField claimFields m.1).isSome = true) := by
  unfold decodeClaim at h
  rw [if_neg (by omega), List.take_of_length_le hlimit] at h
  dsimp only at h
  split at h
  case h_1 => cases h
  case h_2 => cases h
  case h_3 => cases h
  case h_4 request' rest hdecode =>
    obtain ⟨v, hread, hstore⟩ := Json.decode_eq_ok hdecode
    by_cases hmore : Json.more rest = true
    · rw [if_pos hmore] at h
      cases h
    · exact ⟨v, rest, hread, Bool.eq_false_of_not_eq_true hmore, Json.strictStruct_eq_some hstore⟩

/-- A body that is accepted is one JSON object with known fields exactly if no beginning of it that is a JSON text is
`null` or is followed by a closing bracket. -/
theorem decodeClaim_whole_object_iff {body : List UInt8} {request : ClaimOwnerRequest}
    (hlimit : body.length ≤ claimBodyLimitBytes) (h : decodeClaim body = .ok request) :
    WholeObject body ↔ Json.EndsCleanly (Utf8.runes body) := by
  obtain ⟨v, rest, hread, hmore, hstruct⟩ := read_of_decodeClaim hlimit h
  constructor
  · rintro ⟨members, hparse, -⟩
    rw [Json.parse_eq_document] at hparse
    exact Json.endsCleanly_of_document hparse (by simp)
  · intro hclean
    obtain ⟨hdocument, hnull⟩ := Json.document_of_endsCleanly hread hmore hclean
    rcases hstruct with hv | ⟨members, rfl, hknown⟩
    · exact absurd hv hnull
    · rw [← Json.parse_eq_document] at hdocument
      exact ⟨members, hdocument, hknown⟩

theorem decodeClaim_whole_object_iff_token :
    WholeObject (ascii " \x7b\"token\":\"t\"\x7d ") ∧
      Json.EndsCleanly (Utf8.runes (ascii " \x7b\"token\":\"t\"\x7d ")) := by
  have hok : decodeClaim (ascii " \x7b\"token\":\"t\"\x7d ") =
      .ok { token := "t", username := "", email := "", password := "" } := by decide +kernel
  have hwhole : WholeObject (ascii " \x7b\"token\":\"t\"\x7d ") := by decide +kernel
  exact ⟨hwhole, (decodeClaim_whole_object_iff (by decide) hok).mp hwhole⟩

/-- Three bodies that are accepted and are no JSON object: text behind a closing bracket, and `null`. -/
theorem decodeClaim_accepts_more :
    (∃ request, decodeClaim (ascii "\x7b\"token\":\"t\"\x7d\x7d") = .ok request) ∧
      ¬ WholeObject (ascii "\x7b\"token\":\"t\"\x7d\x7d") ∧
      (∃ request, decodeClaim (ascii "\x7b\"token\":\"t\"\x7d ] junk") = .ok request) ∧
      ¬ WholeObject (ascii "\x7b\"token\":\"t\"\x7d ] junk") ∧
      (∃ request, decodeClaim (ascii "null") = .ok request) ∧ ¬ WholeObject (ascii "null") := by
  refine ⟨⟨{ token := "t", username := "", email := "", password := "" }, ?_⟩, ?_,
    ⟨{ token := "t", username := "", email := "", password := "" }, ?_⟩, ?_,
    ⟨{ token := "", username := "", email := "", password := "" }, ?_⟩, ?_⟩ <;> decide +kernel

end Vizra.HttpApi
