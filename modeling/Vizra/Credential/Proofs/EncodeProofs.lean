import Mathlib.Data.String.Basic
import Vizra.Credential.Credential
import Vizra.GoStd.Strings
import Vizra.Pg.Types

/-!
# The text form of a hash fits its column

What `Encode` makes of a salt and a tag of the lengths of ADR-003 starts with `$argon2id$`, has no
character that `text` refuses and stays within 1024 octets.
-/

namespace Vizra.Credential

open Go Vizra.Pg

theorem toList_encode (p : Params) (salt tag : List UInt8) :
    (encode p salt tag).toList =
      (phcHeader p).toList ++ (Base64.encode salt ++ '$' :: Base64.encode tag) := by
  have hdollar : "$".toList = ['$'] := by decide
  simp [encode, hdollar]

theorem phcHeader_adr003 : phcHeader adr003 = "$argon2id$v=19$m=19456,t=2,p=1$" := by decide +kernel

theorem utf8Len_le (cs : List Char) : String.utf8Len cs ≤ 4 * cs.length := by
  induction cs with
  | nil => simp
  | cons c cs ih =>
    have := c.utf8Size_le_four
    simp only [String.utf8Len_cons, List.length_cons]
    omega

theorem hasPrefix_encode (salt tag : List UInt8) : hasPrefix (encode adr003 salt tag) "$argon2id$" = true := by
  rw [hasPrefix, toList_encode, phcHeader_adr003, List.isPrefixOf_iff_prefix]
  exact List.IsPrefix.trans (by decide) (List.prefix_append _ _)

theorem size_encode {salt tag : List UInt8} (hs : salt.length = 16) (ht : tag.length = 32) :
    1 ≤ (encode adr003 salt tag).utf8ByteSize ∧ (encode adr003 salt tag).utf8ByteSize ≤ 1024 := by
  have hhead : ("$argon2id$v=19$m=19456,t=2,p=1$" : String).utf8ByteSize = 31 := by decide
  have hdollar : ("$" : String).utf8ByteSize = 1 := by decide
  have hsalt := utf8Len_le (Base64.encode salt)
  have htag := utf8Len_le (Base64.encode tag)
  rw [Base64.length_encode] at hsalt htag
  simp only [encode, phcHeader_adr003, String.utf8ByteSize_append, String.utf8ByteSize_ofList, hhead, hdollar]
  omega

theorem storable_encode (salt tag : List UInt8) : storable (encode adr003 salt tag) = true := by
  have halpha : Base64.alphabet.all (fun c => c != Char.ofNat 0) = true := by decide
  have hpart : ∀ bs, (Base64.encode bs).all (fun c => c != Char.ofNat 0) = true := by
    intro bs
    rw [List.all_eq_true]
    exact fun c hc => List.all_eq_true.mp halpha c (Base64.encode_mem c hc)
  have hhead : "$argon2id$v=19$m=19456,t=2,p=1$".toList.all (fun c => c != Char.ofNat 0) = true := by decide
  have hdollar : ('$' != Char.ofNat 0) = true := by decide
  rw [storable, toList_encode, phcHeader_adr003, List.all_append, hhead, List.all_append, hpart,
    List.all_cons, hpart, hdollar]
  rfl

end Vizra.Credential
