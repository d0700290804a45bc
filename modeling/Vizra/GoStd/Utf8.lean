import Mathlib.Data.UInt

/-!
# `unicode/utf8`

The runes of a byte string, as `DecodeRune` yields them one after another: a byte that starts no
well-formed sequence is one `RuneError`.
-/

namespace Go.Utf8

def runeError : Char := Char.ofNat 0xFFFD

def isTail (b : UInt8) : Bool := 0x80 ≤ b && b ≤ 0xBF

def isTwo (a b : UInt8) : Bool := 0xC2 ≤ a && a ≤ 0xDF && isTail b

def isThree (a b c : UInt8) : Bool :=
  0xE0 ≤ a && a ≤ 0xEF && isTail b && isTail c && (a != 0xE0 || 0xA0 ≤ b) && (a != 0xED || b ≤ 0x9F)

def isFour (a b c d : UInt8) : Bool :=
  0xF0 ≤ a && a ≤ 0xF4 && isTail b && isTail c && isTail d && (a != 0xF0 || 0x90 ≤ b) && (a != 0xF4 || b ≤ 0x8F)

/-- The low bits of a trailing byte. -/
def payload (b : UInt8) : Nat := b.toNat % 64

def runes : List UInt8 → List Char
  | [] => []
  | a :: rest =>
    if a < 0x80 then Char.ofNat a.toNat :: runes rest
    else match rest with
      | [] => [runeError]
      | b :: rest2 =>
        if isTwo a b then Char.ofNat (a.toNat % 32 * 64 + payload b) :: runes rest2
        else match rest2 with
          | [] => runeError :: runes [b]
          | c :: rest3 =>
            if isThree a b c then
              Char.ofNat (a.toNat % 16 * 4096 + payload b * 64 + payload c) :: runes rest3
            else match rest3 with
              | [] => runeError :: runes [b, c]
              | d :: rest4 =>
                if isFour a b c d then
                  Char.ofNat (a.toNat % 8 * 262144 + payload b * 4096 + payload c * 64 + payload d) ::
                    runes rest4
                else runeError :: runes (b :: c :: d :: rest4)

end Go.Utf8
