import Vizra.GoStd.Base64
import Vizra.GoStd.Scan

/-!
# Password hashes (`internal/credential/credential.go`)

The bounds on a password, the text form of a hash and its parser, and `Verify`. The derivation itself is
`argon2.IDKey`, a parameter of what calls it; a hash is known here by the salt and the tag it puts into that form.
A string is its runes: a byte that is no UTF-8 would be read as U+FFFD, and no check of the parser tells the two
apart.
-/

namespace Vizra.Credential

structure Params where
  memory : UInt32
  time : UInt32
  parallelism : UInt8
  saltLen : UInt32
  keyLen : UInt32

def adr003 : Params := { memory := 19456, time := 2, parallelism := 1, saltLen := 16, keyLen := 32 }

def minPasswordRunes : Nat := 12
def maxPasswordRunes : Nat := 256
def maxPasswordBytes : Nat := 1024

def argon2Version : Nat := 19

/-- What stands before the salt in a PHC string. -/
def phcHeader (p : Params) : String :=
  "$argon2id$v=" ++ toString argon2Version ++ "$m=" ++ toString p.memory ++ ",t=" ++ toString p.time ++
    ",p=" ++ toString p.parallelism ++ "$"

/-- `Encode`: the PHC string. -/
def encode (p : Params) (salt tag : List UInt8) : String :=
  phcHeader p ++ String.ofList (Go.Base64.encode salt) ++ "$" ++ String.ofList (Go.Base64.encode tag)

/-- Why `Decode` refuses a string. -/
inductive DecodeError where
  -- not an argon2id PHC string
  | notPHC
  | version
  | unsupportedVersion (version : Int)
  | parameters
  | salt
  | tag
deriving DecidableEq, Repr

/-- `Sscanf(s, "m=%d,t=%d,p=%d", …)`: memory, time and parallelism. -/
def scanParams (s : List Char) : Option (Nat × Nat × Nat) := do
  let s ← Go.scanLiteral "m=".toList s
  let (memory, s) ← Go.scanUint 32 s
  let s ← Go.scanLiteral ",t=".toList s
  let (time, s) ← Go.scanUint 32 s
  let s ← Go.scanLiteral ",p=".toList s
  let (parallelism, _) ← Go.scanUint 8 s
  return (memory, time, parallelism)

/-- `Decode`: parameters, salt and tag. -/
def decode (phc : String) : Except DecodeError (Params × List UInt8 × List UInt8) :=
  match phc.toList.splitOn '$' with
  | [empty, name, version, params, salt, tag] =>
    if empty ≠ [] ∨ name ≠ "argon2id".toList then .error .notPHC
    else match (Go.scanLiteral "v=".toList version).bind Go.scanInt with
      | none => .error .version
      | some (version, _) =>
        if version ≠ argon2Version then .error (.unsupportedVersion version)
        else match scanParams params with
          | none => .error .parameters
          | some (memory, time, parallelism) =>
            match Go.Base64.decode salt with
            | none => .error .salt
            | some salt =>
              match Go.Base64.decode tag with
              | none => .error .tag
              | some tag =>
                .ok ({ memory := .ofNat memory, time := .ofNat time, parallelism := .ofNat parallelism
                       saltLen := .ofNat salt.length, keyLen := .ofNat tag.length }, salt, tag)
  | _ => .error .notPHC

/-- `argon2.IDKey`; a panic is `none`. -/
abbrev IDKey : Type :=
  (password salt : List UInt8) → (time memory : UInt32) → (threads : UInt8) → (keyLen : UInt32) → Option (List UInt8)

/-- `Verify`; a panic is `none`. -/
def verify (idKey : IDKey) (phc : String) (password : List UInt8) : Option (Except DecodeError Bool) :=
  match decode phc with
  | .error e => some (.error e)
  | .ok (p, salt, tag) =>
    (idKey password salt p.time p.memory p.parallelism p.keyLen).map fun got => .ok (got == tag)

end Vizra.Credential
