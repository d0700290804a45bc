import Vizra.GoStd.Bytes
import Vizra.GoStd.Time

/-!
# The signature scheme of the search boundary (`internal/search/hmac.go`)

Strings are lists of bytes, a header maps a canonical name to its values. SHA-256 and HMAC-SHA256 are
arbitrary functions into 32 bytes, and the randomness of a nonce is an argument.
-/

namespace Vizra.Search

open Go

inductive SignatureError where
  | signatureMissing
  | methodNotCanonical
  | signatureInvalid
  | timestampSkew
  | keyTooShort
  -- the error of the source of randomness
  | random (err : String)
deriving DecidableEq, Repr

def SignatureError.text : SignatureError → String
  | signatureMissing => "search: signature headers are missing or malformed"
  | methodNotCanonical => "search: the HTTP method must be uppercase"
  | signatureInvalid => "search: signature does not verify"
  | timestampSkew => "search: timestamp is outside the acceptance window"
  | keyTooShort => "search: shared secret is shorter than 32 bytes"
  | random err => err

/-! ## Headers -/

def Header : Type := String → List Bytes

namespace Header

def values (h : Header) (name : String) : List Bytes := h name

def get (h : Header) (name : String) : Bytes := (h name).headD []

def set (h : Header) (name : String) (value : Bytes) : Header :=
  fun other => if other = name then [value] else h other

end Header

def headerTimestamp : String := "X-Vizra-Timestamp"

def headerNonce : String := "X-Vizra-Nonce"

def headerSignature : String := "X-Vizra-Signature"

def signatureVersion : Bytes := ascii "v1"

def maxClockSkew : Duration := 300 * second

def minTimestamp : Int := 1000000000

def maxTimestamp : Int := 4102444800

def minKeyBytes : Nat := 32

def newline : UInt8 := 0x0A

/-- `Time.Unix`: the whole seconds, rounded down. -/
def unix (now : Instant) : Int := now / second

/-! ## The signed text -/

def canonicalString (method path timestamp nonce bodyHash : Bytes) : Bytes :=
  signatureVersion ++ newline :: (method ++ newline :: (path ++ newline :: (timestamp ++ newline ::
    (nonce ++ newline :: bodyHash))))

def validateMethod (method : Bytes) : Except SignatureError Unit :=
  if method.isEmpty then .error .methodNotCanonical
  else if method.any fun b => b < 0x41 || 0x5A < b then .error .methodNotCanonical
  else .ok ()

/-- `strconv.ParseInt` on a string of decimal digits. -/
def parseDecimal (raw : Bytes) : Option Int :=
  if decimalValue raw < 2 ^ 63 then some (decimalValue raw) else none

def validateTimestamp (raw : Bytes) : Except SignatureError Int :=
  match raw with
  | [] => .error .signatureMissing
  | first :: _ =>
    if first < 0x31 || 0x39 < first then .error .signatureMissing
    else if raw.any fun b => !isDecimal b then .error .signatureMissing
    else if 19 < raw.length then .error .timestampSkew
    else match parseDecimal raw with
      | none => .error .signatureMissing
      | some secs => if secs < minTimestamp ∨ maxTimestamp < secs then .error .timestampSkew else .ok secs

def validateNonce (nonce : Bytes) : Except SignatureError Unit :=
  if nonce.length < 32 ∨ nonce.length % 2 ≠ 0 ∨ 128 < nonce.length then .error .signatureMissing
  else if nonce.any fun b => !isLowerHex b then .error .signatureMissing
  else .ok ()

def withinWindow (secs : Int) (now : Instant) : Bool :=
  if secs < minTimestamp ∨ maxTimestamp < secs then false
  else if unix now < minTimestamp ∨ maxTimestamp < unix now then false
  else
    let delta := unix now - secs
    (if delta < 0 then -delta else delta) ≤ maxClockSkew / second

/-! ## Signing and verifying -/

section

variable (sha256 : Bytes → Vector UInt8 32) (hmac : Bytes → Bytes → Vector UInt8 32)

def bodyHash (body : Bytes) : Bytes := hexEncode (sha256 body).toList

def sign (key method path timestamp nonce body : Bytes) : Except SignatureError Bytes :=
  if key.length < minKeyBytes then .error .keyTooShort
  else match validateMethod method with
    | .error err => .error err
    | .ok _ =>
      let mac := hmac key (canonicalString method path timestamp nonce (bodyHash sha256 body))
      .ok (signatureVersion ++ ascii "=" ++ hexEncode mac.toList)

def newNonce (random : Except String (Vector UInt8 16)) : Except SignatureError Bytes :=
  match random with
  | .error err => .error (.random err)
  | .ok b => .ok (hexEncode b.toList)

structure Request where
  method : Bytes
  escapedPath : Bytes
  header : Header

def signRequest (req : Request) (key body : Bytes) (now : Instant)
    (random : Except String (Vector UInt8 16)) : Except SignatureError Request :=
  let ts := formatInt (unix now)
  match newNonce random with
  | .error err => .error err
  | .ok nonce =>
    match sign sha256 hmac key req.method req.escapedPath ts nonce body with
    | .error err => .error err
    | .ok sig =>
      .ok { req with header := ((req.header.set headerTimestamp ts).set headerNonce nonce).set headerSignature sig }

def verify (key method path : Bytes) (header : Header) (body : Bytes) (now : Instant) :
    Except SignatureError Unit :=
  if key.length < minKeyBytes then .error .keyTooShort
  else match validateMethod method with
    | .error err => .error err
    | .ok _ =>
      let ts := header.get headerTimestamp
      let nonce := header.get headerNonce
      let sig := header.get headerSignature
      if ts = [] ∨ nonce = [] ∨ sig = [] then .error .signatureMissing
      else if (header.values headerTimestamp).length ≠ 1 ∨ (header.values headerNonce).length ≠ 1 ∨
          (header.values headerSignature).length ≠ 1 then .error .signatureMissing
      else match validateNonce nonce with
        | .error err => .error err
        | .ok _ =>
          if ¬ (signatureVersion ++ ascii "=").isPrefixOf sig then .error .signatureMissing
          else match validateTimestamp ts with
            | .error err => .error err
            | .ok secs =>
              if ¬ withinWindow secs now then .error .timestampSkew
              else match sign sha256 hmac key method path ts nonce body with
                | .error err => .error err
                | .ok want => if want = sig then .ok () else .error .signatureInvalid

end

end Vizra.Search
