import Vizra.Config.Config
import Vizra.GoStd.JsonDecoder
import Vizra.HttpApi.Errors

/-!
# What a claim request is refused with before `Claim` (`internal/httpapi/setup.go`)
-/

namespace Vizra.HttpApi

open Go Vizra.Configuration

/-! ## The body -/

structure ClaimOwnerRequest where
  token : String
  username : String
  email : String
  password : String
deriving DecidableEq, Repr

def claimBodyLimitBytes : Nat := 8192

/-- The fields of `claimOwnerRequest` under their JSON names. -/
def claimFields : List (Json.Field ClaimOwnerRequest) :=
  [{ name := "token", store := fun r v => (Json.string r.token v).map fun token => { r with token } },
    { name := "username", store := fun r v => (Json.string r.username v).map fun username => { r with username } },
    { name := "email", store := fun r v => (Json.string r.email v).map fun email => { r with email } },
    { name := "password", store := fun r v => (Json.string r.password v).map fun password => { r with password } }]

/-- The strict decode of `handleClaimOwner`, up to the check for a second value. -/
def decodeClaim (body : List UInt8) : Except HandlerError ClaimOwnerRequest :=
  -- `MaxBytesReader`: the bytes up to the limit, and its error behind them if there are more
  let atEnd := if claimBodyLimitBytes < body.length then Json.ReadEnd.tooLarge else .eof
  let runes := Utf8.runes (body.take claimBodyLimitBytes)
  match Json.decode atEnd { token := "", username := "", email := "", password := "" } (Json.strictStruct claimFields)
    runes with
  | .error .tooLarge =>
    .error (.coded { status := 413, code := "payload_too_large", message := "the request body is too large" })
  | .error .eof => .error (badRequest "the request body is empty")
  | .error _ => .error (badRequest "the request body is not the expected JSON object")
  | .ok (request, rest) =>
    if Json.more rest then .error (badRequest "the request body must contain exactly one JSON object")
    else .ok request

/-! ## The origin -/

def originMismatch (message : String) : HandlerError := .coded { status := 403, code := "origin_mismatch", message }

/-- The comparison of `checkOrigin`: the header, if there is one, with the configured origin, both in their normal
form. -/
def originComparison (lib : Lib) (want origin : String) : Option HandlerError :=
  if origin ≠ "" then
    let gotN := normalizeOrigin lib origin
    let wantN := normalizeOrigin lib want
    if gotN = "" ∨ wantN = "" ∨ gotN ≠ wantN then
      some (originMismatch "the request Origin does not match this instance's configured public origin")
    else none
  else none

/-- `checkOrigin`, with the `Origin` and the `Sec-Fetch-Site` header. -/
def checkOrigin (lib : Lib) (want origin secFetchSite : String) : Option HandlerError :=
  (originComparison lib want origin).or
    (if secFetchSite ∈ ["", "same-origin", "none"] then none
    else some (originMismatch "this request appears to come from another site"))

theorem originComparison_eq_none {lib : Lib} {want origin : String} (h : origin ≠ "") :
    originComparison lib want origin = none ↔
      normalizeOrigin lib origin ≠ "" ∧ normalizeOrigin lib origin = normalizeOrigin lib want := by
  unfold originComparison
  rw [if_pos h]
  simp only [ite_eq_right_iff, reduceCtorEq, imp_false, not_or, not_not]
  constructor
  · rintro ⟨hgot, -, heq⟩
    exact ⟨hgot, heq⟩
  · rintro ⟨hgot, heq⟩
    exact ⟨hgot, heq ▸ hgot, heq⟩

end Vizra.HttpApi
