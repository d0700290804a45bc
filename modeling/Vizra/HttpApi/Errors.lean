import Vizra.OwnerClaim.System

/-!
# What an error of `Claim` is answered with (`internal/httpapi/setup.go`, `middleware.go`)

`mapClaimError` sees the error through `errors.Is` and `errors.As`, so an error is here what these find in
it; a `*pgconn.PgError` is its SQLSTATE and the name of the constraint.
-/

namespace Vizra.HttpApi

open Go Vizra.OwnerClaim

structure CodedError where
  status : Nat
  code : String
  message : String
deriving DecidableEq, Repr

inductive HandlerError where
  | coded (e : CodedError)
  | other
deriving DecidableEq, Repr

/-- `errorHandler`: the status and the body. The message of a 5xx stays inside. -/
def errorHandler : HandlerError → CodedError
  | .coded e => if e.status < 500 then e else { e with message := "an internal error occurred" }
  | .other => { status := 500, code := "internal_error", message := "an internal error occurred" }

/-- An error of `Claim`. -/
inductive ClaimError where
  | alreadyClaimed
  | tokenNotAccepted
  | busy
  | unavailable
  | validation (field message : String)
  | pg (code constraintName : String)
  | deadlineExceeded
  | canceled
  | other
deriving DecidableEq, Repr

def isServerUnavailable (code : String) : Bool :=
  hasPrefix code "08" || hasPrefix code "53" || code == "57P01" || code == "57P02" || code == "57P03"

def claimedMessage : String := "this instance already has an owner"

def tokenRefusedMessage : String := "that claim token was not accepted"

def conflict (message : String) : HandlerError := .coded { status := 409, code := "conflict", message }

def badRequest (message : String) : HandlerError := .coded { status := 400, code := "bad_request", message }

def unavailable (message : String) : HandlerError := .coded { status := 503, code := "unavailable", message }

def rateLimited (message : String) : HandlerError := .coded { status := 429, code := "rate_limited", message }

/-- The answer of `refuseToken`; `limited` is that of `consumeClaimFailure`. -/
def refuseToken (limited : Bool) : HandlerError :=
  if limited then rateLimited "too many failed attempts; try again shortly"
  else .coded { status := 403, code := "forbidden", message := tokenRefusedMessage }

/-- `mapClaimError`: whether it caches the claimed bit, and its answer. -/
def mapClaimError (limited : Bool) : ClaimError → Bool × HandlerError
  | .alreadyClaimed => (true, conflict claimedMessage)
  | .tokenNotAccepted => (false, refuseToken limited)
  | .busy => (false, unavailable "the server is busy; try again shortly")
  | .unavailable => (false, unavailable "the instance state could not be read")
  | .validation _ message => (false, badRequest message)
  | .pg code constraintName =>
    if isServerUnavailable code then (false, unavailable "the instance state could not be read")
    else if code == "23505" && constraintName == "users_one_owner" then (true, conflict claimedMessage)
    else if code == "23505" then (false, conflict "that username or email address is already taken")
    else if code == "23514" then (false, badRequest "one of the submitted values is not acceptable")
    else (false, .other)
  | .deadlineExceeded | .canceled => (false, unavailable "the request could not be completed in time")
  | .other => (false, .other)

/-- The SQLSTATE of an error, and the constraint it names. -/
def pgError : PgError → ClaimError
  | .check c => .pg "23514" c.text
  | .unique c => .pg "23505" c.text
  | .invalidText => .pg "22021" ""
  | .audit (.check c) => .pg "23514" c.text
  | .audit .invalidText => .pg "22021" ""

/-- The error of a call of `Claim`, unless it succeeds. -/
def claimError : Result → Option ClaimError
  | .claimed .. => none
  | .alreadyClaimed => some .alreadyClaimed
  | .tokenNotAccepted => some .tokenNotAccepted
  | .validation f m => some (.validation f m)
  | .failed e => some (pgError e)
  | .unavailable => some .unavailable
  | .minted .. | .hasUsers | .liveTokenExists _ | .superseded _ | .booted _ => some .other

end Vizra.HttpApi
