import Vizra.Search.Search

/-!
# The HMAC client of the search service (`internal/search/remote.go`)

What the outside does during a call is one value: the step of `call` at which it fails, or the response.
The client itself is its two flags.
-/

namespace Vizra.Search

open Go

variable {α : Type}

/-- What happens to one request, up to the first error; errors carry their texts. -/
inductive Exchange where
  | encoding (err : String)
  | request (err : String)
  | signing (err : String)
  | transport (err : String)
  | reading (err : String)
  | response (statusCode : Nat) (body : List UInt8)

structure RemoteClient where
  faulted : Bool
  everUsed : Bool
deriving DecidableEq, Repr

/-- `NewRemote`. -/
def RemoteClient.fresh : RemoteClient := { faulted := false, everUsed := false }

def maxResponseBytes : Nat := 8 * 2 ^ 20

/-- What follows the first `": ` of a message, if it has one. -/
def redactedTransportError (msg : String) : String :=
  match msg.toList.tails.find? fun t => ['"', ':', ' '].isPrefixOf t with
  | some t => String.ofList (t.drop 3)
  | none => msg

/-- The body of `call`. -/
def exchange (path : String) (unmarshal : List UInt8 → Option α) : Exchange → Except String α
  | .encoding err => .error ("search: encoding " ++ path ++ " request: " ++ err)
  | .request err => .error err
  | .signing err => .error ("search: signing " ++ path ++ ": " ++ err)
  | .transport err => .error ("search: " ++ path ++ " is unreachable: " ++ redactedTransportError err)
  | .reading err => .error ("search: reading " ++ path ++ " response: " ++ err)
  | .response statusCode body =>
    if statusCode ≠ 200 then .error ("search: " ++ path ++ " returned HTTP " ++ toString statusCode)
    else match unmarshal (body.take maxResponseBytes) with
      | none => .error ("search: " ++ path ++ " returned an unparseable body")
      | some out => .ok out

/-- A nil slice is replaced by an empty one. -/
def SearchResult.nonNil (out : SearchResult) : SearchResult :=
  { out with results := some (out.results.getD []) }

def SuggestResult.nonNil (out : SuggestResult) : SuggestResult :=
  { out with suggestions := some (out.suggestions.getD []) }

namespace RemoteClient

/-- `call`: the deferred function records whether it failed. -/
def call (_c : RemoteClient) (path : String) (unmarshal : List UInt8 → Option α) (x : Exchange) :
    RemoteClient × Except String α :=
  let out := exchange path unmarshal x
  ({ everUsed := true, faulted := !out.toBool }, out)

variable (parseFloat : List Char → Option UInt64)

def search (c : RemoteClient) (x : Exchange) : RemoteClient × Except String SearchResult :=
  let called := c.call "/internal/v1/search"
    (Json.unmarshal SearchResult.zero (SearchResult.decoder parseFloat)) x
  (called.1, called.2.map SearchResult.nonNil)

def suggest (c : RemoteClient) (x : Exchange) : RemoteClient × Except String SuggestResult :=
  let called := c.call "/internal/v1/suggestions" (Json.unmarshal SuggestResult.zero SuggestResult.decoder) x
  (called.1, called.2.map SuggestResult.nonNil)

def publish (c : RemoteClient) (x : Exchange) : RemoteClient × Except String PublishResult :=
  c.call "/internal/v1/events" (Json.unmarshal PublishResult.zero PublishResult.decoder) x

/-- What a request to `/healthz` meets. -/
inductive Ping where
  | request (err : String)
  | transport (err : String)
  | response (statusCode : Nat)

def ping (c : RemoteClient) : Ping → RemoteClient × Option String
  | .request err => (c, some err)
  | .transport err => ({ faulted := true, everUsed := true }, some err)
  | .response statusCode =>
    if statusCode = 200 then ({ faulted := false, everUsed := true }, none)
    else ({ faulted := true, everUsed := true }, some ("search: /healthz returned " ++ toString statusCode))

/-- `Probe`: a client that has been used makes no request. -/
def probe (c : RemoteClient) (p : Ping) : RemoteClient × Health :=
  if c.everUsed then (c, if c.faulted then .degraded else .ok)
  else
    let pinged := c.ping p
    (pinged.1, if pinged.2.isSome then .degraded else .ok)

end RemoteClient

end Vizra.Search
