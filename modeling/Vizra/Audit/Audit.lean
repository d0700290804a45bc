import Vizra.GoStd.Netip
import Vizra.Pg.Types
import Vizra.Regex.Basic

/-!
# Audit events (`internal/audit/audit.go`, migration 0003)

A row of `audit_events` without its random id and its time, the address prefix that `IPPrefix` makes of a remote
address, and `Emit`, which drops an address prefix that the column would refuse.
-/

namespace Vizra.Audit

open Vizra.Pg Regex

inductive ActorKind where
  | user
  | apiKey
  | system
  | anonymous
deriving DecidableEq, Repr

inductive Action where
  | ownerClaimMinted
  | ownerClaimSuperseded
  | ownerClaimRefused
  | ownerClaimRateLimited
  | ownerClaimSucceeded
deriving DecidableEq, Repr

inductive SubjectType where
  | ownerClaimToken
  | user
deriving DecidableEq, Repr

/-- The `after` document of the events that carry one. -/
inductive After where
  | expiresAt (t : Time)
  | account (username role : String)
  | reason (reason : String)
  | bucket (bucket : String)
deriving DecidableEq, Repr

/-- `Event`, and the row it becomes. -/
structure Event where
  actor_kind : ActorKind
  actor_user_id : Option Uuid := none
  action : Action
  subject_type : SubjectType
  subject_id : Option String
  after : Option After := none
  correlation_id : Option String := none
  ipPrefix : Option String := none
deriving DecidableEq

/-- The one reason recorded for a refusal. -/
def reasonTokenNotAccepted : String := "token_not_accepted"

def digitIn (a b : Char) : Rx Char := .cls fun c => a ≤ c && c ≤ b

def isHexDigit (c : Char) : Bool := ('0' ≤ c && c ≤ '9') || ('a' ≤ c && c ≤ 'f')

/-- `(25[0-5]|2[0-4][0-9]|1[0-9]{2}|[1-9]?[0-9])`. -/
def octet : Rx Char :=
  .alt (.seq (.text "25".toList) (digitIn '0' '5'))
    (.alt (.seq (.char '2') (.seq (digitIn '0' '4') (digitIn '0' '9')))
      (.alt (.seq (.char '1') (.pow (digitIn '0' '9') 2))
        (.seq (.opt (digitIn '1' '9')) (digitIn '0' '9'))))

/-- `^(octet\.){3}0(/24)?$`. -/
def ipv4PrefixRe : Rx Char :=
  .seq (.pow (.seq octet (.char '.')) 3) (.seq (.char '0') (.opt (.text "/24".toList)))

/-- `^[0-9a-f]{1,4}(:[0-9a-f]{1,4}){0,3}::(/(48|64))?$`. -/
def ipv6PrefixRe : Rx Char :=
  let group := Rx.between (.cls isHexDigit) 1 4
  .seq group (.seq (.upTo (.seq (.char ':') group) 3)
    (.seq (.text "::".toList) (.opt (.seq (.char '/') (.alt (.text "48".toList) (.text "64".toList))))))

def valid (s : String) : Bool := ipv4PrefixRe.accepts s.toList || ipv6PrefixRe.accepts s.toList

/-- The address `IPPrefix` works on. -/
def addrOf (net : Netip.Parsers) (remoteAddr : String) : Option Netip.Addr :=
  net.parseAddr ((net.splitHostPort remoteAddr).getD remoteAddr)

/-- `IPPrefix`. Every `Addr` is valid, and neither width is too long for its family. -/
def ipPrefix (net : Netip.Parsers) (remoteAddr : String) : Option String :=
  (addrOf net remoteAddr).bind fun parsed =>
    if parsed.zone ≠ "" then none
    else
      let addr := parsed.unmap
      if addr.isUnspecified || addr.isLoopback then none
      else
        let (bits, re) := if addr.is4 then (24, ipv4PrefixRe) else (64, ipv6PrefixRe)
        let s := addr.prefixText bits
        if re.accepts s.toList then some s else none

/-- The CHECK constraints of the table. -/
inductive Constraint where
  | audit_events_actor_identified
  | audit_events_ip_prefix_shape
deriving DecidableEq, Repr

def Constraint.text : Constraint → String
  | audit_events_actor_identified => "audit_events_actor_identified"
  | audit_events_ip_prefix_shape => "audit_events_ip_prefix_shape"

def Constraint.holds (e : Event) : Constraint → Bool
  | audit_events_actor_identified => (e.actor_kind = .user) == e.actor_user_id.isSome
  | audit_events_ip_prefix_shape => e.ipPrefix.all valid

/-- Why the INSERT of an event fails. -/
inductive EmitError where
  | check (c : Constraint)
  | invalidText
deriving DecidableEq, Repr

/-- The row of an event: an address prefix outside the grammar of the column is dropped. -/
def Event.row (e : Event) : Event := { e with ipPrefix := e.ipPrefix.filter valid }

/-- `Emit`: the row it inserts. -/
def emit (e : Event) : Except EmitError Event :=
  if !(e.row.correlation_id.all storable && e.row.subject_id.all storable) then .error .invalidText
  else match [Constraint.audit_events_actor_identified, .audit_events_ip_prefix_shape].find?
      (fun c => !c.holds e.row) with
    | some c => .error (.check c)
    | none => .ok e.row

theorem emit_eq_ok {e row : Event} (h : emit e = .ok row) : row = e.row := by
  unfold emit at h
  split at h
  · cases h
  · split at h
    · cases h
    · exact (Except.ok.inj h).symm

end Vizra.Audit
