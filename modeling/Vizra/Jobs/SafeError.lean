import Vizra.Jobs.Worker
import Vizra.Obs.Redact

/-!
# What may be written to `last_error` (`internal/jobs/worker.go`)

The text of a Go error is a byte string, and so is what `safeError` makes of it. PostgreSQL takes a text
parameter only if its bytes are UTF-8 without U+0000; `Worker.record` is the switch at the end of
`Worker.run` with the statement it issues, over such texts.
-/

namespace Vizra.Jobs

open Go Vizra.Pg Vizra.Obs

/-- The bound of `truncate`, in bytes. -/
def errorMax : Nat := 2000

/-- `utf8.RuneStart`. -/
def runeStart (b : UInt8) : Bool := !Utf8.isTail b

/-- The loop of `truncate`: back from `cut` to the start of a rune. -/
def backOff (s : Bytes) : Nat → Nat
  | 0 => 0
  | cut + 1 => if runeStart (s.getD (cut + 1) 0) then cut + 1 else backOff s cut

/-- "… (truncated)" -/
def truncatedMark : Bytes := [0xE2, 0x80, 0xA6] ++ ascii " (truncated)"

/-- The bytes of the message that `truncate` keeps, before it repairs them. -/
def kept (s : Bytes) : Bytes := if s.length ≤ errorMax then s else s.take (backOff s errorMax)

def truncate (s : Bytes) : Bytes :=
  if s.length ≤ errorMax then s
  else
    let out := s.take (backOff s errorMax)
    (if validString out then out else toValidUTF8 out) ++ truncatedMark

def safeError (s : Bytes) : Bytes := truncate (redact s)

/-- The text that a parameter with these bytes arrives as, unless PostgreSQL refuses it. -/
def textParam (s : Bytes) : Option String :=
  if validString s && !s.contains 0 then some (String.ofList ((decode s).map Rune.char)) else none

/-- The bytes can be written to `last_error`: a text, within `jobs_last_error_bounded`. -/
def storableError (s : Bytes) : Bool := (textParam s).any fun t => t.toList.length ≤ 4096

/-- The errors of `HandlerError`, each with its text as the bytes it is. -/
inductive GoError where
  | other (text : Bytes) (wrapped : List GoError)
  | terminal (err : GoError)

mutual

/-- `IsTerminal`: `errors.As` finds a `Terminal` somewhere in the chain. -/
def GoError.isTerminal : GoError → Bool
  | .terminal _ => true
  | .other _ wrapped => GoError.anyTerminal wrapped

/-- `errors.As` over the errors of one `Unwrap() []error`, depth first. -/
def GoError.anyTerminal : List GoError → Bool
  | [] => false
  | e :: es => e.isTerminal || GoError.anyTerminal es

end

/-- `Error()`. -/
def GoError.text : GoError → Bytes
  | .other text _ => text
  | .terminal err => ascii "terminal: " ++ err.text

/-- The switch of `Worker.run` on an error whose text may be stored as `text`. -/
def Outcome.ofError (j : Claimed) (jit : Int) (err : GoError) (text : String) : Outcome :=
  if err.isTerminal then .fail text
  else if j.attempts ≥ j.maxAttempts then .deadLetter text
  else .retry (backoff j.attempts + jitter (backoff j.attempts) jit) text

/-- The outcome statement of `Worker.run`; it fails if PostgreSQL refuses its text parameter. -/
def Worker.record (w : Worker) (now : Time) (j : Claimed) (jit : Int) (rows : Table) :
    Option GoError → Except PgError (Table × Nat)
  | none => Outcome.complete.write id now j.id w.leasedBy rows
  | some err =>
    match textParam (safeError err.text) with
    | none => .error .invalidText
    | some text => (Outcome.ofError j jit err text).write id now j.id w.leasedBy rows

end Vizra.Jobs
