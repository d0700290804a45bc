import Vizra.GoStd.Strings

/-!
# `time.Duration` and `time.ParseDuration`

A duration is a number of nanoseconds. `parseDuration` follows the library's loop, with its overflow
checks on the unsigned accumulator; only the value of a decimal fraction, which the library computes
in `float64`, stays a parameter.
-/

namespace Go

/-- `time.Duration`, in nanoseconds. -/
abbrev Duration := Int

/-- A reading of the process clock, in nanoseconds. -/
abbrev Instant := Int

def microsecond : Duration := 1000
def second : Duration := 1000000000
def minute : Duration := 60 * second
def hour : Duration := 60 * minute

/-- `unitMap`. -/
def unitOf (u : List Char) : Option Nat :=
  match String.ofList u with
  | "ns" => some 1
  | "us" | "µs" | "μs" => some 1000
  | "ms" => some 1000000
  | "s" => some 1000000000
  | "m" => some 60000000000
  | "h" => some 3600000000000
  | _ => none

/-- `leadingInt`: the digits at the front and the rest, or an overflow. -/
def leadingInt : List Char → Nat → Option (Nat × List Char)
  | [], x => some (x, [])
  | c :: cs, x =>
    match digit c with
    | none => some (x, c :: cs)
    | some d =>
      if x > 2 ^ 63 / 10 then none
      else if 10 * x + d > 2 ^ 63 then none
      else leadingInt cs (10 * x + d)

/-- `leadingFraction`: the digits after the point, how many of them count, and the rest. Digits past an
overflow are skipped. -/
def leadingFraction : List Char → (x scale : Nat) → (overflow : Bool) → Nat × Nat × List Char
  | [], x, scale, _ => (x, scale, [])
  | c :: cs, x, scale, overflow =>
    match digit c with
    | none => (x, scale, c :: cs)
    | some d =>
      if overflow || x > (2 ^ 63 - 1) / 10 || 10 * x + d > 2 ^ 63 then leadingFraction cs x scale true
      else leadingFraction cs (10 * x + d) (scale + 1) false

section

-- the value in nanoseconds of the fraction `f / 10 ^ scale` of a unit
variable (fraction : (f scale unit : Nat) → Nat)

/-- One number with its unit: its value and the rest of the text. -/
def durationPart (s : List Char) : Option (Nat × List Char) :=
  (leadingInt s 0).bind fun (v, s1) =>
    let frac := if s1.head? = some '.' then leadingFraction s1.tail 0 0 false else (0, 0, s1)
    let s2 := frac.2.2
    let digits := s.length - s1.length + (s1.length - 1 - s2.length)
    let unit := s2.takeWhile fun c => !(c == '.' || (digit c).isSome)
    if digits = 0 || unit.isEmpty then none
    else (unitOf unit).bind fun u =>
      if v > 2 ^ 63 / u then none
      else
        let n := v * u + if frac.1 > 0 then fraction frac.1 frac.2.1 u else 0
        if n > 2 ^ 63 then none else some (n, s2.drop unit.length)

/-- The loop of `ParseDuration`. Every round consumes text, so the length of the text is enough fuel. -/
def durationParts : (fuel : Nat) → List Char → (d : Nat) → Option Nat
  | _, [], d => some d
  | 0, _ :: _, _ => none
  | fuel + 1, s, d =>
    (durationPart fraction s).bind fun (n, rest) =>
      let sum := (d + n) % 2 ^ 64
      if sum > 2 ^ 63 then none else durationParts fuel rest sum

/-- `time.ParseDuration`; its errors are `none`. -/
def parseDuration (s : String) : Option Duration :=
  let signed := splitSign s.toList
  if signed.2 = ['0'] then some 0
  else if signed.2.isEmpty then none
  else (durationParts fraction signed.2.length signed.2 0).bind fun d =>
    if signed.1 then some (-d) else if d > 2 ^ 63 - 1 then none else some d

end

end Go
