import Mathlib.Data.List.AList
import Vizra.FixedWindow.Basic
import Vizra.GoStd.Time

/-!
# The limiters (`internal/cache/ratelimit.go`)

A call carries the reading of the clock that both sides of it use. Go's map of windows is an association
list without duplicate keys. The cache is a map from keys to counters with an optional expiry; a key with
expiry `D` exists at `t` exactly if `t ≤ D`. Counts are natural numbers: a window would have to count past
2^63 to tell them from Go's.
-/

namespace Vizra.Cache

open Go

/-- The arguments of `Allow`, with the time of the call. -/
abbrev Call := FixedWindow.Call String

/-- Whether one unit of work may proceed, and how many remain. -/
abbrev Answer := Bool × Int

/-! ## The in-process limiter -/

structure MemWindow where
  count : Nat
  expires : Instant
deriving DecidableEq, Repr

structure MemoryLimiter where
  windows : AList fun _ : String => MemWindow

namespace MemoryLimiter

/-- `NewMemoryLimiter`. -/
def fresh : MemoryLimiter := { windows := ∅ }

def maxWindows : Nat := 4096

/-- The loop of `Allow` over the map: expired windows are deleted. -/
def purge (now : Instant) (windows : AList fun _ : String => MemWindow) : AList fun _ : String => MemWindow :=
  windows.entries.foldl (fun acc e => if e.2.expires < now then acc.erase e.1 else acc) windows

def allow (m : MemoryLimiter) (c : Call) : MemoryLimiter × Answer :=
  let windows := if maxWindows < m.windows.entries.length then purge c.now m.windows else m.windows
  let w : MemWindow :=
    match windows.lookup c.key with
    | some w => if w.expires < c.now then { count := 0, expires := c.now + c.window } else w
    | none => { count := 0, expires := c.now + c.window }
  let count := w.count + 1
  ({ windows := windows.insert c.key { w with count } },
    if c.limit < count then (false, 0) else (true, c.limit - count))

/-- `Degraded`. -/
def degraded (_m : MemoryLimiter) : Bool := true

end MemoryLimiter

/-! ## The cache -/

structure Entry where
  value : Nat
  expiry : Option Instant
deriving DecidableEq, Repr

abbrev Store := String → Option Entry

namespace Store

def empty : Store := fun _ => none

/-- The entry of a key that exists at `t`. -/
def get (s : Store) (t : Instant) (k : String) : Option Entry :=
  match s k with
  | some e => if e.expiry.all (t ≤ ·) then some e else none
  | none => none

/-- `INCR`: a missing key is created without an expiry. -/
def incr (s : Store) (t : Instant) (k : String) : Store × Nat :=
  let e := (s.get t k).getD { value := 0, expiry := none }
  (Function.update s k (some { e with value := e.value + 1 }), e.value + 1)

/-- `EXPIRE key seconds NX`: only a key without an expiry is given one; one that is not in the future deletes
the key. -/
def expireNX (s : Store) (t : Instant) (k : String) (seconds : Int) : Store :=
  match s.get t k with
  | some { value, expiry := none } =>
    if seconds ≤ 0 then Function.update s k none
    else Function.update s k (some { value, expiry := some (t + seconds * second) })
  | _ => s

end Store

/-- The seconds that the client sends for a duration. -/
def formatSec (d : Duration) : Int := if 0 < d ∧ d < second then 1 else d.tdiv second

/-! ## The limiter with its fallback -/

structure Client where
  cacheNamespace : String
deriving DecidableEq, Repr

/-- `Client.Key("rl", key)`. -/
def Client.rateKey (c : Client) (key : String) : String := c.cacheNamespace ++ ":" ++ "rl" ++ ":" ++ key

/-- How `Exec` ends. After an error the cache holds what it holds, and the context may have ended. -/
inductive Exec where
  | ok
  | error (store : Store) (ctxEnded : Bool)

structure FallbackLimiter where
  client : Option Client
  fallback : MemoryLimiter
  degraded : Bool

namespace FallbackLimiter

/-- `NewFallbackLimiter`. -/
def fresh (client : Option Client) : FallbackLimiter :=
  { client, fallback := .fresh, degraded := client.isNone }

def allow (l : FallbackLimiter) (store : Store) (ctxEnded : Bool) (exec : Exec) (c : Call) :
    (FallbackLimiter × Store) × Answer :=
  let inProcess (l : FallbackLimiter) (store : Store) : (FallbackLimiter × Store) × Answer :=
    let called := l.fallback.allow c
    (({ l with fallback := called.1 }, store), called.2)
  if ctxEnded then ((l, store), (false, 0))
  else match l.client with
    | none => inProcess l store
    | some client =>
      match exec with
      | .error store ctxEnded =>
        if ctxEnded then ((l, store), (false, 0)) else inProcess { l with degraded := true } store
      | .ok =>
        let k := client.rateKey c.key
        let incremented := store.incr c.now k
        let n := incremented.2
        (({ l with degraded := false }, incremented.1.expireNX c.now k (formatSec c.window)),
          if c.limit < n then (false, 0) else (true, c.limit - n))

end FallbackLimiter

end Vizra.Cache
