import Vizra.GoStd.Strings

/-!
# `net/url`

`url.Parse` and `URL.String` stay parameters of whatever calls them; the parts of a host are computed
as `URL.Hostname` and `URL.Port` do.
-/

namespace Go

/-- The fields of a parsed `url.URL`; `user` is the user information in its encoded form. What only a URL without an
authority has, `Opaque` and `OmitHost`, is left out. -/
structure URL where
  scheme : String
  user : Option String
  host : String
  path : String
  rawQuery : String
  fragment : String
  -- what `String` keeps of the way the text was written
  rawPath : String := ""
  rawFragment : String := ""
  forceQuery : Bool := false
deriving DecidableEq, Repr

/-- `validOptionalPort`: empty, or a colon and decimal digits. -/
def validOptionalPort : List Char → Bool
  | [] => true
  | c :: cs => c == ':' && cs.all fun d => (digit d).isSome

def lastColon (h : List Char) : Option Nat :=
  (h.reverse.findIdx? (· == ':')).map fun i => h.length - 1 - i

def splitHostPort (hostPort : String) : String × String :=
  let h := hostPort.toList
  let parts := match lastColon h with
    | some i => if validOptionalPort (h.drop i) then (h.take i, h.drop (i + 1)) else (h, [])
    | none => (h, [])
  let host :=
    if parts.1.head? = some '[' ∧ parts.1.getLast? = some ']' then parts.1.tail.dropLast else parts.1
  (String.ofList host, String.ofList parts.2)

def URL.hostname (u : URL) : String := (splitHostPort u.host).1

def URL.port (u : URL) : String := (splitHostPort u.host).2

end Go
