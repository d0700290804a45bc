import Vizra.GoStd.Time
import Vizra.GoStd.Url

/-!
# Configuration keys and origins (`internal/config/keys.go`, `origin.go`)

The registry with the defaults `LoadFrom` falls back to, the development switches and renamed keys it
refuses in production, and the normal form of an origin.
-/

namespace Vizra.Configuration

open Go

/-- What the configuration takes from Go's library and Unicode without a model of its own. -/
structure Lib where
  -- `unicode.ToLower`.
  lower : Char → Char
  -- The value of a decimal fraction of a unit in `time.ParseDuration`.
  fraction : (f scale unit : Nat) → Nat
  -- `url.Parse`; an error is `none`.
  parseURL : String → Option URL
  -- `URL.String`.
  urlString : URL → String

/-- A configuration key, with the fields `LoadFrom` reads. -/
structure Key where
  name : String
  default : String := ""
  refuseIfPresent : Bool := false

def escapeHatches : List Key :=
  [{ name := "VIZRA_DEV_DISABLE_AUTH" },
    { name := "VIZRA_DEV_ALLOW_ANY_ORIGIN" },
    { name := "VIZRA_DEV_SKIP_MIGRATIONS" },
    { name := "VIZRA_DEV_AUTOLOGIN_USER", refuseIfPresent := true },
    { name := "VIZRA_DEV_FAKE_SEARCH" },
    { name := "VIZRA_DEV_INSECURE_COOKIES" },
    { name := "VIZRA_DEV_TRUST_ANY_HMAC" }]

def registry : List Key :=
  [{ name := "VIZRA_MODE", default := "development" },
    { name := "VIZRA_PUBLIC_ORIGIN", default := "http://localhost:8080" },
    { name := "VIZRA_LISTEN_ADDR", default := ":8080" },
    { name := "VIZRA_METRICS_ADDR", default := "127.0.0.1:9090" },
    { name := "VIZRA_SITE_HANDLE", default := "default" },
    { name := "DATABASE_URL" },
    { name := "VIZRA_CACHE_URL", default := "redis://127.0.0.1:6379/0" },
    { name := "VIZRA_CACHE_NAMESPACE", default := "default" },
    { name := "VIZRA_STORAGE_PREFIX", default := "default" },
    { name := "VIZRA_SESSION_SECRET" },
    { name := "VIZRA_MFA_KEY_KEK" },
    { name := "VIZRA_SEARCH_MODE", default := "off" },
    { name := "VIZRA_SEARCH_URL" },
    { name := "SEARCH_HMAC_KEY" },
    { name := "VIZRA_SEARCH_TIMEOUT", default := "2s" },
    { name := "VIZRA_CORS_ALLOWED_ORIGINS" },
    { name := "VIZRA_ALLOW_INSECURE_PUBLIC_ORIGIN" },
    { name := "VIZRA_QUEUE_AGE_THRESHOLD", default := "15m" },
    { name := "VIZRA_WORKER_CONCURRENCY", default := "4" },
    { name := "VIZRA_JOB_LEASE", default := "60s" },
    { name := "VIZRA_JOB_TIMEOUT", default := "5m" },
    { name := "VIZRA_SHUTDOWN_GRACE", default := "20s" },
    { name := "VIZRA_OWNER_CLAIM_ANNOUNCE", default := "off" },
    { name := "VIZRA_OWNER_CLAIM_TTL", default := "1h" }]

structure RetiredKey where
  name : String
  replacedBy : String
  why : String

def retiredKeys : List RetiredKey :=
  [{ name := "VIZRA_SEARCH_HMAC_KEY"
     replacedBy := "SEARCH_HMAC_KEY"
     why := "the canonical contract api/search-internal.openapi.yaml names this secret SEARCH_HMAC_KEY " ++
       "and vizra-search reads it under that name; core read a different spelling of the same shared secret" }]

def defaultFor (k : String) : String :=
  match registry.find? fun key => key.name = k with
  | some key => key.default
  | none => ""

def isASCII (s : String) : Bool := s.toList.all fun c => c.val < 0x80

/-- The schemes an origin may have. -/
def isHTTP (scheme : String) : Bool := scheme = "http" || scheme = "https"

/-- `NormalizeOrigin`; the empty string when the input is no origin. -/
def normalizeOrigin (lib : Lib) (raw : String) : String :=
  let raw := trimSpace raw
  if raw = "" then ""
  else match lib.parseURL raw with
    | none => ""
    | some u =>
      if u.host = "" then ""
      else
        let scheme := toLower lib.lower u.scheme
        let host := trimSuffix (toLower lib.lower u.hostname) '.'
        if !isHTTP scheme then ""
        else if u.path ≠ "" ∧ u.path ≠ "/" then ""
        else if u.rawQuery ≠ "" ∨ u.fragment ≠ "" ∨ u.user ≠ none then ""
        else if host = "" then ""
        else if !isASCII host then ""
        else
          -- an IPv6 literal
          let host := if contains host ":" then "[" ++ host ++ "]" else host
          let isDefault := (scheme = "http" && u.port = "80") || (scheme = "https" && u.port = "443")
          let port := if isDefault then "" else u.port
          if port ≠ "" then scheme ++ "://" ++ host ++ ":" ++ port else scheme ++ "://" ++ host

end Vizra.Configuration
