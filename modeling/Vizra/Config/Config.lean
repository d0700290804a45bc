import Vizra.Config.Keys
import Mathlib.Data.List.Sort

/-!
# The validator of the environment (`internal/config/config.go`)

`loadFrom` is `LoadFrom`: it reads every key, collects every problem, and returns either a configuration
or all problems sorted by key and message. The checks of one topic are one definition that returns its
problems, in the order in which the source appends them.
-/

namespace Vizra.Configuration

open Go

inductive Mode where
  | development
  | production
deriving DecidableEq, Repr

inductive SearchMode where
  | off
  | managed
  | external
deriving DecidableEq, Repr

inductive OwnerClaimAnnounce where
  | off
  | stderr
deriving DecidableEq, Repr

def Mode.ofText : String → Option Mode
  | "development" => some .development
  | "production" => some .production
  | _ => none

def SearchMode.ofText : String → Option SearchMode
  | "off" => some .off
  | "managed" => some .managed
  | "external" => some .external
  | _ => none

def OwnerClaimAnnounce.ofText : String → Option OwnerClaimAnnounce
  | "off" => some .off
  | "stderr" => some .stderr
  | _ => none

structure Config where
  mode : Mode
  publicOrigin : String
  listenAddr : String
  metricsAddr : String
  siteHandle : String
  databaseURL : String
  cacheURL : String
  cacheNamespace : String
  storagePrefix : String
  sessionSecret : String
  mfaKeyKEK : String
  searchMode : SearchMode
  searchURL : String
  searchHMACKey : String
  searchTimeout : Duration
  corsAllowedOrigins : List String
  allowInsecureOrigin : Bool
  ownerClaimAnnounce : OwnerClaimAnnounce
  ownerClaimTTL : Duration
  queueAgeThreshold : Duration
  workerConcurrency : Int
  jobLease : Duration
  jobTimeout : Duration
  shutdownGrace : Duration
deriving DecidableEq, Repr

structure Problem where
  key : String
  message : String
deriving DecidableEq, Repr

/-- The environment: `os.LookupEnv`, or a candidate file. -/
abbrev Lookup := String → Option String

/-- The value `LoadFrom` uses for a key. -/
def get (lookup : Lookup) (k : String) : String :=
  match lookup k with
  | some v => trimSpace v
  | none => defaultFor k

/-- One problem when the condition fails. -/
def check (ok : Bool) (key message : String) : List Problem := if ok then [] else [{ key, message }]

def knownDevSecrets : List String :=
  ["change", "changeme", "dev", "devsecret", "development", "example", "insecure", "password",
    "placeholder", "please-change-me", "secret", "test", "testing", "todo", "vizra", "vizra-dev", "xxx",
    "0000", "1234"]

def knownPublishedSecrets : List String :=
  ["Ar4Lo8Cq2Ei6Uk0Wn3Sv7Yb1Md5Pt9Xz", "Aa1Bb2Cc3Dd4Aa1Bb2Cc3Dd4Aa1Bb2Cc"]

def isPublishedSecret (v : String) : Bool := knownPublishedSecrets.any fun p => v = p

def minSecretBytes : Nat := 32

def truthyWords : List String := ["1", "t", "true", "y", "yes", "on"]

section

variable (lib : Lib) (lookup : Lookup)

def looksLikeDevSecret (v : String) : Bool :=
  let l := toLower lib.lower v
  knownDevSecrets.any fun bad => contains l bad

def truthy (v : String) : Bool := truthyWords.contains (toLower lib.lower (trimSpace v))

def splitList (v : String) : List String :=
  if v = "" then [] else ((split v ',').map trimSpace).filter fun p => p ≠ ""

/-- `mustDuration`: the duration, or zero with the problem. -/
def mustDuration (key : String) : Duration × List Problem :=
  match parseDuration lib.fraction (get lookup key) with
  | none => (0, [{ key, message := "must be a duration such as 15m or 2s" }])
  | some d => if d ≤ 0 then (0, [{ key, message := "must be greater than zero" }]) else (d, [])

/-- `mustInt64`: the integer, or zero with the problem. -/
def mustInt64 (key : String) : Int × List Problem :=
  match parseInt64 (get lookup key) with
  | none => (0, [{ key, message := "must be an integer" }])
  | some n => (n, [])

def redactOrigin (o : String) : String :=
  match lib.parseURL o with
  | some u => if u.user.isSome then lib.urlString { u with user := some "redacted" } else o
  | none => o

/-- `url.Parse` gave an absolute http or https URL. -/
def isAbsolute (u : URL) : Bool := u.host ≠ "" && isHTTP u.scheme

/-- The public origin in its normal form, or why it is refused. -/
def publicOriginOf (production allowInsecure : Bool) (origin : String) : Except String String :=
  if origin = "" then .error "must be set"
  else match (lib.parseURL origin).filter isAbsolute with
    | none => .error "must be an absolute http or https origin, for example https://photos.example.org"
    | some u =>
      if u.path ≠ "" ∧ u.path ≠ "/" then .error "must not carry a path"
      else if production ∧ u.scheme = "http" ∧ !allowInsecure then
        .error ("production refuses a plain-http origin; set VIZRA_ALLOW_INSECURE_PUBLIC_ORIGIN=true " ++
          "only behind a trusted TLS terminator")
      else if normalizeOrigin lib origin = "" then
        .error ("must be comparable with a browser Origin header; write an internationalised host in its " ++
          "A-label (punycode) form, for example https://xn--80ak6aa92e.example")
      else .ok (normalizeOrigin lib origin)

/-- A URL that must be set and have one of two schemes. -/
def schemeProblems (key : String) (schemes : List String) (message v : String) : List Problem :=
  if v = "" then [{ key, message := "must be set" }]
  else check (schemes.any fun s => hasPrefix v s) key message

def searchProblems (production : Bool) (mode : Option SearchMode) (url hmacKey : String) : List Problem :=
  if mode = some .off then []
  else
    (if url = "" then
      [{ key := "VIZRA_SEARCH_URL", message := "must be set when VIZRA_SEARCH_MODE is not 'off'" }]
    else check ((lib.parseURL url).any isAbsolute) "VIZRA_SEARCH_URL"
      "must be an absolute http or https URL") ++
    if hmacKey.utf8ByteSize < minSecretBytes then
      [{ key := "SEARCH_HMAC_KEY"
         message := "must be at least " ++ toString minSecretBytes ++
           " bytes when VIZRA_SEARCH_MODE is not 'off'" }]
    else if production ∧ isPublishedSecret hmacKey then
      [{ key := "SEARCH_HMAC_KEY"
         message := "this value is published in this repository (api/search-hmac-testvectors.json is a " ++
           "TEST VECTOR, not a configuration value). Generate a real key: openssl rand -base64 32" }]
    else check (!(production && looksLikeDevSecret lib hmacKey)) "SEARCH_HMAC_KEY"
      "production refuses a known development value"

/-- A secret that production requires. -/
def secretProblems (key val : String) : List Problem :=
  if val = "" then [{ key, message := "must be set in production" }]
  else if isPublishedSecret val then
    [{ key
       message := "this value is published in this repository and must never be a production secret. " ++
         "Generate a real one: openssl rand -base64 32" }]
  else if val.utf8ByteSize < minSecretBytes then
    [{ key
       message := "must be at least " ++ toString minSecretBytes ++ " bytes in production; got " ++
         toString val.utf8ByteSize }]
  else check (!looksLikeDevSecret lib val) key "production refuses a known development value"

def corsProblems (allowInsecure : Bool) (o : String) : List Problem :=
  let key := "VIZRA_CORS_ALLOWED_ORIGINS"
  if o = "*" then [{ key, message := "production refuses the wildcard origin '*'; list exact origins" }]
  else match (lib.parseURL o).filter isAbsolute with
    | none =>
      [{ key, message := "each entry must be an absolute http or https origin; got " ++ redactOrigin lib o }]
    | some u => check (!(u.scheme = "http" && !allowInsecure)) key
      ("production refuses a plain-http CORS origin: " ++ redactOrigin lib o)

/-- A renamed key is refused when it has a value at all. -/
def retiredProblems (r : RetiredKey) : List Problem :=
  match lookup r.name with
  | none | some "" => []
  | some _ =>
    [{ key := r.name
       message := "was renamed to " ++ r.replacedBy ++
         " and is NO LONGER READ. There is no compatibility alias, so this value has no effect: " ++ r.why ++
         ". Rename the variable — production will not boot believing a key is configured when none is." }]

/-- A development switch: refused when truthy or, if it carries a value, when it has one. -/
def hatchProblems (h : Key) : List Problem :=
  match lookup h.name with
  | none => []
  | some raw =>
    if h.refuseIfPresent then
      check (raw = "") h.name
        "is a development-only escape hatch that carries a value, and must not be present in production"
    else check (!truthy lib (trimSpace raw)) h.name
      "is a development-only escape hatch and must not be set in production"

/-- The fail-secure block. -/
def productionProblems (sessionSecret mfaKeyKEK : String) (cors : List String) (allowInsecure : Bool) :
    List Problem :=
  secretProblems lib "VIZRA_SESSION_SECRET" sessionSecret ++
    secretProblems lib "VIZRA_MFA_KEY_KEK" mfaKeyKEK ++
    cors.flatMap (corsProblems lib allowInsecure) ++
    retiredKeys.flatMap (retiredProblems lookup) ++
    escapeHatches.flatMap (hatchProblems lib lookup)

/-- The order in which problems are reported: by key, then by message. -/
def Problem.le (p q : Problem) : Bool :=
  if p.key ≠ q.key then p.key < q.key else p.message ≤ q.message

def modeOf : Option Mode := Mode.ofText (toLower lib.lower (get lookup "VIZRA_MODE"))

def searchModeOf : Option SearchMode :=
  SearchMode.ofText (toLower lib.lower (get lookup "VIZRA_SEARCH_MODE"))

def announceOf : Option OwnerClaimAnnounce :=
  OwnerClaimAnnounce.ofText (toLower lib.lower (get lookup "VIZRA_OWNER_CLAIM_ANNOUNCE"))

def isProduction : Bool := modeOf lib lookup = some .production

def allowInsecureOriginOf : Bool := truthy lib (get lookup "VIZRA_ALLOW_INSECURE_PUBLIC_ORIGIN")

def corsAllowedOriginsOf : List String := splitList (get lookup "VIZRA_CORS_ALLOWED_ORIGINS")

def searchURLOf : String := trimRight (get lookup "VIZRA_SEARCH_URL") '/'

def originOf : Except String String :=
  publicOriginOf lib (isProduction lib lookup) (allowInsecureOriginOf lib lookup)
    (trimRight (get lookup "VIZRA_PUBLIC_ORIGIN") '/')

/-- The keys that `mustDuration` reads, in the order of the source. -/
def durationKeys : List String :=
  ["VIZRA_SEARCH_TIMEOUT", "VIZRA_QUEUE_AGE_THRESHOLD", "VIZRA_JOB_LEASE", "VIZRA_JOB_TIMEOUT",
    "VIZRA_SHUTDOWN_GRACE", "VIZRA_OWNER_CLAIM_TTL"]

def durationOf (key : String) : Duration := (mustDuration lib lookup key).1

/-- The problems with the modes, the durations and the worker's concurrency. -/
def settingProblems : List Problem :=
  check (modeOf lib lookup).isSome "VIZRA_MODE" "must be 'development' or 'production'" ++
  check (searchModeOf lib lookup).isSome "VIZRA_SEARCH_MODE" "must be 'off', 'managed' or 'external'" ++
  durationKeys.flatMap (fun k => (mustDuration lib lookup k).2) ++
  check (announceOf lib lookup).isSome "VIZRA_OWNER_CLAIM_ANNOUNCE" "must be 'off' or 'stderr'" ++
  (mustInt64 lookup "VIZRA_WORKER_CONCURRENCY").2

/-- The problems with values that have to fit each other or must not be empty. -/
def boundProblems : List Problem :=
  let lease := durationOf lib lookup "VIZRA_JOB_LEASE"
  let timeout := durationOf lib lookup "VIZRA_JOB_TIMEOUT"
  check (1 ≤ (mustInt64 lookup "VIZRA_WORKER_CONCURRENCY").1) "VIZRA_WORKER_CONCURRENCY"
    "must be at least 1" ++
  -- a duration that was refused is zero, and the bound is then not checked as well
  check (!(0 < lease && 0 < timeout && timeout ≤ lease)) "VIZRA_JOB_TIMEOUT"
    "must exceed VIZRA_JOB_LEASE, or a running job loses its lease before it can finish" ++
  check (get lookup "VIZRA_SITE_HANDLE" ≠ "") "VIZRA_SITE_HANDLE" "must not be empty" ++
  check (get lookup "VIZRA_CACHE_NAMESPACE" ≠ "") "VIZRA_CACHE_NAMESPACE"
    "must not be empty; it is supplied by the site resolver, never hardcoded" ++
  check (get lookup "VIZRA_STORAGE_PREFIX" ≠ "") "VIZRA_STORAGE_PREFIX"
    "must not be empty; it is supplied by the site resolver, never a hardcoded root"

/-- The problems with the public origin, the two server URLs and the search topology. -/
def urlProblems : List Problem :=
  (match originOf lib lookup with
    | .error message => [{ key := "VIZRA_PUBLIC_ORIGIN", message }]
    | .ok _ => []) ++
  schemeProblems "DATABASE_URL" ["postgres://", "postgresql://"]
    "must be a postgres:// or postgresql:// DSN" (get lookup "DATABASE_URL") ++
  schemeProblems "VIZRA_CACHE_URL" ["redis://", "rediss://"]
    "must be a redis:// or rediss:// URL (Valkey speaks the same scheme)" (get lookup "VIZRA_CACHE_URL") ++
  searchProblems lib (isProduction lib lookup) (searchModeOf lib lookup) (searchURLOf lookup)
    (get lookup "SEARCH_HMAC_KEY")

/-- Every problem, in the order in which `LoadFrom` finds them. -/
def problems : List Problem :=
  settingProblems lib lookup ++ boundProblems lib lookup ++ urlProblems lib lookup ++
    if isProduction lib lookup then
      productionProblems lib lookup (get lookup "VIZRA_SESSION_SECRET") (get lookup "VIZRA_MFA_KEY_KEK")
        (corsAllowedOriginsOf lookup) (allowInsecureOriginOf lib lookup)
    else []

/-- The configuration of an environment in which the enumerations and the origin have values. -/
def configOf (mode : Mode) (searchMode : SearchMode) (ownerClaimAnnounce : OwnerClaimAnnounce)
    (publicOrigin : String) : Config :=
  { mode
    publicOrigin
    listenAddr := get lookup "VIZRA_LISTEN_ADDR"
    metricsAddr := get lookup "VIZRA_METRICS_ADDR"
    siteHandle := get lookup "VIZRA_SITE_HANDLE"
    databaseURL := get lookup "DATABASE_URL"
    cacheURL := get lookup "VIZRA_CACHE_URL"
    cacheNamespace := get lookup "VIZRA_CACHE_NAMESPACE"
    storagePrefix := get lookup "VIZRA_STORAGE_PREFIX"
    sessionSecret := get lookup "VIZRA_SESSION_SECRET"
    mfaKeyKEK := get lookup "VIZRA_MFA_KEY_KEK"
    searchMode
    searchURL := searchURLOf lookup
    searchHMACKey := get lookup "SEARCH_HMAC_KEY"
    searchTimeout := durationOf lib lookup "VIZRA_SEARCH_TIMEOUT"
    corsAllowedOrigins := corsAllowedOriginsOf lookup
    allowInsecureOrigin := allowInsecureOriginOf lib lookup
    ownerClaimAnnounce
    ownerClaimTTL := durationOf lib lookup "VIZRA_OWNER_CLAIM_TTL"
    queueAgeThreshold := durationOf lib lookup "VIZRA_QUEUE_AGE_THRESHOLD"
    workerConcurrency := (mustInt64 lookup "VIZRA_WORKER_CONCURRENCY").1
    jobLease := durationOf lib lookup "VIZRA_JOB_LEASE"
    jobTimeout := durationOf lib lookup "VIZRA_JOB_TIMEOUT"
    shutdownGrace := durationOf lib lookup "VIZRA_SHUTDOWN_GRACE" }

/-- `LoadFrom`: the configuration, or all problems. -/
def loadFrom : Except (List Problem) Config :=
  match problems lib lookup, modeOf lib lookup, searchModeOf lib lookup, announceOf lib lookup,
    originOf lib lookup with
  | [], some mode, some searchMode, some announce, .ok origin =>
    .ok (configOf lib lookup mode searchMode announce origin)
  -- a key without a value here has a problem, so this is the case of at least one problem
  | probs, _, _, _, _ => .error (probs.insertionSort fun p q => p.le q)

end

end Vizra.Configuration
