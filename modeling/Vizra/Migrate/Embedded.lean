import Vizra.GoStd.Strings

/-!
# The embedded migration version (`internal/migrate/migrate.go`)

`EmbeddedVersion` reads the names of the migrations that are compiled into the binary and returns the highest
version among them. The names are those that `fs.ReadDir` lists.
-/

namespace Vizra.Migrate

inductive VersionError where
  | noVersion (name : String)
  | nonNumeric (name : String)
  | twice (v : Int)
  | noMigrations
  -- the version that was found, and the position at which it stands
  | gap (found : Int) (position : Nat)
deriving DecidableEq

def VersionError.text : VersionError → String
  | .noVersion name => "migrate: " ++ name ++ " does not start with a version prefix"
  | .nonNumeric name => "migrate: " ++ name ++ " has a non-numeric version prefix"
  | .twice v => "migrate: version " ++ toString v ++ " appears twice"
  | .noMigrations => "migrate: no migrations are embedded"
  | .gap found position =>
    "migrate: migration versions are not a gapless 1..N sequence; found " ++ toString found ++ " at position " ++
      toString position

def isUp (name : String) : Bool := Go.hasSuffix name ".up.sql"

/-- The version of one migration. -/
def version (name : String) : Except VersionError Int :=
  match (Go.before name '_').filter fun text => text != "" with
  | none => .error (.noVersion name)
  | some text =>
    match Go.parseInt64 text with
    | none => .error (.nonNumeric name)
    | some v => .ok v

/-- The loop over the names: the maximum and the versions that were seen. -/
def readNames : Int → List Int → List String → Except VersionError (Int × List Int)
  | max, seen, [] => .ok (max, seen)
  | max, seen, name :: names =>
    if isUp name then
      match version name with
      | .error e => .error e
      | .ok v =>
        if v ∈ seen then .error (.twice v) else readNames (if v > max then v else max) (seen ++ [v]) names
    else readNames max seen names

/-- The first version that is not its position; `i` is the position of the first one. -/
def firstGap : Nat → List Int → Option VersionError
  | _, [] => none
  | i, v :: versions => if v ≠ i then some (.gap v i) else firstGap (i + 1) versions

def embeddedVersion (names : List String) : Except VersionError Int :=
  match readNames 0 [] names with
  | .error e => .error e
  | .ok (max, seen) =>
    if max = 0 then .error .noMigrations
    else
      match firstGap 1 (seen.mergeSort fun v w => v ≤ w) with
      | some e => .error e
      | none => .ok max

end Vizra.Migrate
