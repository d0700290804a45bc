import Mathlib.Data.List.Sort
import Vizra.PyStd.Str
import Vizra.Regex.Basic

/-!
# The migration lint (`scripts/migrate-lint.sh`)

The script reads the names and the texts of a directory of migrations: the format of the names, the sequence of the
versions, a down file or a reason for having none, and destructive statements in the up files. The checksum manifest
is checked by another script. `grep` and `sed` are those of the C locale, and a text has no NUL character.
-/

namespace Vizra.Migrate

open Py Regex

/-- `[[:space:]]`. -/
def isPosixSpace (c : Char) : Bool := c == ' ' || (0x09 ≤ c.val && c.val ≤ 0x0D)

structure UpFile where
  /-- the name without its directory -/
  base : Str
  text : Str

structure Directory where
  /-- the names of `*.sql` -/
  sqlNames : List Str
  /-- the files `*.up.sql` -/
  ups : List UpFile
  /-- the size of a file of the directory, if there is one of that name -/
  size : Str → Option Nat

inductive LintError where
  | noMigrations
  | filename (base : Str)
  | duplicate (version : Str)
  | gap (missing : Nat) (version : Str)
  -- a version that is no number, at which the script ends
  | badVersion (version : Str)
  | noDown (base : Str)
  | emptyDown (base : Str)
  | destructive (base : Str) (lineno : Nat)
  | manifest
deriving DecidableEq

/-! ## Names and versions -/

def digit : Rx Char := .cls fun c => '0' ≤ c && c ≤ '9'

/-- `[a-z0-9]+`. -/
def nameWord : Rx Char := .plus (.cls fun c => ('a' ≤ c && c ≤ 'z') || ('0' ≤ c && c ≤ '9'))

/-- `^[0-9]{4}_[a-z0-9]+(_[a-z0-9]+)*\.(up|down)\.sql$`. -/
def filenameRe : Rx Char :=
  .seq (.pow digit 4) <| .seq (.char '_') <| .seq nameWord <| .seq (.star (.seq (.char '_') nameWord)) <|
    .seq (.char '.') <| .seq (.oneOf [str "up", str "down"]) (.text (str ".sql"))

def filenameErrors (dir : Directory) : List LintError :=
  (dir.sqlNames.filter fun base => !filenameRe.accepts base).map .filename

/-- `$((10#v))`. -/
def decimal? (v : Str) : Option Nat :=
  if !v.isEmpty && v.all fun c => '0' ≤ c && c ≤ '9' then
    some (v.foldl (fun n c => 10 * n + (c.toNat - '0'.toNat)) 0)
  else none

/-- The loop over the sorted versions, and whether it ends the script. -/
def sequenceErrors : Nat → List Str → List LintError × Bool
  | _, [] => ([], false)
  | prev, v :: versions =>
    match decimal? v with
    | none => ([.badVersion v], true)
    | some n =>
      let r := sequenceErrors n versions
      ((if n = prev then [.duplicate v] else if n ≠ prev + 1 then [.gap (prev + 1) v] else []) ++ r.1, r.2)

def sortedVersions (dir : Directory) : List Str := (dir.ups.map fun f => f.base.take 4).insertionSort fun a b => le a b

/-! ## Annotations -/

/-- `^\s*--\s*tag\s*\S`. -/
def isAnnotated (tag : String) (line : Str) : Bool :=
  match line.dropWhile isPosixSpace with
  | '-' :: '-' :: rest =>
    let rest := rest.dropWhile isPosixSpace
    (str tag).isPrefixOf rest && (rest.drop (str tag).length).any fun c => !isPosixSpace c
  | _ => false

def noDownReason (line : Str) : Bool := isAnnotated "no-down:" line

def allowsDestructive (line : Str) : Bool := isAnnotated "allow-destructive:" line

def downErrors (dir : Directory) : List LintError :=
  dir.ups.flatMap fun f =>
    let base := f.base.take (f.base.length - (str ".up.sql").length)
    match dir.size (base ++ str ".down.sql") with
    | none => if (f.text.splitOn '\n').any noDownReason then [] else [.noDown base]
    | some size => if size = 0 then [.emptyDown base] else []

/-! ## Destructive statements -/

def droppedKinds : List Str :=
  ["TABLE", "COLUMN", "CONSTRAINT", "INDEX", "TYPE", "SCHEMA", "VIEW", "SEQUENCE"].map str

/-- `[[:space:]]+`. -/
def gapRe : Rx Char := .plus (.cls isPosixSpace)

/-- `[^;]*`. -/
def restRe : Rx Char := .star (.cls fun c => c != ';')

/-- `ALTER[[:space:]]+TABLE[[:space:]]+[^;]*`, and then `r`. -/
def alterTableRe (r : Rx Char) : Rx Char :=
  .seq (.text (str "ALTER")) <| .seq gapRe <| .seq (.text (str "TABLE")) <| .seq gapRe <| .seq restRe r

def destructiveRe : Rx Char :=
  .alt (.seq (.text (str "DROP")) (.seq gapRe (.oneOf droppedKinds))) <|
  .alt (alterTableRe (.text (str "RENAME"))) <|
  .alt (alterTableRe (.seq (.text (str "ALTER")) (.seq gapRe (.seq (.text (str "COLUMN")) (.seq gapRe
      (.seq restRe (.text (str "TYPE")))))))) (.text (str "TRUNCATE"))

/-- A line that `grep -nEi` prints. -/
def matchesDestructive (line : Str) : Bool := destructiveRe.anywhere.accepts (line.map Char.toUpper)

/-- What follows the white space in front starts with `--`. -/
def isCommentLine (line : Str) : Bool := (str "--").isPrefixOf (line.dropWhile isPosixSpace)

/-- The loop over the lines, with the line before; `n` is the number of the first one. -/
def destructiveLines : Nat → Str → List Str → List Nat
  | _, _, [] => []
  | n, prevline, line :: lines =>
    let found := matchesDestructive line && !isCommentLine line && !allowsDestructive prevline
    (if found then [n] else []) ++ destructiveLines (n + 1) line lines

def destructiveErrors (dir : Directory) : List LintError :=
  dir.ups.flatMap fun f => (destructiveLines 1 [] (f.text.splitOn '\n')).map (.destructive f.base)

/-! ## The script -/

/-- The errors of a run, where `manifest` says whether the manifest is checked and what the check says. -/
def migrateLint (dir : Directory) (manifest : Option Bool) : List LintError :=
  if dir.ups.isEmpty then [.noMigrations]
  else
    let versions := sequenceErrors 0 (sortedVersions dir)
    filenameErrors dir ++ versions.1 ++
      if versions.2 then []
      else downErrors dir ++ destructiveErrors dir ++ if manifest = some false then [.manifest] else []

end Vizra.Migrate
