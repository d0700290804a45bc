import Vizra.Makefile.Lines
import Mathlib.Data.List.AList

/-!
# The environment check of the anchor (`scripts/make-integrity-guard.py`)

`check_environment_overrides` collects from a makefile's lines the names that the environment can set, and with
`--workflow` refuses an environment that sets one of them.
-/

namespace Vizra.Makefile

open Py

/-- The variables of a process. -/
abbrev Env := Str → Option Str

/-- `_MAKE_BUILTIN_VARS`. -/
def makeBuiltinVars : List Str :=
  ["MAKE", "MAKEFILE_LIST", "CURDIR", "MAKEFLAGS", "MAKECMDGOALS", "SHELL", "MAKELEVEL", ".SHELLFLAGS",
    "MAKE_VERSION", "MAKE_HOST", ".DEFAULT_GOAL", "MFLAGS", "MAKEFILES", "VPATH", ".RECIPEPREFIX", ".VARIABLES",
    ".FEATURES", ".INCLUDE_DIRS", "SUFFIXES"].map str

/-- `_FUNCTIONS`. -/
def makeFunctions : List Str :=
  ["shell", "wildcard", "eval", "info", "error", "warning", "foreach", "call", "patsubst", "subst", "filter",
    "filter-out", "sort", "dir", "notdir", "strip", "word", "words", "firstword", "lastword", "abspath", "realpath",
    "if", "or", "and", "origin", "value", "addprefix", "addsuffix", "basename", "suffix", "join", "findstring",
    "flavor", "file"].map str

/-- `_ASSIGN_RE`: the name and the operator. -/
def matchAssignRe (raw : Str) : Option (Str × Str) :=
  matchAssign (fun c => isIdentChar c || c == '.')
    [str "?=", str ":=", str "::=", str ":::=", str "+=", str "!=", str "="] raw

/-- `_REF_RE` at a place: `$(NAME)` or `${NAME}`, not behind another `$`. -/
def refAt (prev : Option Char) (s : Str) : Option Str :=
  match s with
  | '$' :: b :: rest =>
    let name := rest.takeWhile isIdentChar
    if prev != some '$' && (b == '(' || b == '\x7b') && name.head?.any isIdentStart &&
      (rest.drop name.length).head?.any fun c => c == ')' || c == '\x7d'
    then some name else none
  | _ => none

/-- `_REF_RE.findall`; no match of it starts inside another. -/
def refNames : Option Char → Str → List Str
  | _, [] => []
  | prev, c :: s => (refAt prev (c :: s)).toList ++ refNames (some c) s

/-- `assigned`: for each name the operator of its first assignment, or `?=` if there is one with it. -/
def assignedOps (lines : List LogicalLine) : AList fun _ : Str => Str :=
  lines.foldl (fun assigned rec =>
    match matchAssignRe rec.raw with
    | some (name, op) =>
      if (assigned.lookup name).isNone || op == str "?=" then assigned.insert name op else assigned
    | none => assigned) ∅

def refsOf (lines : List LogicalLine) : List Str := lines.flatMap fun rec => refNames none rec.raw

/-- `from_env`. -/
def fromEnv (lines : List LogicalLine) : List Str :=
  let assigned := assignedOps lines
  (assigned.entries.filter fun nameOp => nameOp.2 == str "?=").map Sigma.fst ++
    ((refsOf lines).filter fun n => (assigned.lookup n).isNone && !makeBuiltinVars.contains n &&
      !makeFunctions.contains n) ++
    [str "GOFLAGS"]

/-- The check does not fail, with `workflow=True`. -/
def checkEnvironmentOverrides (text : Str) (env : Env) : Bool :=
  (fromEnv (makefileLines text)).all fun n => (env n).isNone

end Vizra.Makefile
