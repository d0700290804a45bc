import Vizra.Makefile.Lines

/-!
# The database that make prints (`scripts/make-integrity-guard.py`)

`parse_database` reads the output of `make -pn` line by line: variables, special targets and the entry of every
target. `check_resolved` judges what it returns.
-/

namespace Vizra.Makefile

open Py

/-! ## The expressions -/

/-- `^([^\s:=#][^:=]*?)(::?)(?!=)(.*)$`: the name and what follows the colons. -/
def matchTarget (line : Str) : Option (Str × Str) :=
  let name := line.takeWhile fun c => !(c == ':' || c == '=')
  if name.head?.any fun c => !(isSpace c || c == '#') then
    match line.drop name.length with
    | ':' :: '=' :: _ => none
    -- with `=` behind the second colon only the first one is taken
    | ':' :: ':' :: '=' :: rest => some (name, ':' :: '=' :: rest)
    | ':' :: ':' :: rest => some (name, rest)
    | ':' :: rest => some (name, rest)
    | _ => none
  else none

/-- `^([A-Za-z_.][A-Za-z0-9_.-]*)\s*[:+?]?=\s?(.*)$`: the name and the value. -/
def matchVariable (line : Str) : Option (Str × Str) :=
  if line.head?.any fun c => isIdentStart c || c == '.' then
    let name := line.takeWhile fun c => isIdentChar c || c == '.' || c == '-'
    let rest := (line.drop name.length).dropWhile isSpace
    let rest := if rest.head?.any fun c => c == ':' || c == '+' || c == '?' then rest.tail else rest
    match rest with
    | '=' :: value => some (name, if value.head?.any isSpace then value.tail else value)
    | _ => none
  else none

/-- `^#\s+(commands|recipe) to execute`. -/
def announcesRecipe (line : Str) : Bool :=
  let text := line.tail.dropWhile isSpace
  line.head? == some '#' && line.tail.head?.any isSpace &&
    ((str "commands to execute").isPrefixOf text || (str "recipe to execute").isPrefixOf text)

def startsDatabase (line : Str) : Bool := (str "# Make data base").isPrefixOf line

def endsDatabase (line : Str) : Bool := (str "# Finished Make data base").isPrefixOf line

def isBlankLine (line : Str) : Bool := (strip line).isEmpty

/-! ## The loop -/

/-- What `parse_database` keeps from line to line. -/
structure DbState where
  vars : List (Str × Str) := []
  oneshell : Bool := false
  secondexpansion : Bool := false
  ignore : Bool := false
  defaultRecipe : Bool := false
  phony : List Str := []
  inDefault : Bool := false
  recipes : List (Str × List Str) := []
  prereqs : List (Str × List Str) := []
  duplicates : List Str := []
  unreadable : List Str := []
  /-- the target whose entry is being read -/
  current : Option Str := none
  inDb : Bool := false
  sawDb : Bool := false

/-- A line that heads the entry of a target, or none. -/
def DbState.header (s : DbState) (line : Str) : DbState :=
  match matchTarget line with
  | none => { s with current := none }
  | some (group, deps) =>
    let name := strip group
    if name.any isSpace then { s with unreadable := s.unreadable ++ [line], current := none }
    else if s.recipes.any fun kv => kv.1 == name then
      { s with duplicates := s.duplicates ++ [name], current := none }
    else
      { s with
        recipes := s.recipes ++ [(name, [])]
        prereqs := s.prereqs ++ [(name, splitWords (replaceChar '|' ' ' deps))]
        current := some name }

/-- The entries of the targets, which are read inside the database only. -/
def DbState.entry (s : DbState) (line : Str) : DbState :=
  if !s.inDb then s
  else if isBlankLine line then { s with current := none }
  else if line.head? == some '\t' then
    match s.current with
    | some name =>
      { s with recipes := s.recipes.map fun kv => if kv.1 = name then (kv.1, kv.2 ++ [line.tail]) else kv }
    | none => s
  else if line.head? == some '#' then s
  else s.header line

/-- What follows a `.DEFAULT:` line. -/
def DbState.defaultEntry (s : DbState) (line : Str) : DbState :=
  if s.inDefault then
    if isBlankLine line then { s with inDefault := false }
    else if line.head? == some '\t' || announcesRecipe line then { s with defaultRecipe := true }
    else s
  else s

/-- What follows the name of a special target. -/
def special (name : String) (line : Str) : Option Str :=
  if (str name).isPrefixOf line then some (line.drop (str name).length) else none

/-- The special targets and the variables. -/
def DbState.loose (s : DbState) (line : Str) : DbState :=
  match special ".DEFAULT:" line with
  | some text => { s with inDefault := true, defaultRecipe := s.defaultRecipe || !isBlankLine text }
  | none =>
    if (special ".IGNORE:" line).isSome then { s with ignore := true }
    else
      match special ".PHONY:" line with
      | some text => { s with phony := s.phony ++ splitWords text }
      | none =>
        if (special ".ONESHELL:" line).isSome then { s with oneshell := true }
        else if (special ".SECONDEXPANSION:" line).isSome then { s with secondexpansion := true }
        else
          match matchVariable line with
          | some (name, value) =>
            if s.vars.any fun kv => kv.1 == name then s
            else { s with vars := s.vars ++ [(name, value)] }
          | none => s

def DbState.line (s : DbState) (line : Str) : DbState :=
  if startsDatabase line then { s with inDb := true, sawDb := true, current := none }
  else if endsDatabase line then { s with inDb := false, current := none }
  else ((s.entry line).defaultEntry line).loose line

/-! ## What it returns -/

/-- The names under which the dictionary of the variables holds the flags. -/
def flagNames : List Str :=
  ["__ONESHELL__", "__SECONDEXPANSION__", "__IGNORE__", "__DEFAULT_RECIPE__", "__PHONY__"].map str

structure Database where
  /-- the entries of `variables` other than those of `flagNames` -/
  vars : List (Str × Str)
  oneshell : Bool
  secondexpansion : Bool
  ignore : Bool
  defaultRecipe : Bool
  phony : List Str
  recipes : List (Str × List Str)
  prereqs : List (Str × List Str)
  duplicates : List Str
  unreadable : List Str

def DbState.close (s : DbState) : Database where
  vars := s.vars.filter fun kv => !flagNames.contains kv.1
  oneshell := s.oneshell
  secondexpansion := s.secondexpansion
  ignore := s.ignore
  defaultRecipe := s.defaultRecipe
  phony := s.phony
  recipes := s.recipes
  prereqs := s.prereqs
  duplicates := s.duplicates
  unreadable :=
    if s.sawDb then s.unreadable
    else s.unreadable ++ [(str "(no \x60# Make data base\x60 section in make's output)")]

def parseDatabase (stdout : Str) : Database := ((splitLines stdout).foldl DbState.line {}).close

/-! ## The checks on it -/

def approvedShell : Str := str "/usr/bin/env bash"

def approvedShellflags : Str := str "-eu -o pipefail -c"

/-- `DANGEROUS_FLAG_WORDS` and the short ones that are refused with them. -/
def dangerousFlagWords : List Str :=
  ["--ignore-errors", "--keep-going", "--touch", "--question", "--dry-run", "--just-print", "--recon", "--old-file",
    "--assume-old", "-i", "-k", "-t", "-q"].map str

/-- The loop over the words of MAKEFLAGS: the cluster and the rest. -/
def flagCluster : Str → List Str → List Str → Str × List Str
  | cluster, rest, [] => (cluster, rest)
  | cluster, rest, w :: ws =>
    if cluster.isEmpty && w.head? != some '-' && !w.contains '=' then flagCluster w rest ws
    else flagCluster cluster (rest ++ [w]) ws

inductive ResolvedFailure where
  | noShell
  | shell (value : Str)
  | noShellflags
  | shellflags (value : Str)
  | oneshell
  | recipePrefix (value : Str)
  | secondexpansion
  | ignore
  | defaultRecipe
  | extraPrereqs (value : Str)
  -- what was added: letters of the cluster, and words
  | makeflags (extra : Str) (badWords : List Str)
deriving DecidableEq

def checkShell (db : Database) : List ResolvedFailure :=
  match db.vars.lookup (str "SHELL") with
  | none => [.noShell]
  | some shell => if strip shell ≠ approvedShell then [.shell shell] else []

def checkShellflags (db : Database) : List ResolvedFailure :=
  match db.vars.lookup (str ".SHELLFLAGS") with
  | none => [.noShellflags]
  | some flags => if strip flags ≠ approvedShellflags then [.shellflags flags] else []

/-- A variable that is to be empty. -/
def checkEmpty (db : Database) (name : String) (failure : Str → ResolvedFailure) : List ResolvedFailure :=
  let value := (db.vars.lookup (str name)).getD []
  if isBlankLine value then [] else [failure value]

def checkMakeflags (raw : Str) : List ResolvedFailure :=
  let (cluster, rest) := flagCluster [] [] (splitWords raw)
  let extra := cluster.filter fun c => !(str "pn").contains c
  let badWords := rest.filter dangerousFlagWords.contains
  if !extra.isEmpty || !badWords.isEmpty then [.makeflags extra badWords] else []

def checkResolved (db : Database) : List ResolvedFailure :=
  checkShell db ++ checkShellflags db ++ (if db.oneshell then [.oneshell] else []) ++
    checkEmpty db ".RECIPEPREFIX" .recipePrefix ++ (if db.secondexpansion then [.secondexpansion] else []) ++
    (if db.ignore then [.ignore] else []) ++ (if db.defaultRecipe then [.defaultRecipe] else []) ++
    checkEmpty db ".EXTRA_PREREQS" .extraPrereqs ++
    checkMakeflags ((db.vars.lookup (str "MAKEFLAGS")).getD [])

end Vizra.Makefile
