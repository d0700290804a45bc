import Vizra.Makefile.Database
import Vizra.Makefile.Grammar
import Vizra.Regex.Basic
import Vizra.Worklist.Basic

/-!
# The gate closure and its recipes (`scripts/make-integrity-guard.py`)

`prerequisite_closure` computes from the rule lines what the named targets depend on. `check_text` finds the rule
lines of these targets and hands their recipes to `check_recipe`. After make has run, `check_db_recipes` compares the
same recipes with the ones that make's database lists.
-/

namespace Vizra.Makefile

open Py

/-! ## The closure -/

/-- `RULE_RE`: the text before the colon and the text behind it. -/
def matchRuleRe (code : Str) : Option (Str × Str) :=
  let names := code.takeWhile fun c => !(c == '#' || c == '=' || c == ':')
  match code.drop names.length with
  | ':' :: rest => if names.head?.any (· != '\t') && !rest.contains '=' then some (names, rest) else none
  | _ => none

/-- The words of a prerequisite list, which an inline recipe ends. -/
def prerequisiteWords (deps : Str) : List Str := splitWords (replaceChar '|' ' ' (deps.takeWhile (· != ';')))

/-- What a line adds to the prerequisites of a target. -/
def linePrereqs (t : Str) (rec : LogicalLine) : List Str :=
  if rec.tab then []
  else
    match matchRuleRe rec.code with
    | none => []
    | some (names, deps) =>
      (splitWords names).flatMap fun n =>
        if n.head? == some '.' || n.contains '%' then []
        else if n == t then (prerequisiteWords deps).filter fun d => d.head? != some '$'
        else []

/-- `prereqs.get(t, [])`. -/
def prereqs (lines : List LogicalLine) (t : Str) : List Str := lines.flatMap (linePrereqs t)

/-- `prerequisite_closure` over the lines of all files, with a number of rounds for its loop. -/
def prerequisiteClosure (rounds : Nat) (lines : List LogicalLine) (seeds : List Str) : Option (List Str) :=
  Worklist.run (prereqs lines) rounds [] seeds

/-! ## The recipes of the closure -/

section

open Regex

def space : Rx Char := .cls isSpace

/-- The names that only the approved assignments may set. -/
def controlledNames : List Str := ["SHELL", ".SHELLFLAGS", "MAKEFLAGS", "GNUMAKEFLAGS", "MFLAGS"].map str

/-- `^\s*(?:export\s+|override\s+|private\s+)*(…)\s*([:+?!]?=)\s*(.*?)\s*$`. -/
def assignmentRe : Rx Char :=
  .seq (.star space) <| .seq (.star (.seq (.oneOf (["export", "override", "private"].map str)) (.plus space))) <|
    .seq (.oneOf controlledNames) <| .seq (.star space) <| .seq (.opt (.cls (str ":+?!").contains)) <|
    .seq (.char '=') (.star (.cls fun _ => true))

end

/-- `^t\s*:(?!=)`. -/
def definesTarget (t code : Str) : Bool :=
  t.isPrefixOf code &&
    match (code.drop t.length).dropWhile isSpace with
    | ':' :: rest => rest.head? != some '='
    | _ => false

/-- A rule line of a target of the closure, as `check_text` finds it. -/
structure Definition where
  target : Str
  n : Nat
  /-- the prerequisites that make computes -/
  computed : List Str
  /-- it stands inside a conditional -/
  conditional : Bool
  recipe : List (Nat × Str)

/-- `re.sub(r"^[^:]*::?", "", body, count=1)`. -/
def behindColons (body : Str) : Str :=
  match body.dropWhile (· != ':') with
  | ':' :: ':' :: rest => rest
  | ':' :: rest => rest
  | _ => body

/-- How deep in conditionals the line behind `rec` stands. -/
def conditionalDepth (depth : Nat) (rec : LogicalLine) : Nat :=
  let head := (strip rec.code).takeWhile (· != ' ')
  if (["ifeq", "ifneq", "ifdef", "ifndef"].map str).contains head then depth + 1
  else if head == str "endif" then depth - 1
  else depth

/-- The definitions that `check_text` finds from a line on. -/
def definitionsFrom (targets : List Str) : Nat → List LogicalLine → List Definition
  | _, [] => []
  | depth, rec :: lines =>
    let found :=
      if rec.tab || assignmentRe.accepts rec.code then []
      else
        (targets.filter fun t => definesTarget t rec.code).map fun t =>
          { target := t
            n := rec.n
            computed := (prerequisiteWords (behindColons rec.code)).filter fun d => d.contains '$'
            conditional := depth > 0
            recipe := recipeLines lines }
    found ++ definitionsFrom targets (conditionalDepth depth rec) lines

def checkTextDefinitions (targets : List Str) (lines : List LogicalLine) : List Definition :=
  definitionsFrom targets 0 lines

/-- The loop over the prefix characters of a recipe line: the prefix and the command; `started` says whether one was
read. -/
def recipePrefixes : Bool → Str → Str × Str
  | _, [] => ([], [])
  | started, c :: s =>
    if (str "@-+").contains c then
      let r := recipePrefixes true s
      (c :: r.1, r.2)
    else if started && isSpace c then recipePrefixes true s
    else ([], c :: s)

/-- `_SUBMAKE_RE` finds something. -/
def startsSubmake (body : Str) : Bool :=
  [str "$(MAKE)", str "$(MAKE\x7d", str "$\x7bMAKE)", str "$\x7bMAKE\x7d"].any fun m => contains body m

def swallowingSuffixes : List Str :=
  ["|| true", "|| :", "|| exit 0", "|| /bin/true", "|| /usr/bin/true", "; true", "; :", "; exit 0"].map str

/-- Why a recipe line is refused. -/
inductive RecipeFailure where
  -- the prefix `-`
  | ignored
  | submake
  -- the prefix `+`
  | forced
  | swallowed (suffix : Str)
deriving DecidableEq

def recipeLineFailures (body : Str) : List RecipeFailure :=
  let r := recipePrefixes false body
  (if r.1.contains '-' then [.ignored] else []) ++ (if startsSubmake r.2 then [.submake] else []) ++
    (if r.1.contains '+' then [.forced] else []) ++
    ((swallowingSuffixes.find? fun suffix => suffix.isSuffixOf (rstrip r.2)).map .swallowed).toList

/-- `check_recipe`: the failures with their lines. -/
def checkRecipe (d : Definition) : List (Nat × RecipeFailure) :=
  d.recipe.flatMap fun line => (recipeLineFailures line.2).map fun failure => (line.1, failure)

/-- A recipe line that `check_recipe` has examined, under its target. -/
structure GateLine where
  n : Nat
  target : Str
  body : Str
deriving DecidableEq

/-- `GATE_RECIPE_LINES` after the text reading. -/
def gateRecipeLines (defs : List Definition) : List GateLine :=
  defs.flatMap fun d => d.recipe.map fun line => ⟨line.1, d.target, line.2⟩

/-! ## The recipes in make's database -/

/-- What `_db_recipe_lines` keeps from line to line. -/
structure DbRecipe where
  out : List Str := []
  buf : Str := []

def DbRecipe.line (s : DbRecipe) (raw : Str) : DbRecipe :=
  let buf := if s.buf.isEmpty then raw else s.buf ++ ' ' :: raw.dropWhile (· == '\t')
  if (rstrip buf).getLast? == some '\\' then { s with buf := (rstrip buf).dropLast }
  else { out := s.out ++ [strip buf], buf := [] }

/-- `_db_recipe_lines` of the lines that the database lists. -/
def dbRecipeLines (listing : List Str) : List Str :=
  let s := listing.foldl DbRecipe.line {}
  (if s.buf.isEmpty then s.out else s.out ++ [strip s.buf]).filter fun b => !b.isEmpty

def norm (line : Str) : Str := (str " ").intercalate (splitWords line)

inductive DbFailure where
  | unreadable
  | noEntry (t : Str)
  | duplicate (t : Str)
  | different (t : Str)
  | line (t body : Str)
deriving DecidableEq

/-- What `check_db_recipes` says about one target, where `text` holds the lines that the text reading has examined. -/
def checkDbTarget (db : Database) (text : List GateLine) (t : Str) : List DbFailure :=
  match db.recipes.lookup t with
  | none => [.noEntry t]
  | some listing =>
    if db.duplicates.contains t then [.duplicate t]
    else
      (if (dbRecipeLines listing).map norm != (text.filter fun l => l.target == t).map fun l => norm l.body then
        [.different t] else []) ++
      ((dbRecipeLines listing).filter fun body => !(recipeLineFailures body).isEmpty).map (.line t)

def checkDbRecipes (db : Database) (text : List GateLine) (closure : List Str) : List DbFailure :=
  (if db.unreadable.isEmpty then [] else [.unreadable]) ++ closure.flatMap (checkDbTarget db text)

end Vizra.Makefile
