import Vizra.PyStd.Value
import Vizra.Report.Basic
import Vizra.Worklist.Basic
import Mathlib.Data.Char
import Mathlib.Data.List.AList
import Mathlib.Data.List.Lex
import Mathlib.Data.List.Sort

/-!
# The workflows that the guard reads (`scripts/ci-required-guard.py`)

The documents of the workflow directory, the two indexes that `main` builds of their jobs, and what the guard reads
of one job: its name, its steps, its `needs` and the places where it opts out of failing. `repr` is what `str()`
says of a list, a mapping or a set.
-/

namespace Vizra.CiGuard

open Py

/-- How the program ends when `main` does not return. -/
inductive Exit where
  -- `raise SystemExit(…)` with a message or with 1
  | systemExit
  -- an exception that nothing catches
  | raised
deriving DecidableEq

/-- What reading a file and loading its YAML gives. -/
inductive Loaded where
  | value (v : Value)
  | yamlError
  -- any other exception: the file cannot be read or decoded
  | raised

structure File where
  name : Str
  content : Loaded

/-! ## Reading values -/

/-- The mapping of `v or {}`, of which a method of mappings is called. -/
def orDict (v : Value) : Except Exit Mapping :=
  if v.truth then
    match v.asDict? with
    | some m => pure m
    | none => throw .raised
  else pure []

/-- The elements of `v or []`. -/
def orList (v : Value) : Except Exit (List Value) :=
  if v.truth then
    match v.iterate? with
    | some items => pure items
    | none => throw .raised
  else pure []

/-- `[s for s in (job.get("steps") or []) if isinstance(s, dict)]`. -/
def jobSteps (job : Mapping) : Except Exit (List Mapping) := do
  let items ← orList (job.get (str "steps"))
  pure (items.filterMap Value.asDict?)

/-! ## The files -/

/-- `*.yml` and `*.yaml`. -/
def isWorkflowName (name : Str) : Bool := (str ".yml").isSuffixOf name || (str ".yaml").isSuffixOf name

/-- The documents among the files, in their order. -/
def documents : List File → Except Exit (List (Str × Mapping))
  | [] => pure []
  | f :: files =>
    match f.content with
    | .yamlError => throw .systemExit
    | .raised => throw .raised
    | .value v => do
      let rest ← documents files
      match v.asDict? with
      | some doc => pure ((f.name, doc) :: rest)
      | none => pure rest

def loadWorkflows (dir : List File) : Except Exit (List (Str × Mapping)) :=
  documents ((dir.filter fun f => isWorkflowName f.name).insertionSort fun f g => f.name ≤ g.name)

def jobDisplayName (key : Atom) (job : Mapping) : Atom :=
  match (job.get (str "name")).asStr? with
  | some name => .str name
  | none => key

/-- What the indexes hold of a job. -/
structure Entry where
  path : Str
  doc : Mapping
  job : Mapping

/-- The jobs of a document that are mappings, under their keys. -/
def workflowJobs (path : Str) (doc : Mapping) : Except Exit (List (Atom × Entry)) := do
  let jobs ← orDict (doc.get (str "jobs"))
  pure (jobs.filterMap fun kv => kv.2.asDict?.map fun job => (kv.1, ⟨path, doc, job⟩))

/-- `jobs_by_key`. -/
abbrev ByKey := List (Str × List (Atom × Entry))

def jobsByKey (workflows : List (Str × Mapping)) : Except Exit ByKey :=
  workflows.mapM fun w => do
    let jobs ← workflowJobs w.1 w.2
    pure (w.1, jobs)

/-- The jobs in the order in which `main` meets them. -/
def ByKey.listed (byKey : ByKey) : List (Atom × Entry) := byKey.flatMap Prod.snd

/-- `jobs[job_display_name(key, job)] = (path, doc, job)`, one job after the other. -/
def indexByName (listed : List (Atom × Entry)) : AList fun _ : Atom => Entry :=
  listed.foldl (fun jobs ke => jobs.insert (jobDisplayName ke.1 ke.2.job) ke.2) ∅

/-! ## One job -/

section

variable (repr : Value → Str)

/-- The events that the workflow runs on; `on` is also read as a boolean. -/
def triggers (doc : Mapping) : List Str :=
  match (doc.lookup (.str (str "on"))).getD doc.getTrue with
  | .atom (.str s) => [s]
  | .list items => items.map (Value.text repr)
  | .dict items => items.map fun kv => kv.1.text
  | _ => []

def needsOf (job : Mapping) : List Str :=
  match job.get (str "needs") with
  | .atom (.str s) => [s]
  | .list items => items.map (Value.text repr)
  | _ => []

/-- `(jobs_by_key.get(path) or {}).get(key)`. -/
def ByKey.find (byKey : ByKey) (path : Str) (key : Str) : Option Entry :=
  ((byKey.lookup path).getD []).lookup (.str key)

/-- What the loop of `expand_needs` appends to the queue for a key. -/
def needsOfKey (byKey : ByKey) (path : Str) (key : Str) : List Str :=
  match byKey.find path key with
  | some entry => needsOf repr entry.job
  | none => []

/-- The keys of a workflow's jobs that are texts. -/
def ByKey.keys (byKey : ByKey) (path : Str) : List Str :=
  ((byKey.lookup path).getD []).filterMap fun ke => match ke.1 with
    | .str s => some s
    | _ => none

/-- The named job and every job that it needs, transitively, within its workflow. -/
def expandNeeds (byKey : ByKey) (lane : Str) (entry : Entry) : List (Str × Entry) :=
  let seen := Worklist.reach (needsOfKey repr byKey entry.path) (byKey.keys entry.path) (needsOf repr entry.job)
  (lane, entry) :: seen.filterMap fun key =>
    (byKey.find entry.path key).map fun e => (lane ++ str " -> needs:" ++ key, e)

end

/-- `str(key).strip().lower().replace("_", "-") == "continue-on-error"`. -/
def isContinueOnError (key : Atom) : Bool :=
  replaceChar '_' '-' (lower (strip key.text)) == str "continue-on-error"

/-- A place where `continue-on-error` stands. -/
inductive Site where
  | job (key : Atom)
  | step (i : Nat) (key : Atom)
deriving DecidableEq

def continueOnErrorSites (job : Mapping) : Except Exit (List Site) := do
  let atJob := (job.filter fun kv => isContinueOnError kv.1).map fun kv => Site.job kv.1
  let items ← orList (job.get (str "steps"))
  let atSteps := items.zipIdx.flatMap fun (item, i) =>
    match item.asDict? with
    | some step => (step.filter fun kv => isContinueOnError kv.1).map fun kv => Site.step i kv.1
    | none => []
  pure (atJob ++ atSteps)

end Vizra.CiGuard
