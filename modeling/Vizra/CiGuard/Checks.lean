import Vizra.CiGuard.Workflow
import Vizra.Makefile.Lines

/-!
# The checks of the guard (`scripts/ci-required-guard.py`)

`main` reads the manifest, the pins and the workflows, runs its checks and returns 0 when none of them failed. A
failure stands for the message that is printed; the lines that report success are left out, and so is the
tokeniser that only adds a sentence to one message. Checks 5 and 11, which read the Makefile and its digests, are
given by the messages that they print.
-/

namespace Vizra.CiGuard

open Py Report

/-- The lanes that cannot be removed from the gate. -/
def floorLanes : List Str :=
  ["append-only", "build-test", "cache-matrix", "fixtures", "govulncheck", "docker-build"].map str

def runner : Str := str "ubuntu-24.04"

/-- Where an `env` or a `defaults` stands. -/
inductive Scope where
  | workflow
  | job
deriving DecidableEq

/-- The suites that a lane runs directly. -/
inductive Suite where
  | unit
  | integration
deriving DecidableEq

/-- What is wrong with the job of a lane. Steps are counted among those that are mappings. -/
inductive Problem where
  | notTriggered
  | noAnchor
  | anchorAfterMake (anchorAt makeAt : Nat)
  | anchorConditional
  | anchorContinueOnError (key : Atom)
  | defaultsShell (scope : Scope)
  | unpinnedMake (i : Nat) (body : Str)
  | makeStepKeys (i : Nat) (keys : List Atom)
  | anchorKeys (i : Nat) (keys : List Atom)
  | notAdjacent (i : Nat)
  | env (scope : Scope) (key : Atom)
  | missingInvocations (bodies : List Str)
  | lookalikeAnchor (i : Nat)
  | defaultsRun (scope : Scope)
  | container
  | serviceImage (name : Atom) (image : Str)
  | noProvenance
  | provenanceConditional
  | provenanceContinueOnError (key : Atom)
  | continueOnError (sites : List Site)
  | directKeys (i : Nat) (keys : List Atom)
  | directUnpinned (i : Nat) (body : Str)
deriving DecidableEq

inductive Failure where
  | floorCommentedOut (lane : Str)
  | floorMissing (lane : Str)
  | unresolved (name : Str)
  | lane (label path : Str) (p : Problem)
  | noDirectPins (suite : Suite)
  | noDirectLane (suite : Suite)
  | makefile (message : Str)
  | badRunners (jobs : List (Str × Atom))
  | unpinnedActions (uses : List (Str × Atom × Str))
deriving DecidableEq

/-! ## The pinned bodies -/

def trimOneNewline (text : Str) : Str := if text.getLast? = some '\n' then text.dropLast else text

/-- What `load_pins` returns, with the anchor that it sets. -/
structure Pins where
  makeSteps : List Str
  direct : List Str
  anchor : Str
  requiredInv : AList fun _ : Str => List Str

/-- `trim_one_newline` of a value, which must be a text. -/
def trimmed (v : Value) : Except Exit Str :=
  match v.asStr? with
  | some s => pure (trimOneNewline s)
  | none => throw .raised

/-- `[trim_one_newline(x) for x in (v or [])]`. -/
def bodies (v : Value) : Except Exit (List Str) := do
  let items ← orList v
  items.mapM trimmed

def loadRequired (doc : Mapping) : Except Exit (AList fun _ : Str => List Str) := do
  let items ← orDict (doc.get (str "required_invocations"))
  let entries ← items.mapM fun kv => do
    let bs ← bodies kv.2
    pure (kv.1.text, bs)
  pure (entries.foldl (fun inv kb => inv.insert kb.1 kb.2) ∅)

def loadPins : Option Loaded → Except Exit Pins
  | none => throw .systemExit
  | some .yamlError => throw .raised
  | some .raised => throw .raised
  | some (.value v) => do
    let doc ← orDict v
    let makeSteps ← bodies (doc.get (str "make_steps"))
    let direct ← bodies (doc.get (str "direct_test_steps"))
    match (doc.get (str "anchor_step")).asStr? with
    | none => throw .systemExit
    | some anchor =>
      if (strip anchor).isEmpty then throw .systemExit
      else
        let requiredInv ← loadRequired doc
        if requiredInv.entries.any fun kb => kb.2.any fun b => b ∉ makeSteps then throw .systemExit
        else if makeSteps.isEmpty || direct.isEmpty || requiredInv.entries.isEmpty then throw .systemExit
        else pure ⟨makeSteps, direct, trimOneNewline anchor, requiredInv⟩

/-! ## Steps -/

/-- `(?:^|[\s;&|("'`])make(?=\s|$)` somewhere in a text that follows `prev`. -/
def makeInvocation : Option Char → Str → Bool
  | _, [] => false
  | prev, c :: s =>
    ((prev.all fun p => isSpace p || (str ";&|(\"'`").contains p) && (str "make").isPrefixOf (c :: s) &&
      ((c :: s).drop 4).head?.all isSpace) || makeInvocation (some c) s

def stepRunsMake (step : Mapping) : Bool := (step.get (str "run")).asStr?.any (makeInvocation none)

/-- The step's body is the pinned anchor. -/
def stepIsTheAnchor (anchor : Str) (step : Mapping) : Bool :=
  (step.get (str "run")).asStr?.any fun run => trimOneNewline run == anchor

def stepMentionsTheAnchor (step : Mapping) : Bool :=
  (step.get (str "run")).asStr?.any fun run => contains run (str "make-integrity-guard")

def stepKeysAllowed : List Str := ["name", "run", "id"].map str

/-- The keys of a step that are not allowed; `sorted` only orders what is reported. -/
def extraKeys (step : Mapping) : List Atom := (step.map Prod.fst).filter fun k => k.text ∉ stepKeysAllowed

/-! ## The environment of a job -/

def dangerousEnvNames : List Str :=
  ["MAKEFLAGS", "GNUMAKEFLAGS", "MFLAGS", "MAKEFILES", "SHELL", "PATH", "BASH_ENV", "ENV", "MAKELEVEL",
    "MAKE_RESTARTS", "MAKEOVERRIDES", "MAKECMDGOALS"].map str

/-- `MAKEFILE_ENV_NAMES`, once the Makefile is read: the names that it assigns with `?=`, and GOFLAGS. -/
def makefileEnvNames (makefile : Option Str) : List Str :=
  str "GOFLAGS" :: ((makefile.map Makefile.makefileLines).getD []).filterMap fun rec =>
    (Makefile.matchAssign Makefile.isIdentChar [str "?="] rec.raw).map Prod.fst

def envProblems (envNames : List Str) (scope : Scope) (env : Value) : List Problem :=
  match env.asDict? with
  | none => []
  | some items => (items.filter fun kv =>
      let name := strip kv.1.text
      dangerousEnvNames.contains (upper name) || envNames.contains name).map fun kv => .env scope kv.1

/-! ## Checks 8, 8b, 8c and 10, and what surrounds the steps -/

/-- `((holder.get("defaults") or {}).get("run")`. -/
def defaultsRunOf (holder : Mapping) : Except Exit Value := do
  let defaults ← orDict (holder.get (str "defaults"))
  pure (defaults.get (str "run"))

def defaultsShell (scope : Scope) (holder : Mapping) : Except Exit (List Problem) := do
  let run ← defaultsRunOf holder
  let run ← orDict run
  pure (failIf (!(run.get (str "shell")).isNone) (.defaultsShell scope))

def checkAnchor (anchor : Str) (doc job : Mapping) : Except Exit (List Problem) := do
  let steps ← jobSteps job
  match steps.findIdx? stepRunsMake with
  | none => pure []
  | some makeAt =>
    match steps.findIdx? (stepIsTheAnchor anchor) with
    | none => pure [.noAnchor]
    | some anchorAt =>
      if anchorAt > makeAt then pure [.anchorAfterMake anchorAt makeAt]
      else
        let step := steps.getD anchorAt []
        all [
          found (failIf (step.has (str "if")) .anchorConditional),
          found ((step.filter fun kv => isContinueOnError kv.1).map fun kv => .anchorContinueOnError kv.1),
          defaultsShell .workflow doc,
          defaultsShell .job job]

/-- What is wrong with the `i`-th step, which runs make. -/
def makeStepProblems (pins : Pins) (steps : List Mapping) (i : Nat) (step : Mapping) : List Problem :=
  let body := trimOneNewline ((step.get (str "run")).asStr?.getD [])
  let before := if i = 0 then none else steps[i - 1]?
  failIf (!pins.makeSteps.contains body) (.unpinnedMake i body) ++
    failIf (!(extraKeys step).isEmpty) (.makeStepKeys i (extraKeys step)) ++
    match before.filter (stepIsTheAnchor pins.anchor) with
    | some a => failIf (!(extraKeys a).isEmpty) (.anchorKeys i (extraKeys a))
    | none => [.notAdjacent i]

def checkPinnedMakeSteps (pins : Pins) (envNames : List Str) (doc job : Mapping) : Except Exit (List Problem) := do
  let steps ← jobSteps job
  let makeSteps := steps.zipIdx.filter fun si => stepRunsMake si.1 && !stepIsTheAnchor pins.anchor si.1
  if makeSteps.isEmpty then pure []
  else
    all [
      found (makeSteps.flatMap fun si => makeStepProblems pins steps si.2 si.1),
      found (envProblems envNames .workflow (doc.get (str "env"))),
      found (envProblems envNames .job (job.get (str "env")))]

/-- `trim_one_newline(s.get("run") or "")`. -/
def runBody (step : Mapping) : Except Exit Str :=
  let run := step.get (str "run")
  if run.truth then trimmed run else pure []

def checkRequiredInvocations (pins : Pins) (jobKey : Str) (job : Mapping) : Except Exit (List Problem) :=
  let wanted := (pins.requiredInv.lookup jobKey).getD []
  if wanted.isEmpty then pure []
  else do
    let steps ← jobSteps job
    let bodies ← steps.mapM runBody
    let missing := wanted.filter fun w => w ∉ bodies
    pure (failIf (!missing.isEmpty) (.missingInvocations missing))

def defaultsRunProblem (scope : Scope) (holder : Mapping) : Except Exit (List Problem) := do
  let run ← defaultsRunOf holder
  pure (failIf (!run.isNone) (.defaultsRun scope))

/-- A service whose image is not pinned by its digest. -/
def serviceProblem (name : Atom) (svc : Value) : List Problem :=
  match svc.asDict?.bind fun s => (s.get (str "image")).asStr? with
  | some image => failIf (!contains image (str "@sha256:")) (.serviceImage name image)
  | none => []

def serviceProblems (job : Mapping) : Except Exit (List Problem) := do
  let services ← orDict (job.get (str "services"))
  pure (services.flatMap fun kv => serviceProblem kv.1 kv.2)

def checkJobSurroundings (anchor : Str) (doc job : Mapping) : Except Exit (List Problem) := do
  let steps ← jobSteps job
  all [
    found (steps.zipIdx.flatMap fun si =>
      failIf (stepMentionsTheAnchor si.1 && !stepIsTheAnchor anchor si.1) (.lookalikeAnchor si.2)),
    defaultsRunProblem .workflow doc,
    defaultsRunProblem .job job,
    found (failIf (!(job.get (str "container")).isNone) .container),
    serviceProblems job]

section

variable (repr : Value → Str)

/-- `str(v or "")`. -/
def orText (v : Value) : Str := if v.truth then v.text repr else []

def checkProvenance (job : Mapping) : Except Exit (List Problem) := do
  let steps ← jobSteps job
  if !steps.any fun s => contains (orText repr (s.get (str "uses"))) (str "actions/checkout") then pure []
  else
    match steps.find? fun s => contains (orText repr (s.get (str "run"))) (str "provenance.sh") with
    | none => pure [.noProvenance]
    | some prov =>
      if prov.has (str "if") then pure [.provenanceConditional]
      else
        match prov.find? fun kv => isContinueOnError kv.1 with
        | some kv => pure [.provenanceContinueOnError kv.1]
        | none => pure []

/-! ## What `main` reads -/

structure Manifest where
  required : List Str
  commented : List Str
deriving DecidableEq

/-- One line of the manifest. -/
def Manifest.add (m : Manifest) (line : Str) : Manifest :=
  let stripped := strip line
  match stripped with
  | [] => m
  | '#' :: _ => { m with commented := m.commented ++ [strip (stripped.dropWhile (· == '#'))] }
  | _ => { m with required := m.required ++ [stripped] }

def readManifest (text : Str) : Manifest := (splitLines text).foldl Manifest.add ⟨[], []⟩

/-- What reading the manifest gives. -/
inductive ManifestFile where
  | missing
  | raised
  | text (s : Str)

/-- The files that the guard reads, and its one flag. -/
structure Tree where
  manifest : ManifestFile
  /-- the Makefile, unless it is missing or unreadable -/
  makefile : Option Str
  pins : Option Loaded
  workflows : List File
  skipMakefile : Bool
  /-- what checks 5 and 11 find -/
  makefileChecks : Except Exit (List Str)

/-- What `main` has read when the checks start. -/
structure Input where
  manifest : Manifest
  envNames : List Str
  pins : Pins
  workflows : List (Str × Mapping)
  byKey : ByKey

def Tree.read (t : Tree) (m : Manifest) : Except Exit Input := do
  let pins ← loadPins t.pins
  let workflows ← loadWorkflows t.workflows
  let byKey ← jobsByKey workflows
  pure ⟨m, makefileEnvNames t.makefile, pins, workflows, byKey⟩

namespace Input

variable (g : Input)

/-- `jobs`. -/
def jobs : AList fun _ : Atom => Entry := indexByName g.byKey.listed

/-- The floor and what is required. -/
def checked : List Str := (floorLanes ++ g.manifest.required).dedup.insertionSort fun a b => a ≤ b

/-! ## The checks in order -/

def floorFailures : List Failure :=
  (floorLanes.filter fun lane => lane ∉ g.manifest.required).map fun lane =>
    if g.manifest.commented.any fun c => contains c lane then .floorCommentedOut lane else .floorMissing lane

def unresolvedFailures : List Failure :=
  (g.manifest.required.filter fun name => (g.jobs.lookup (.str name)).isNone).map .unresolved

/-- The last part of a label, which stands for the job's key. -/
def labelKey (label : Str) : Str := ((label.splitOn ':').getLast?).getD []

/-- The checks of one job that a lane reaches. -/
def checkJob (label : Str) (e : Entry) : Except Exit (List Failure) :=
  (all [
    checkAnchor g.pins.anchor e.doc e.job,
    checkPinnedMakeSteps g.pins g.envNames e.doc e.job,
    checkRequiredInvocations g.pins (jobDisplayName (.str (labelKey label)) e.job).text e.job,
    checkJobSurroundings g.pins.anchor e.doc e.job,
    checkProvenance repr e.job]).map (List.map (.lane label e.path))

/-- Check 4, of the job that has the lane's name. -/
def checkOptOut (lane : Str) (e : Entry) : Except Exit (List Failure) := do
  let sites ← continueOnErrorSites e.job
  pure (failIf (!sites.isEmpty) (.lane lane e.path (.continueOnError sites)))

def checkLane (lane : Str) : Except Exit (List Failure) :=
  match g.jobs.lookup (.str lane) with
  | none => pure []
  | some e =>
    all [
      found (failIf (!(triggers repr e.doc).contains (str "pull_request")) (.lane lane e.path .notTriggered)),
      each (expandNeeds repr g.byKey lane e) fun le => g.checkJob repr le.1 le.2,
      checkOptOut lane e]

def suiteOf (body : Str) : Suite := if contains body (str "-tags=integration") then .integration else .unit

/-- What check 9 says of a step: a problem, or the suite that it runs. -/
def directStep (i : Nat) (step : Mapping) : Option (Problem ⊕ Suite) :=
  match (step.get (str "run")).asStr? with
  | none => none
  | some run =>
    let body := trimOneNewline run
    if g.pins.direct.contains body then
      if (extraKeys step).isEmpty then some (.inr (suiteOf body)) else some (.inl (.directKeys i (extraKeys step)))
    else if contains run (str "go test") && contains run (str "./...") && !makeInvocation none run then
      some (.inl (.directUnpinned i body))
    else none

/-- The steps of the required lanes' jobs, with what check 9 says of them. -/
def directFindings : Except Exit (List (Str × Str × (Problem ⊕ Suite))) := do
  let found ← g.manifest.required.mapM fun name =>
    match g.jobs.lookup (.str name) with
    | none => pure []
    | some e => do
      let steps ← jobSteps e.job
      pure (steps.zipIdx.filterMap fun si => (g.directStep si.2 si.1).map fun f => (name, e.path, f))
  pure found.flatten

def checkDirectTestLane : Except Exit (List Failure) := do
  let findings ← g.directFindings
  let problems := findings.filterMap fun (name, path, f) => f.getLeft?.map fun p => Failure.lane name path p
  let suites := findings.filterMap fun (_, _, f) => f.getRight?
  let missing := [Suite.unit, Suite.integration].flatMap fun suite =>
    if !g.pins.direct.any fun b => suiteOf b == suite then [.noDirectPins suite]
    else failIf (!suites.contains suite) (.noDirectLane suite)
  pure (problems ++ missing)

/-- `^[^@\s]+@[0-9a-f]{40}(\s|$)`. -/
def isShaPin (uses : Str) : Bool :=
  let name := uses.takeWhile fun c => c != '@' && !isSpace c
  match uses.drop name.length with
  | '@' :: rest =>
    let sha := rest.take 40
    !name.isEmpty && sha.length == 40 && (sha.all fun c => ('0' ≤ c && c ≤ '9') || ('a' ≤ c && c ≤ 'f')) &&
      (rest.drop 40).head?.all isSpace
  | _ => false

def badRunners : List (Str × Atom) :=
  (g.byKey.listed.filter fun ke => (ke.2.job.get (str "runs-on")).asStr? != some runner).map fun ke =>
    (ke.2.path, ke.1)

def unpinnedActions : Except Exit (List (Str × Atom × Str)) := do
  let found ← g.byKey.listed.mapM fun ke => do
    let steps ← jobSteps ke.2.job
    pure ((steps.filterMap fun s => (s.get (str "uses")).asStr?).filterMap fun uses =>
      if !(str "./").isPrefixOf uses && !isShaPin uses then some (ke.2.path, ke.1, uses) else none)
  pure found.flatten

def checkRunners : List Failure := failIf (!g.badRunners.isEmpty) (.badRunners g.badRunners)

def checkActions : Except Exit (List Failure) := do
  let unpinned ← g.unpinnedActions
  pure (failIf (!unpinned.isEmpty) (.unpinnedActions unpinned))

def checks (skipMakefile : Bool) (makefileChecks : Except Exit (List Str)) : Except Exit (List Failure) :=
  all [
    found g.floorFailures,
    found g.unresolvedFailures,
    each g.checked (g.checkLane repr),
    g.checkDirectTestLane,
    if skipMakefile then pure [] else makefileChecks.map (List.map .makefile),
    found g.checkRunners,
    g.checkActions]

end Input

def main (t : Tree) : Except Exit Nat :=
  match t.manifest with
  | .missing => pure 1
  | .raised => throw .raised
  | .text s =>
    let m := readManifest s
    if m.required.isEmpty then pure 1
    else do
      let g ← t.read m
      let failures ← g.checks repr t.skipMakefile t.makefileChecks
      pure (if failures.isEmpty then 0 else 1)

end

end Vizra.CiGuard
