import Vizra.Lanes.ImageScan
import Vizra.Report.Basic

/-!
# The verdict on a test run (`scripts/go-test-report.py`)

The script counts the events of `go test -json` and holds the counts against the floors of a suite. The files are
given as what Python's library reads from them. It is the verdict that is modelled: what the script prints, with
`--emit-floors` or without, is left out. Every exit other than 0 is 1, that of an exception included.
-/

namespace Vizra.Lanes

open Py

/-- A line of the event stream. -/
inductive EventLine where
  | blank
  -- `json.loads` raises a JSONDecodeError
  | malformed
  | value (v : Json)

structure ReportArgs where
  events : Option (List EventLine)
  suite : Str
  floors : ReportFile
  -- nothing if `--go-exit-file` is not given
  goExitFile : Option ExitFile

/-- How the script can stop before its verdict. -/
inductive ReportStop where
  | noFloors
  | floorsMalformed
  | noSuite
  | noMinTests
  | noGoExit
  | noEvents
  -- an exception that nothing catches
  | raised
deriving DecidableEq

/-! ## The floors -/

structure Floor where
  minTests : Int
  -- `allowed_skips or {}`
  allowedSkips : Json
  -- `min_package_tests or {}`
  minPackageTests : Json

/-- `v or {}`. -/
def orEmpty (v : Json) : Json := if v.truth then v else .dict []

/-- `v.get(k)`, unless it raises. -/
def getOf (v : Json) (k : Str) : Except ReportStop Json :=
  match v with
  | .dict d => .ok (JsonDict.get d k)
  | _ => .error .raised

def suiteFloor (suites : Json) (suite : Str) : Except ReportStop Json :=
  match suites with
  | .dict d => if JsonDict.has d suite then .ok (JsonDict.get d suite) else .error .noSuite
  | _ => .error .noSuite

def readFloor (floors : ReportFile) (suite : Str) : Except ReportStop Floor :=
  match floors with
  | .missing => .error .noFloors
  | .blank => .error .floorsMalformed
  | .malformed => .error .floorsMalformed
  | .value doc => do
    let suites ← getOf doc (str "suites")
    let floor ← suiteFloor suites suite
    let minTests ← getOf floor (str "min_tests")
    match minTests.asInt? with
    | none => .error .noMinTests
    | some n =>
      if n < 1 then .error .noMinTests
      else do
        let allowedSkips ← getOf floor (str "allowed_skips")
        let minPackageTests ← getOf floor (str "min_package_tests")
        return ⟨n, orEmpty allowedSkips, orEmpty minPackageTests⟩

def readGoExit : Option ExitFile → Except ReportStop Int
  | some (.code n) => .ok n
  | _ => .error .noGoExit

/-! ## The event stream -/

/-- What the loop over the events has gathered. -/
structure Tally where
  passed : List (Json × Json) := []
  failed : List (Json × Json) := []
  skipped : List (Json × Json) := []
  pkgFailed : List Json := []
  malformed : Nat := 0
  events : Nat := 0

/-- `ev.get("Package") or "(no package)"`. -/
def eventPackage (ev : JsonDict) : Json :=
  if (ev.get (str "Package")).truth then ev.get (str "Package") else .str (str "(no package)")

/-- An event that names a test. -/
def Tally.test (t : Tally) (action pkg test : Json) : Tally :=
  if action.isText (str "pass") then { t with passed := t.passed ++ [(pkg, test)] }
  else if action.isText (str "fail") then { t with failed := t.failed ++ [(pkg, test)] }
  else if action.isText (str "skip") then { t with skipped := t.skipped ++ [(pkg, test)] }
  else t

def packageActions : List Str := [str "pass", str "fail", str "skip"]

/-- An event of a package. The sets of packages that passed or have no tests are only printed. -/
def Tally.package (t : Tally) (action pkg : Json) : Except ReportStop Tally :=
  if packageActions.any (fun a => action.isText a) && !pkg.hashable then .error .raised
  else if action.isText (str "fail") then .ok { t with pkgFailed := t.pkgFailed ++ [pkg] }
  else .ok t

def Tally.event (t : Tally) (ev : JsonDict) : Except ReportStop Tally :=
  let action := ev.get (str "Action")
  let pkg := eventPackage ev
  let test := ev.get (str "Test")
  let t := { t with events := t.events + 1 }
  if action.isText (str "output") && test.truth then
    if pkg.hashable && test.hashable then .ok t else .error .raised
  else if test.truth then .ok (t.test action pkg test)
  else t.package action pkg

def Tally.line (t : Tally) : EventLine → Except ReportStop Tally
  | .blank => .ok t
  | .malformed => .ok { t with malformed := t.malformed + 1 }
  | .value (.dict ev) => t.event ev
  | .value _ => .ok { t with malformed := t.malformed + 1 }

def tally (lines : List EventLine) : Except ReportStop Tally := lines.foldlM Tally.line {}

/-- `every`. -/
def Tally.every (t : Tally) : List (Json × Json) := t.passed ++ t.failed ++ t.skipped

/-- `executed`. -/
def Tally.executed (t : Tally) : Nat := t.every.length

/-- `per_package.get(pkg, 0)`. -/
def Tally.inPackage (t : Tally) (pkg : Str) : Nat := t.every.countP fun e => e.1.isText pkg

/-! ## The verdict -/

inductive TestProblem where
  | malformed (lines : Nat)
  | failed
  -- a package that failed with no failing test
  | packageFailed (pkg : Json)
  | skipped (pkg test : Json)
  | tooFew (executed : Nat)
  | packageTooFew (pkg : Str) (got : Nat)
  -- packages with tests and no floor
  | unfloored
  | goExit (n : Int)

section

variable (repr : Json → Str)

/-- The reason for which a skip is allowed, unless the lookup raises. `sorted(skipped)` can raise as well, but only
when a package is not a text, which then has no floor, or a test is not one, which is raised for here or before. -/
def skipReason (allowedSkips pkg test : Json) : Except ReportStop Json :=
  match allowedSkips with
  | .dict d =>
    if test.hashable then
      let byName := (test.asStr?.map (JsonDict.get d)).getD .null
      .ok (if byName.truth then byName else JsonDict.get d (pkg.text repr ++ str "." ++ test.text repr))
    else .error .raised
  | _ => .error .raised

def checkSkip (floor : Floor) (e : Json × Json) : Except ReportStop (List TestProblem) := do
  let reason ← skipReason repr floor.allowedSkips e.1 e.2
  return Report.failIf (!reason.truth) (.skipped e.1 e.2)

def checkPackage (t : Tally) (kv : Str × Json) : Except ReportStop (List TestProblem) :=
  match Json.exceeds (t.inPackage kv.1) kv.2 with
  | some under => .ok (Report.failIf under (.packageTooFew kv.1 (t.inPackage kv.1)))
  | none => .error .raised

/-- The packages that failed with no failing test. One whose name is no text is never among those of the failing
tests: they are refused either way. -/
def checkFailedPackages (t : Tally) : List TestProblem :=
  (t.pkgFailed.filter fun pkg => !(t.failed.any fun e => pkg.asStr?.any e.1.isText)).map .packageFailed

/-- Some package ran tests and has no floor. -/
def unfloored (t : Tally) (floors : JsonDict) : Bool :=
  t.every.any fun e => !(e.1.asStr?.any fun pkg => JsonDict.has floors pkg)

def checkFloors (floor : Floor) (t : Tally) : Except ReportStop (List TestProblem) :=
  match floor.minPackageTests with
  | .dict floors => Report.all
    [Report.each floors (checkPackage t), Report.found (Report.failIf (unfloored t floors) .unfloored)]
  | _ => .error .raised

/-- `"/" not in t` for the tests and the keys of `per_package`. -/
def checkKeys (t : Tally) : Except ReportStop (List TestProblem) :=
  if t.every.any fun e => e.2.isNumber || !e.1.hashable then .error .raised else .ok []

def problems (floor : Floor) (goExit : Int) (t : Tally) : Except ReportStop (List TestProblem) :=
  Report.all
    [checkKeys t,
      Report.found (Report.failIf (t.malformed != 0) (.malformed t.malformed)),
      Report.found (Report.failIf (!t.failed.isEmpty) .failed),
      Report.found (checkFailedPackages t),
      Report.each t.skipped (checkSkip repr floor),
      Report.found (Report.failIf (t.executed < floor.minTests) (.tooFew t.executed)),
      checkFloors floor t,
      Report.found (Report.failIf (goExit != 0) (.goExit goExit))]

def judge (args : ReportArgs) : Except ReportStop (List TestProblem) := do
  let floor ← readFloor args.floors args.suite
  let goExit ← readGoExit args.goExitFile
  match args.events with
  | none => .error .noEvents
  | some lines => do
    let t ← tally lines
    if t.events = 0 then .error .noEvents else problems repr floor goExit t

/-- The exit code. -/
def goTestReport (args : ReportArgs) : Nat :=
  match judge repr args with
  | .ok [] => 0
  | _ => 1

end

end Vizra.Lanes
