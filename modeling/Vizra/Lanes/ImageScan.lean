import Vizra.PyStd.Json

/-!
# The verdict on an image scan (`scripts/image-scan-verdict.py`)

The script judges the exit code of the scanner, then whether the report is one about the image, and only then the
findings. The two files are given as what Python's library reads from them; `repr` is what `str()` says of a value
that is neither a text nor a constant.
-/

namespace Vizra.Lanes

open Py

/-- `SEVERITY_ORDER`. -/
def severityOrder : List Str := ["UNKNOWN", "LOW", "MEDIUM", "HIGH", "CRITICAL"].map str

/-- What stands in the file of the scanner's exit code. -/
inductive ExitFile where
  | missing
  | blank
  -- `int()` raises
  | notInteger
  | code (n : Int)
deriving DecidableEq

/-- What stands in the report. -/
inductive ReportFile where
  | missing
  | blank
  -- `json.loads` raises a JSONDecodeError
  | malformed
  | value (v : Json)

structure ScanArgs where
  report : ReportFile
  imageRef : Str
  scannerExit : ExitFile
  failOn : Str := str "HIGH,CRITICAL"
  minResults : Int := 1

/-- Why there is no valid scan. -/
inductive NoScan where
  | unknownSeverities (names : List Str)
  | noSeverities
  | noExitFile
  | exitFileBlank
  | exitNotInteger
  | scannerFailed (n : Int)
  | noReport
  | reportBlank
  | notJson
  | notObject
  | noSchemaVersion
  | wrongImage
  | notAnImage
  | noOperatingSystem
  | resultsNull
  | resultsNotList
  | tooFewResults (n : Nat)
  | noOsPackages

/-- How the script can stop before the findings. -/
inductive Stop where
  | die (why : NoScan)
  -- an exception that nothing catches
  | raised

/-- `fail_on`. -/
def failOnSet (text : Str) : List Str :=
  ((text.splitOn ',').filter fun s => !(strip s).isEmpty).map fun s => upper (strip s)

def checkFailOn (text : Str) : Except Stop (List Str) :=
  let failOn := failOnSet text
  let unknown := failOn.filter fun s => !severityOrder.contains s
  if !unknown.isEmpty then .error (.die (.unknownSeverities unknown))
  else if failOn.isEmpty then .error (.die .noSeverities)
  else .ok failOn

def checkScannerExit : ExitFile → Except Stop Unit
  | .missing => .error (.die .noExitFile)
  | .blank => .error (.die .exitFileBlank)
  | .notInteger => .error (.die .exitNotInteger)
  | .code n => if n ≠ 0 then .error (.die (.scannerFailed n)) else .ok ()

def loadReport : ReportFile → Except Stop JsonDict
  | .missing => .error (.die .noReport)
  | .blank => .error (.die .reportBlank)
  | .malformed => .error (.die .notJson)
  | .value (.dict doc) => if JsonDict.has doc (str "SchemaVersion") then .ok doc else .error (.die .noSchemaVersion)
  | .value _ => .error (.die .notObject)

/-- The report is one about the image. -/
def checkArtifact (imageRef : Str) (doc : JsonDict) : Except Stop Unit :=
  let kind := doc.get (str "ArtifactType")
  if !(doc.get (str "ArtifactName")).isText imageRef then .error (.die .wrongImage)
  else if !(kind.isText (str "container_image") || kind.isText (str "image")) then .error (.die .notAnImage)
  else .ok ()

/-- `(v or {}).get(k)`, unless it raises. -/
def getOrEmpty (v : Json) (k : Str) : Except Stop Json :=
  if v.truth then
    match v with
    | .dict d => .ok (JsonDict.get d k)
    | _ => .error .raised
  else .ok .null

/-- The scanner recognised the distribution. -/
def checkSystem (doc : JsonDict) : Except Stop Unit := do
  let os ← getOrEmpty (doc.get (str "Metadata")) (str "OS")
  let family ← getOrEmpty os (str "Family")
  if family.truth then .ok () else .error (.die .noOperatingSystem)

/-- `classes`, with its repetitions. -/
def classes (results : List Json) : List Json :=
  results.filterMap fun r => r.asDict?.map fun d => d.get (str "Class")

/-- `sorted(c for c in classes if c)` does not raise. -/
def sortable (classes : List Json) : Bool :=
  let named := classes.filter Json.truth
  !(named.any (fun c => c.asStr?.isSome) && named.any Json.isNumber)

/-- The scanner analysed something. -/
def checkResults (minResults : Int) (doc : JsonDict) : Except Stop (List Json) :=
  match doc.get (str "Results") with
  | .null => .error (.die .resultsNull)
  | .list results =>
    let found := classes results
    if results.length < minResults then .error (.die (.tooFewResults results.length))
    else if !(found.all Json.hashable && sortable found) then .error .raised
    else if !(found.any (Json.isText (str "os-pkgs"))) then .error (.die .noOsPackages)
    else .ok results
  | _ => .error (.die .resultsNotList)

section

variable (repr : Json → Str)

/-- `sev`, of one vulnerability. -/
def severity (v : JsonDict) : Str :=
  upper (Json.text repr ((v.lookup (str "Severity")).getD (.str (str "UNKNOWN"))))

def vulnerabilitySeverity : Json → Except Stop Str
  | .dict d => .ok (severity repr d)
  | _ => .error .raised

/-- The severities of the vulnerabilities of one result. -/
def resultSeverities : Json → Except Stop (List Str)
  | .dict r =>
    let vulnerabilities := JsonDict.get r (str "Vulnerabilities")
    if vulnerabilities.truth then
      match vulnerabilities with
      | .list vs => vs.mapM (vulnerabilitySeverity repr)
      -- the characters of a text and the keys of an object have no `get`, and a number is not iterable
      | _ => .error .raised
    else .ok []
  | _ => .ok []

def severities (results : List Json) : Except Stop (List Str) := do
  let found ← results.mapM (resultSeverities repr)
  return found.flatten

/-- The script up to its verdict: the severities that fail, and those of the findings. -/
def readScan (args : ScanArgs) : Except Stop (List Str × List Str) := do
  let failOn ← checkFailOn args.failOn
  checkScannerExit args.scannerExit
  let doc ← loadReport args.report
  checkArtifact args.imageRef doc
  checkSystem doc
  let results ← checkResults args.minResults doc
  let found ← severities repr results
  return (failOn, found)

/-- The exit code. -/
def imageScanVerdict (args : ScanArgs) : Nat :=
  match readScan repr args with
  | .error (.die _) => 3
  | .error .raised => 1
  | .ok (failOn, found) => if found.any failOn.contains then 1 else 0

end

end Vizra.Lanes
