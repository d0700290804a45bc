import Vizra.Fixtures.Corpus
import Vizra.GoStd.Runes
import Vizra.GoStd.Strings
import Mathlib.Data.List.Dedup

/-!
# The fixture manifest (`internal/fixtures/manifest.go`)

`Build` describes what the generator produces, and `VerifyAgainstManifest` compares a manifest with it. The files,
the bytes that each fixture is built to and the digest function are those of a machine. Fields of a manifest that
neither function reads (notes, purposes, assertions, licences) are left out.
-/

namespace Vizra.Fixtures

open Go

structure FileInfo where
  sha256 : Bytes
  bytes : Int
deriving DecidableEq

structure GeneratorInfo where
  version : Bytes
  sourceSHA256 : Bytes
  sourceFiles : List Bytes
deriving DecidableEq

structure ToolchainInfo where
  go : Bytes
  goMod : Bytes
deriving DecidableEq

structure Entry where
  id : Bytes
  path : Bytes
  format : Bytes
  tier : Bytes
  adr009 : Int
  sha256 : Bytes
  bytes : Int
  width : Int
  height : Int
  decode : Bytes
deriving DecidableEq

structure Manifest where
  generator : GeneratorInfo
  toolchain : ToolchainInfo
  codecInputs : List CodecOrigin
  fixtures : List Entry
deriving DecidableEq

def generatorSourceFiles : List Bytes :=
  ["internal/fixtures/codec.go", "internal/fixtures/fixtures.go", "internal/fixtures/gif.go",
    "internal/fixtures/jpeg.go", "internal/fixtures/loadcorpus.go", "internal/fixtures/manifest.go",
    "internal/fixtures/mp4.go", "internal/fixtures/png.go", "internal/fixtures/raster.go",
    "internal/fixtures/webp.go", "cmd/fixturegen/main.go"].map ascii

/-- How a call ends that does not return a result. -/
inductive Failure where
  | err (text : Bytes)
  -- a slice bound out of range
  | panic
deriving DecidableEq

/-- What `os.ReadFile` returns for a file of the output directory. -/
inductive Read where
  | notExist
  | failed (text : Bytes)
  | content (b : Bytes)

/-- The directories that the corpus is generated into. -/
inductive Dir where
  | out
  | scratch

structure Machine where
  /-- `runtime.Version()` -/
  goVersion : Bytes
  /-- `os.ReadFile` of a path under the repository's root; the error is its text. -/
  readFile : Bytes → Except Bytes Bytes
  /-- `os.ReadFile` of a path under the output directory. -/
  readOut : Bytes → Read
  /-- `os.ReadDir` of the output directory, if it succeeds: the names, and whether each is a directory. -/
  readDir : Option (List (Bytes × Bool))
  /-- `s.build()` and then `s.verifyFn` of the result. -/
  build : Spec → Except Bytes Bytes
  mkdirAll : Dir → Except Bytes Unit
  writeFile : Dir → Bytes → Except Bytes Unit
  sha256Hex : Bytes → Bytes
  /-- `%q` -/
  quote : Bytes → Bytes

/-- `strings.Fields`. -/
def fields (s : Bytes) : List Bytes :=
  (((decode s).splitOnP fun r => isSpace r.char).filter fun w => !w.isEmpty).map encode

/-- The version of a `go` line. -/
def goLine (line : Bytes) : Option Bytes :=
  match fields line with
  | [k, v] => if k = ascii "go" then some v else none
  | _ => none

namespace Machine

variable (M : Machine)

def read (path : Bytes) : Except Failure Bytes := (M.readFile path).mapError .err

def goDirective : Except Failure Bytes := do
  let b ← M.read (ascii "go.mod")
  match (b.splitOn 0x0A).findSome? goLine with
  | some v => pure v
  | none => throw (.err (ascii "no `go` directive in go.mod"))

/-- What the digest takes of the files, in their order. -/
def sourceChunks : List Bytes → Except Failure (List Bytes)
  | [] => pure []
  | rel :: rels => do
    let b ← (M.readFile rel).mapError fun e => .err (ascii "generator source " ++ rel ++ ascii ": " ++ e)
    let rest ← sourceChunks rels
    pure ((rel ++ [0x0A] ++ formatInt b.length ++ [0x0A] ++ b) :: rest)

def sourceDigest : Except Failure Bytes := do
  let chunks ← M.sourceChunks generatorSourceFiles
  pure (M.sha256Hex chunks.flatten)

/-- One round of `Generate`'s loop for each specification. -/
def generateAll (dir : Dir) : List Spec → Except Failure (List (Bytes × FileInfo))
  | [] => pure []
  | s :: specs => do
    let b ← (M.build s).mapError .err
    (M.writeFile dir s.path).mapError .err
    let rest ← generateAll dir specs
    pure ((s.path, ⟨M.sha256Hex b, b.length⟩) :: rest)

def generate (dir : Dir) : Except Failure (List (Bytes × FileInfo)) := do
  (M.mkdirAll dir).mapError .err
  M.generateAll dir corpus

/-- The codec inputs with the digest and the size of their files. -/
def originsOf : List CodecOrigin → Except Failure (List CodecOrigin)
  | [] => pure []
  | o :: os => do
    let b ← M.read o.path
    let rest ← originsOf os
    pure ({ o with sha256 := M.sha256Hex b, bytes := b.length } :: rest)

def entriesOf (files : List (Bytes × FileInfo)) : List Spec → Except Failure (List Entry)
  | [] => pure []
  | s :: specs =>
    match files.lookup s.path with
    | none => throw (.err (ascii "generator produced no " ++ s.path))
    | some fi => do
      let rest ← entriesOf files specs
      pure ({ id := s.id, path := s.path, format := s.format, tier := s.tier, adr009 := s.adr009
              sha256 := fi.sha256, bytes := fi.bytes, width := s.width, height := s.height
              decode := s.decode } :: rest)

/-- `Build`. -/
def buildManifest : Except Failure Manifest := do
  let digest ← M.sourceDigest
  let goMod ← M.goDirective
  let files ← M.generate .out
  let origins ← M.originsOf Fixtures.codecInputs
  let entries ← entriesOf files corpus
  pure
    { generator := ⟨version, digest, generatorSourceFiles⟩
      toolchain := ⟨M.goVersion, goMod⟩
      codecInputs := origins
      fixtures := entries }

end Machine

/-! ## Problems -/

structure Problem where
  kind : Bytes
  detail : Bytes
deriving DecidableEq

def sortProblems (probs : List Problem) : List Problem :=
  probs.mergeSort fun p q => if p.kind = q.kind then decide (p.detail ≤ q.detail) else decide (p.kind < q.kind)

def sortStrings (ss : List Bytes) : List Bytes := ss.mergeSort fun a b => decide (a ≤ b)

def join (sep : Bytes) (ss : List Bytes) : Bytes := (ss.intersperse sep).flatten

def emDash : Bytes := [0xE2, 0x80, 0x94]

def ellipsis : Bytes := [0xE2, 0x80, 0xA6]

/-- One side of the comparison: the ADR-009 items with the paths that claim them. -/
structure Side where
  what : Bytes
  items : List (Int × Bytes)

def Side.paths (s : Side) (item : Int) : List Bytes := (s.items.filter fun i => i.1 == item).map Prod.snd

def Side.countProblems (s : Side) : List Problem :=
  if s.items.length ≠ adr009Count then
    [⟨ascii "declared-set", s.what ++ ascii " " ++ formatInt s.items.length ++ ascii " fixture(s); ADR-009 names " ++
      formatInt adr009Count ++ ascii " and says none is dropped. " ++
      ascii "A corpus that lost a fixture would still report `ok` while every later media assertion " ++
      ascii "made against it silently covered less than it claims."⟩]
  else []

def Side.itemProblems (s : Side) (item : Int) : List Problem :=
  match s.paths item with
  | [] =>
    [⟨ascii "declared-set", ascii "ADR-009 item " ++ formatInt item ++ ascii " is missing: " ++ s.what ++
      ascii " no fixture for it"⟩]
  | [_] => []
  | paths =>
    [⟨ascii "declared-set", ascii "ADR-009 item " ++ formatInt item ++ ascii " is claimed " ++ formatInt paths.length ++
      ascii " times where " ++ s.what ++ ascii ": " ++ join (ascii ", ") (sortStrings paths)⟩]

def Side.outside (s : Side) : List Int :=
  (s.items.map Prod.fst).dedup.filter fun item => item < 1 || item > adr009Count

def Side.problems (s : Side) : List Problem :=
  s.countProblems ++ (List.range adr009Count).flatMap (fun i : Nat => s.itemProblems (i + 1)) ++
    s.outside.map fun item =>
      ⟨ascii "declared-set", s.what ++ ascii " an entry claiming ADR-009 item " ++ formatInt item ++
        ascii ", which is outside 1.." ++ formatInt adr009Count ++ ascii ": " ++
        join (ascii ", ") (sortStrings (s.paths item))⟩

def manifestSide (m : Manifest) : Side :=
  ⟨ascii "the committed manifest lists", m.fixtures.map fun e => (e.adr009, e.path)⟩

def corpusSide : Side :=
  ⟨ascii "the generator's Corpus() produces", corpus.map fun s => (s.adr009, s.path)⟩

def checkDeclaredSet (m : Manifest) : List Problem := (manifestSide m).problems ++ corpusSide.problems

/-- The record that a map holds for a key when it was filled from a list. -/
def lastWith {α : Type} (key : α → Bytes) (k : Bytes) (l : List α) : Option α := l.reverse.find? fun a => key a == k

/-- `s[:16]`. -/
def firstSixteen (s : Bytes) : Except Failure Bytes := if 16 ≤ s.length then pure (s.take 16) else throw .panic

/-! ## The steps of `VerifyAgainstManifest` -/

def goProblems (M : Machine) (m : Manifest) : List Problem :=
  if M.goVersion ≠ m.toolchain.go then
    [⟨ascii "toolchain-pin", ascii "the manifest was produced with " ++ m.toolchain.go ++ ascii ", this toolchain is " ++
      M.goVersion ++ ascii ". A byte comparison across Go releases proves nothing; build with the pinned toolchain, " ++
      ascii "or re-pin deliberately with `make fixtures-manifest`."⟩]
  else []

def goModProblems (m : Manifest) (goMod : Bytes) : List Problem :=
  if goMod ≠ m.toolchain.goMod then
    [⟨ascii "toolchain-pin", ascii "go.mod's language version is " ++ goMod ++ ascii ", the manifest records " ++
      m.toolchain.goMod ++ ascii ". That directive sets the standard library's GODEBUG compatibility defaults, and " ++
      ascii "under GOTOOLCHAIN=auto it also selects which toolchain runs the generator " ++ emDash ++
      ascii " and the toolchain demonstrably changes these bytes. " ++
      ascii "Re-pin with `make fixtures-manifest` and review which fixture hashes moved."⟩]
  else []

def sourceProblems (m : Manifest) (digest : Bytes) : Except Failure (List Problem) :=
  if digest ≠ m.generator.sourceSHA256 then do
    let got ← firstSixteen digest
    let recorded ← firstSixteen m.generator.sourceSHA256
    pure [⟨ascii "generator-source", ascii "the generator source digest is " ++ got ++ ellipsis ++
      ascii ", the manifest records " ++ recorded ++ ellipsis ++
      ascii ". The generator changed and the manifest was not regenerated: run `make fixtures-manifest` " ++
      ascii "and review the fixture hashes in the diff."⟩]
  else pure []

def versionProblems (M : Machine) (m : Manifest) : List Problem :=
  if m.generator.version ≠ version then
    [⟨ascii "generator-version", ascii "the manifest records generator version " ++ M.quote m.generator.version ++
      ascii ", this generator is " ++ M.quote version⟩]
  else []

def sourceFilesProblems (m : Manifest) : List Problem :=
  if m.generator.sourceFiles ≠ generatorSourceFiles then
    [⟨ascii "generator-source-list", ascii "the manifest's source_files list differs from GeneratorSourceFiles; a file " ++
      ascii "added to the generator and not to that list is not covered by the digest"⟩]
  else []

/-- What the manifest records of one codec input. -/
def codecProblems (M : Machine) (m : Manifest) (o : CodecOrigin) : List Problem :=
  match lastWith CodecOrigin.path o.path m.codecInputs with
  | none => [⟨ascii "codec-input", o.path ++ ascii " is not in the manifest"⟩]
  | some rec =>
    match M.readFile o.path with
    | .error e => [⟨ascii "codec-input", o.path ++ ascii ": " ++ e⟩]
    | .ok b =>
      (if M.sha256Hex b ≠ rec.sha256 then
        [⟨ascii "codec-input", o.path ++ ascii " has sha256 " ++ M.sha256Hex b ++ ascii ", the manifest records " ++
          rec.sha256⟩]
      else []) ++
      if rec.toolVersion ≠ o.toolVersion then
        [⟨ascii "codec-tool-pin", o.path ++ ascii " was produced by " ++ M.quote o.toolVersion ++
          ascii ", the manifest records " ++ M.quote rec.toolVersion ++
          ascii ". A codec pin moved without the corpus being re-pinned."⟩]
      else []

/-- The codec inputs of the manifest that the generator does not use. -/
def unusedProblems (m : Manifest) : List Problem :=
  ((m.codecInputs.map CodecOrigin.path).dedup.filter fun p => !(Fixtures.codecInputs.map CodecOrigin.path).contains p).map
    fun p => ⟨ascii "codec-input", ascii "the manifest records " ++ p ++ ascii ", which the generator no longer uses"⟩

def outputDir : Bytes := ascii "testdata/fixtures"

/-- What is on disk for an entry of the manifest. -/
def diskProblems (M : Machine) (e : Entry) : List Problem :=
  match M.readOut e.path with
  | .notExist => []
  | .failed err => [⟨ascii "fixture-on-disk", e.path ++ ascii ": " ++ err⟩]
  | .content b =>
    if M.sha256Hex b ≠ e.sha256 then
      [⟨ascii "fixture-on-disk", e.path ++ ascii " in " ++ outputDir ++ ascii " has sha256 " ++ M.sha256Hex b ++
        ascii ", the manifest records " ++ e.sha256 ++ ascii " " ++ emDash ++
        ascii " the corpus on disk is not the corpus the manifest describes"⟩]
    else []

/-- What is on disk and declared by no entry; names that start with a dot are skipped. -/
def undeclaredProblems (M : Machine) (m : Manifest) : List Problem :=
  match M.readDir with
  | none => []
  | some names =>
    (names.filter fun n => !((ascii ".").isPrefixOf n.1 || (m.fixtures.map Entry.path).contains n.1)).map fun n =>
      ⟨ascii "undeclared-fixture", n.1 ++ ascii " in " ++ outputDir ++ ascii " is a " ++
        (if n.2 then ascii "directory" else ascii "file") ++ ascii " that no manifest entry declares. " ++
        ascii "Every byte in the corpus has a recorded origin, an expected decode outcome and a licence line; " ++
        ascii "a file with none of those is not a fixture, and a later slice that globs this directory would " ++
        ascii "treat it as one. Remove it, or add it to the generator and re-pin with `make fixtures-manifest`."⟩

def notCompared : Problem :=
  ⟨ascii "not-compared", ascii "the fixture bytes were NOT regenerated and compared, because something cheaper already " ++
    ascii "disagrees with the manifest. Fix the problems above and run again; a byte comparison made under a different " ++
    ascii "pin, a different generator source or beside a stale corpus is not evidence about anything."⟩

/-- What the manifest records of one fixture. -/
def fixtureProblems (m : Manifest) (files : List (Bytes × FileInfo)) (s : Spec) : List Problem :=
  match lastWith Entry.path s.path m.fixtures with
  | none => [⟨ascii "fixture-missing-from-manifest", s.path⟩]
  | some e =>
    let got := (files.lookup s.path).getD ⟨[], 0⟩
    if got.sha256 ≠ e.sha256 then
      [⟨ascii "fixture-bytes", s.path ++ ascii ": regenerated sha256 " ++ got.sha256 ++ ascii " (" ++
        formatInt got.bytes ++ ascii " bytes), the manifest records " ++ e.sha256 ++ ascii " (" ++ formatInt e.bytes ++
        ascii " bytes)"⟩]
    else []

/-- The fixtures of the manifest that the generator does not produce. -/
def strayProblems (m : Manifest) : List Problem :=
  ((m.fixtures.map Entry.path).dedup.filter fun p => !(corpus.map Spec.path).contains p).map fun p =>
    ⟨ascii "fixture-not-generated", ascii "the manifest records " ++ p ++ ascii ", which the generator does not produce"⟩

/-- Steps 0 to 4b, in order; the first failure ends them. -/
def cheapProblems (M : Machine) (m : Manifest) : Except Failure (List Problem) := do
  let goMod ← M.goDirective
  let digest ← M.sourceDigest
  let source ← sourceProblems m digest
  pure (checkDeclaredSet m ++ goProblems M m ++ goModProblems m goMod ++ source ++ versionProblems M m ++
    sourceFilesProblems m ++ Fixtures.codecInputs.flatMap (codecProblems M m) ++ unusedProblems m ++
    m.fixtures.flatMap (diskProblems M) ++ undeclaredProblems M m)

def verifyAgainstManifest (M : Machine) (m : Manifest) : Except Failure (List Problem) := do
  let probs ← cheapProblems M m
  if probs ≠ [] then pure (sortProblems (probs ++ [notCompared]))
  else do
    let files ← M.generate .scratch
    pure (sortProblems (corpus.flatMap (fixtureProblems m files) ++ strayProblems m))

end Vizra.Fixtures
