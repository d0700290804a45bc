import Mathlib.Data.List.Sort
import Vizra.Makefile.Grammar
import Vizra.Worklist.Basic

/-!
# The pinned makefiles (`scripts/makefile_pin.py`)

`verify_pin` reads the pin file, compares the digest of every pinned file, follows the `include` and `load`
directives of the pinned texts from `Makefile` on and reads every pinned text with the grammar. `sha256` and the
UTF-8 decoding are the ones of Python's library.
-/

namespace Vizra.Makefile

open Py

/-! ## The pin file -/

/-- Why the pin file cannot be used. -/
inductive PinError where
  | notAFile
  | missing
  | unreadable
  | encoding
  | header (n : Nat) (line : Str)
  | shape (n : Nat) (line : Str)
  | path (n : Nat) (name : Str)
  | duplicate (n : Nat) (name : Str)
  | empty
deriving DecidableEq

/-- The pinned files with their digests. -/
abbrev Pins := List (Str × Str)

def Pins.names (pins : Pins) : List Str := pins.map Prod.fst

/-- `PIN_HEADER_RE`. -/
def matchPinHeader (line : Str) : Bool := (str "makefiles:").isPrefixOf line && (line.drop 10).all isBlank

/-- `[0-9a-f]`. -/
def isDigestChar (c : Char) : Bool := ('0' ≤ c && c ≤ '9') || ('a' ≤ c && c ≤ 'f')

/-- `PIN_ENTRY_RE`: the file and the digest. -/
def matchPinEntry (line : Str) : Option (Str × Str) :=
  let body := line.drop 2
  let name := body.takeWhile isWordChar
  let rest := body.drop name.length
  let digest := (rest.drop 2).take 64
  if (str "  ").isPrefixOf line && isWord name && (str ": ").isPrefixOf rest && digest.length == 64 &&
      digest.all isDigestChar && (rest.drop 66).all isBlank
  then some (name, digest) else none

/-- `norm` is not inside the repository. -/
def leavesRoot (norm : Str) : Bool := norm == str ".." || (str "../").isPrefixOf norm

/-- The loop of `load_makefile_pin` from line `n` on, with whether the header was read and the entries so far. -/
def pinEntries : Nat → Bool → Pins → List Str → Except PinError Pins
  | _, header, entries, [] => if !header || entries.isEmpty then .error .empty else .ok entries
  | n, header, entries, line :: lines =>
    if line.all isSpace || line.head? == some '#' then pinEntries (n + 1) header entries lines
    else if !header then
      if matchPinHeader line then pinEntries (n + 1) true entries lines else .error (.header n line)
    else
      match matchPinEntry line with
      | none => .error (.shape n line)
      | some (name, digest) =>
        if name != normpath name || leavesRoot name then .error (.path n name)
        else if entries.names.contains name then .error (.duplicate n name)
        else pinEntries (n + 1) header (entries ++ [(name, digest)]) lines

/-! ## The tree -/

variable {Bytes : Type}

/-- What the path of the pin file holds. -/
inductive PinNode (Bytes : Type) where
  | directory
  | missing
  | unreadable
  | file (data : Bytes)

/-- What the path of a pinned file holds. -/
inductive Node (Bytes : Type) where
  | absent
  -- `lstat` fails for another reason, and `verify_pin` with it
  | raises
  | notRegular
  | unreadable
  | file (data : Bytes)

structure Tree (Bytes : Type) where
  pin : PinNode Bytes
  /-- the names in the root directory, if it can be listed -/
  listing : Option (List Str)
  node : Str → Node Bytes

def loadMakefilePin (decode : Bytes → Option Str) : PinNode Bytes → Except PinError Pins
  | .directory => .error .notAFile
  | .missing => .error .missing
  | .unreadable => .error .unreadable
  | .file data =>
    match decode data with
    | none => .error .encoding
    | some text => pinEntries 1 false [] (text.splitOn '\n')

/-- Why make must not be run. -/
inductive Problem where
  | pin (err : PinError)
  | noMakefile
  | absent (file want : Str)
  | notRegular (file : Str)
  | unreadable (file : Str)
  | mismatch (file got want : Str)
  | encoding (file : Str)
  -- the root cannot be listed
  | unlisted
  | defaultName (file : Str)
  | eval (file : Str) (n : Nat)
  | computed (file : Str) (n : Nat) (directive word : Str)
  | outside (file : Str) (n : Nat) (directive word : Str)
  | unpinned (file : Str)
  | stale (files : List Str)
deriving DecidableEq

/-! ## What make will read -/

/-- The text starts with a call of one of the functions: `\$[({](…)[\s)}]`. -/
def startsCall (names : List Str) : Str → Bool
  | '$' :: bracket :: s =>
    (bracket == '(' || bracket == '\x7b') && names.any fun name =>
      name.isPrefixOf s && (s.drop name.length).head?.any fun c => isSpace c || c == ')' || c == '\x7d'
  | _ => false

/-- `_MANUFACTURES_DIRECTIVES_RE`. -/
def manufacturesDirectives (raw : Str) : Bool := raw.tails.any (startsCall [str "eval", str "guile"])

/-- `_PARSE_TIME_EXEC_RE`. -/
def executesAtParse (code : Str) : Bool := code.tails.any (startsCall [str "shell"]) || contains code (str "!=")

def readDirectives : List Str := ["-include", "sinclude", "include", "-load", "load"].map str

/-- `_READ_DIRECTIVE_RE`: the directive and what follows it. -/
def matchReadDirective (code : Str) : Option (Str × Str) :=
  let body := code.dropWhile isBlank
  (readDirectives.find? fun d => d.isPrefixOf body && (body.drop d.length).head?.all isBlank).map fun d =>
    (d, strip (body.drop d.length))

/-- The characters of a name that make computes. -/
def computedNameChars : Str := str "$*?[%~\x60\\"

/-- A word behind a directive: why it is refused, or the file that is read. -/
def readWord (rel : Str) (n : Nat) (directive word : Str) : Problem ⊕ Str :=
  let word := if (str "load").isSuffixOf directive then word.takeWhile (· != '(') else word
  if word.any computedNameChars.contains then .inl (.computed rel n directive word)
  else if isAbs word || leavesRoot (normpath word) then .inl (.outside rel n directive word)
  else .inr (normpath word)

/-- The words of a line that reads as a directive. -/
def readLine (rel : Str) (rec : LogicalLine) : List (Problem ⊕ Str) :=
  match matchReadDirective rec.code with
  | none => []
  | some (directive, args) => (splitWords args).map (readWord rel rec.n directive)

/-- The files that a line makes `static_read_set` follow. -/
def followed (rel : Str) (rec : LogicalLine) : List Str := (readLine rel rec).filterMap Sum.getRight?

/-- The pinned texts by file. -/
abbrev Texts := List (Str × Str)

/-- The lines of a file, if it has a text. -/
def Texts.lines (texts : Texts) (rel : Str) : List LogicalLine :=
  match texts.lookup rel with
  | none => []
  | some text => makefileLines text

def Texts.reads (texts : Texts) (rel : Str) : List Str := (texts.lines rel).flatMap (followed rel)

def Texts.problems (texts : Texts) (rel : Str) : List Problem :=
  (((texts.lines rel).filter fun rec => manufacturesDirectives rec.raw).map fun rec => .eval rel rec.n) ++
    (texts.lines rel).flatMap fun rec => (readLine rel rec).filterMap Sum.getLeft?

def rootMakefile : Str := str "Makefile"

/-- `static_read_set`: the files in the order in which make reads them, and what is refused. -/
def staticReadSet (listing : Option (List Str)) (texts : Texts) : List Str × List Problem :=
  match listing with
  | none => ([], [.unlisted])
  | some present =>
    let order := Worklist.reach texts.reads (texts.map Prod.fst) [rootMakefile]
    (order, (([str "GNUmakefile", str "makefile"].filter present.contains).map .defaultName) ++
      order.flatMap texts.problems)

/-! ## The verdict -/

structure PinResult where
  pins : Pins := []
  order : List Str := []
  digests : List (Str × Str) := []
  problems : List Problem := []
  /-- the file and the line of what is executed when a makefile is read -/
  sites : List (Str × Nat) := []
  grammar : List (Str × Nat × Refusal) := []
  texts : Texts := []

def PinResult.ok (r : PinResult) : Bool := r.problems.isEmpty && r.grammar.isEmpty

section

variable (sha256 : Bytes → Str) (decode : Bytes → Option Str) (isFormat : Char → Bool)

def Node.digest : Node Bytes → Option Str
  | .file data => some (sha256 data)
  | _ => none

/-- A pinned file: why it is refused, or its text. -/
def readPinned (rel want : Str) : Node Bytes → Problem ⊕ Str
  | .absent => .inl (.absent rel want)
  | .raises => .inl (.absent rel want)
  | .notRegular => .inl (.notRegular rel)
  | .unreadable => .inl (.unreadable rel)
  | .file data =>
    if sha256 data != want then .inl (.mismatch rel (sha256 data) want)
    else
      match decode data with
      | none => .inl (.encoding rel)
      | some text => .inr text

def Node.raised : Node Bytes → Bool
  | .raises => true
  | _ => false

/-- The problems of the pinned files, of what make reads, and of files that are read and not pinned. -/
def pinProblems (tree : Tree Bytes) (pins : Pins) (order : List Str) (readProblems : List Problem) : List Problem :=
  (pins.filterMap fun p => (readPinned sha256 decode p.1 p.2 (tree.node p.1)).getLeft?) ++ readProblems ++
    (order.filter fun f => !pins.names.contains f).map .unpinned

/-- Pinned files that make does not read are reported if nothing else is. -/
def withStale (pins : Pins) (order : List Str) (problems : List Problem) : List Problem :=
  let stale := pins.names.filter fun f => !order.contains f
  if stale.isEmpty || !problems.isEmpty then problems else [.stale stale]

/-- `verify_pin` behind the pin file, with the pins in the order of their names. -/
def verifyPinned (tree : Tree Bytes) (pins : Pins) : PinResult :=
  let texts : Texts :=
    pins.filterMap fun p => (readPinned sha256 decode p.1 p.2 (tree.node p.1)).getRight?.map fun t => (p.1, t)
  let read := staticReadSet tree.listing texts
  let problems := withStale pins read.1 (pinProblems sha256 decode tree pins read.1 read.2)
  { pins := pins
    order := read.1
    digests := pins.filterMap fun p => ((tree.node p.1).digest sha256).map fun d => (p.1, d)
    problems := problems
    sites :=
      if problems.isEmpty then
        read.1.flatMap fun rel =>
          ((texts.lines rel).filter fun rec => executesAtParse rec.code).map fun rec => (rel, rec.n)
      else []
    grammar := texts.flatMap fun rt => (grammarProblems isFormat rt.2).map fun p => (rt.1, p)
    texts := texts }

/-- `verify_pin`; nothing if it raises. -/
def verifyPin (tree : Tree Bytes) : Option PinResult :=
  match loadMakefilePin decode tree.pin with
  | .error err => some { problems := [.pin err] }
  | .ok entries =>
    let pins : Pins := entries.insertionSort fun p q => le p.1 q.1
    if !pins.names.contains rootMakefile then some { pins := pins, problems := [.noMakefile] }
    else if pins.any fun p => (tree.node p.1).raised then none
    else some (verifyPinned sha256 decode isFormat tree pins)

end

end Vizra.Makefile
