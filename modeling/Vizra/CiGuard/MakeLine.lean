import Mathlib.Algebra.GroupWithZero.Nat
import Vizra.CiGuard.Checks
import Vizra.PyStd.Shlex
import Vizra.Regex.Basic

/-!
# The make command lines of a step (`scripts/ci-required-guard.py`)

The tokeniser of the guard: it splits a `run:` block into commands and reads the arguments of those that are make. A
problem stands for the sentence that is printed.
-/

namespace Vizra.CiGuard

open Py Regex

/-- A `run:` that could not be read as shell. -/
structure TokeniseError where
  error : LexError
  line : Str
deriving DecidableEq

inductive LineProblem where
  /-- a long option that stands for the short one `letter` -/
  | long (tok : Str) (letter : Char)
  | short (tok : Str) (letter : Char)
  | override (tok : Str)
  | overrideAfterDashes (tok : Str)
  /-- an assignment to `name` before `make` -/
  | environment (tok name : Str)
  | inside (script : Str) (p : LineProblem)
deriving DecidableEq

/-- The keys of `DANGEROUS_SHORT`. -/
def dangerousShort : List Char := "iktqnefCoW".toList

def shortTakesArg : List Char := "CfIjloWE".toList

/-- `DANGEROUS_LONG`, with the letter of the reason. -/
def dangerousLong : List (Str × Char) :=
  [("--ignore-errors", 'i'), ("--keep-going", 'k'), ("--touch", 't'), ("--question", 'q'), ("--dry-run", 'n'),
    ("--just-print", 'n'), ("--recon", 'n'), ("--environment-overrides", 'e'), ("--file", 'f'), ("--makefile", 'f'),
    ("--directory", 'C'), ("--old-file", 'o'), ("--assume-old", 'o'), ("--what-if", 'W'), ("--new-file", 'W'),
    ("--assume-new", 'W')].map fun full => (str full.1, full.2)

def makeEnvNames : List Str := ["MAKEFLAGS", "GNUMAKEFLAGS", "MFLAGS", "MAKEFILES", "SHELL"].map str

def shellSeparators : List Str := [";", "&&", "||", "|", "(", ")", "&", "|&"].map str

/-- `^[A-Za-z_][A-Za-z0-9_.]*=` matches the start of the token. -/
def isAssignment (tok : Str) : Bool :=
  match tok with
  | [] => false
  | c :: s => (c.isAlpha || c == '_') &&
      (s.dropWhile fun c => c.isAlphanum || c == '_' || c == '.').head? == some '='

/-- `^(?:.*/)?g?make$`. -/
def makeCommandRe : Rx Char :=
  .seq (.opt (.seq (.star (.cls fun c => c != '\n')) (.char '/'))) <| .seq (.opt (.char 'g')) <|
    .seq (.text (str "make")) (.opt (.char '\n'))

def isMakeCommand (tok : Str) : Bool := makeCommandRe.accepts tok

/-! ## Commands -/

/-- `re.sub(r"\\\n\s*", " ", run)`; `skip` says that the white space of a match is being read. -/
def joinContinued : Bool → Str → Str
  | _, [] => []
  | _, '\\' :: '\n' :: s => ' ' :: joinContinued true s
  | skip, c :: s => if skip && isSpace c then joinContinued true s else c :: joinContinued false s

/-- The commands between the separators, with the one that is being read. -/
def splitCommands : List Str → List Str → List (List Str)
  | current, [] => if current.isEmpty then [] else [current]
  | current, tok :: toks =>
    if shellSeparators.contains tok then (if current.isEmpty then [] else [current]) ++ splitCommands [] toks
    else splitCommands (current ++ [tok]) toks

def lineCommands (line : Str) : Except TokeniseError (List (List Str)) :=
  match shlex line with
  | .ok toks => pure (splitCommands [] toks)
  | .error e => throw ⟨e, strip line⟩

/-- The token lists of a `run:` block. -/
def commands (run : Str) : Except TokeniseError (List (List Str)) :=
  List.flatten <$> ((splitLines (joinContinued false run)).filter fun line => !(strip line).isEmpty).mapM lineCommands

/-! ## Arguments -/

/-- What the next argument is. -/
inductive ArgState where
  | option
  /-- taken by the letter in front of it -/
  | argument
  /-- behind `--` -/
  | operand

/-- The dangerous letters of a cluster, and whether its last letter takes the next argument. -/
def scanCluster : Str → List Char × Bool
  | [] => ([], false)
  | c :: s =>
    let here := if dangerousShort.contains c then [c] else []
    if shortTakesArg.contains c then (here, s.isEmpty) else (here ++ (scanCluster s).1, (scanCluster s).2)

/-- The part of a token before its first `=`. -/
def nameOf (tok : Str) : Str := tok.takeWhile fun c => c != '='

/-- The problem of a token that starts with `--`. Any start of an option's name stands for it. -/
def longProblem (tok : Str) : List LineProblem :=
  let name := nameOf tok
  if name.length > 2 then
    ((dangerousLong.find? fun full => name.isPrefixOf full.1).map fun full => .long tok full.2).toList
  else []

/-- The problems of the arguments that make gets. -/
def scanMakeArgv : ArgState → List Str → List LineProblem
  | _, [] => []
  | .argument, _ :: toks => scanMakeArgv .option toks
  | .operand, tok :: toks => (if isAssignment tok then [.overrideAfterDashes tok] else []) ++ scanMakeArgv .operand toks
  | .option, tok :: toks =>
    if tok = str "--" then scanMakeArgv .operand toks
    else if (str "--").isPrefixOf tok then longProblem tok ++ scanMakeArgv .option toks
    else if tok.head? = some '-' && tok.length > 1 then
      let cluster := scanCluster (tok.drop 1)
      cluster.1.map (.short tok) ++ scanMakeArgv (if cluster.2 then .argument else .option) toks
    else (if isAssignment tok then [.override tok] else []) ++ scanMakeArgv .option toks

/-- The assignments in front of `make` that reach into it. -/
def environmentProblems (before : List Str) : List LineProblem :=
  (before.filter fun tok => isAssignment tok && makeEnvNames.contains (upper (nameOf tok))).map fun tok =>
    .environment tok (nameOf tok)

/-! ## The block -/

/-- A token that may hold a script with a make command. -/
def isScript (tok : Str) : Bool := (tok.contains ' ' || tok.contains '\n') && makeInvocation none tok

def total (parts : List (List LineProblem × Nat)) : List LineProblem × Nat :=
  (parts.flatMap Prod.fst, (parts.map Prod.snd).sum)

/-- The problems of a command and the number of make commands in it, with what is said about a quoted script. -/
def commandProblems (script : Str → Except TokeniseError (List LineProblem × Nat)) (argv : List Str) :
    Except TokeniseError (List LineProblem × Nat) :=
  match argv.findIdx? isMakeCommand with
  | none => total <$> (argv.filter isScript).mapM fun tok => do
      let sub ← script tok
      pure (sub.1.map (.inside tok), sub.2)
  | some makeAt => pure (environmentProblems (argv.take makeAt) ++ scanMakeArgv .option (argv.drop (makeAt + 1)), 1)

/-- `make_command_line_problems` with the number of levels of quoted scripts that are still read. -/
def problemsAt : Nat → Str → Except TokeniseError (List LineProblem × Nat)
  | 0, run => do
    let cmds ← commands run
    total <$> cmds.mapM (commandProblems fun _ => pure ([], 0))
  | levels + 1, run => do
    let cmds ← commands run
    total <$> cmds.mapM (commandProblems (problemsAt levels))

/-- The problems of a `run:` block and the number of make commands in it. -/
def makeCommandLineProblems (run : Str) : Except TokeniseError (List LineProblem × Nat) := problemsAt 3 run

end Vizra.CiGuard
