import Vizra.Makefile.Grammar
import Vizra.Makefile.Environment
import Mathlib.Logic.Function.Basic

/-!
# What make expands

The variables of a makefile in the grammar, as GNU make reads and expands them: `:=` expands its value at once,
`=` when the variable is used, `?=` does nothing to a variable that is set; a variable that the makefile has not
assigned has its value from the environment; `$(shell …)` is a function of its expanded text. A use of a variable is
followed through a number of definitions, and an expansion is what some number of them gives: a variable that leads
back to itself has none, and make stops.
-/

namespace Vizra.Makefile

open Py

/-- The parts of a text outside of `$(shell …)`. -/
inductive Atom where
  | char (c : Char)
  | ref (name : Str)
deriving DecidableEq

inductive Piece where
  | atom (a : Atom)
  | shell (text : List Atom)
deriving DecidableEq

/-- The atom of a token, if the grammar has it. -/
def Token.atom? : Token → Option Atom
  | .char c => some (.char c)
  | .dollar => some (.char '$')
  | .group _ inner => if isIdent inner then some (.ref inner) else none
  | .other _ => none
  | .unterminated => none

def atoms (text : Str) : Option (List Atom) := (tokens text).mapM Token.atom?

def Token.piece? : Token → Option Piece
  | .group bracket inner =>
    if isIdent inner then some (.atom (.ref inner))
    else if bracket == '(' then ((shellText? inner).bind atoms).map .shell
    else none
  | t => t.atom?.map .atom

def pieces (text : Str) : Option (List Piece) := (tokens text).mapM Token.piece?

/-- An assignment of the makefile, and what it means to make. -/
structure Assign where
  name : Str
  op : AssignOp
  value : Str

/-- The assignment on a line, with the blanks before its value dropped. -/
def LogicalLine.assign? (rec : LogicalLine) : Option Assign :=
  if rec.tab then none
  else (matchGAssign rec.code).map fun (name, op, value) => ⟨name, op, value.dropWhile isBlank⟩

/-- A variable: what it was expanded to, or the text that is expanded when it is used. -/
inductive Def (α : Type) where
  | simple (value : α)
  | recursive (text : Str)

abbrev Vars (α : Type) := Str → Option (Def α)

/-- What a text is expanded to: values that are put one behind the other. -/
structure Algebra (α : Type) where
  nil : α
  append : α → α → α
  char : Char → α
  /-- a variable that the makefile has not assigned -/
  env : Str → α
  shell : α → α

namespace Algebra

variable {α : Type} (A : Algebra α)

def concat : List α → α
  | [] => A.nil
  | a :: as => A.append a (concat as)

/-- The value of an atom, where `use` expands the text of a variable. -/
def atomValue (use : Str → Option α) (vars : Vars α) : Atom → Option α
  | .char c => some (A.char c)
  | .ref name =>
    match vars name with
    | some (.simple value) => some value
    | some (.recursive text) => use text
    | none => some (A.env name)

def pieceValue (use : Str → Option α) (vars : Vars α) : Piece → Option α
  | .atom a => A.atomValue use vars a
  | .shell text => (text.mapM (A.atomValue use vars)).map fun as => A.shell (A.concat as)

/-- The expansion of a text that follows variables through less than a number of definitions. -/
def expand : Nat → Vars α → Str → Option α
  | 0, _, _ => none
  | n + 1, vars, text =>
    (pieces text).bind fun ps => (ps.mapM (A.pieceValue (expand n vars) vars)).map A.concat

/-- One assignment, where `set` says which names the environment sets. -/
def assign (set : Str → Bool) (n : Nat) (vars : Vars α) (a : Assign) : Option (Vars α) :=
  match a.op with
  | .simple => (A.expand n vars a.value).map fun value => Function.update vars a.name (some (.simple value))
  | .recursive => some (Function.update vars a.name (some (.recursive a.value)))
  | .conditional =>
    if (vars a.name).isSome || set a.name then some vars
    else some (Function.update vars a.name (some (.recursive a.value)))

/-- The variables when the makefile is read. -/
def readVars (set : Str → Bool) (n : Nat) (as : List Assign) : Option (Vars α) :=
  as.foldlM (A.assign set n) fun _ => none

/-- The expansion of a recipe line when the makefile is read. -/
def recipe (set : Str → Bool) (n : Nat) (as : List Assign) (line : Str) : Option α :=
  (A.readVars set n as).bind fun vars => A.expand n vars line

end Algebra

/-- Texts, with the values of an environment and what the shell prints. -/
def textAlgebra (shell : Str → Str) (env : Env) : Algebra Str where
  nil := []
  append := List.append
  char c := [c]
  env name := (env name).getD []
  shell := shell

/-- What is left of an expansion when the environment and the shell are not known. -/
inductive Term where
  | nil
  | append (a b : Term)
  | char (c : Char)
  | env (name : Str)
  | shell (t : Term)

def termAlgebra : Algebra Term := ⟨.nil, .append, .char, .env, .shell⟩

/-- The names that are taken from the environment. -/
def Term.names : Term → List Str
  | .nil => []
  | .append a b => a.names ++ b.names
  | .char _ => []
  | .env name => [name]
  | .shell t => t.names

def assigns (lines : List LogicalLine) : List Assign := lines.filterMap LogicalLine.assign?

/-- A recipe line of the makefile expands to a text. -/
def Expands (shell : Str → Str) (env : Env) (text : Str) (line : Str) (result : Str) : Prop :=
  ∃ n, (textAlgebra shell env).recipe (fun name => (env name).isSome) n (assigns (makefileLines text)) line = some result

/-- Make takes the variable from the environment when it expands a recipe line. -/
def EnvReads (text line name : Str) : Prop :=
  ∃ n t, termAlgebra.recipe (fun _ => false) n (assigns (makefileLines text)) line = some t ∧ name ∈ t.names

/-- The recipe lines. -/
def recipeTexts (text : Str) : List Str := ((makefileLines text).filter LogicalLine.tab).map LogicalLine.raw

end Vizra.Makefile
