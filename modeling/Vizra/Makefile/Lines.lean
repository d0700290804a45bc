import Vizra.PyStd.Str

/-!
# The line reader (`scripts/makefile_pin.py`)

`makefile_lines` splits a text on LF and joins the lines that a backslash continues, as make does. Every check of
the scripts that reads a makefile reads these lines.
-/

namespace Vizra.Makefile

open Py

structure LogicalLine where
  /-- the number of its first physical line -/
  n : Nat
  /-- the physical lines -/
  segments : List Str
  /-- the first physical line starts with a TAB -/
  tab : Bool
  /-- the physical lines as make joins them -/
  raw : Str
  /-- `raw` without a make comment; for a TAB line, `raw` -/
  code : Str
  /-- where the comment starts -/
  commentAt : Option Nat
  /-- the `#` stands inside an expansion, so the comment is refused -/
  commentWhy : Bool
  /-- where the last physical line starts in `raw` -/
  tail : Nat
deriving DecidableEq

/-- The line ends in an odd number of backslashes. -/
def continued (physical : Str) : Bool := (physical.rtakeWhile (· == '\\')).length % 2 == 1

/-- The text before an unescaped `#` and, if there is one, whether it stands inside an expansion. -/
def stripComment : Nat → Str → Str × Option Bool
  | _, [] => ([], none)
  | depth, '\\' :: c :: s =>
    let r := stripComment depth s
    ('\\' :: c :: r.1, r.2)
  | depth, '$' :: '(' :: s =>
    let r := stripComment (depth + 1) s
    ('$' :: '(' :: r.1, r.2)
  | depth, '$' :: '\x7b' :: s =>
    let r := stripComment (depth + 1) s
    ('$' :: '\x7b' :: r.1, r.2)
  | depth, c :: s =>
    if c == '#' then ([], some (depth != 0))
    else
      let closes := (c == ')' || c == '\x7d') && depth != 0
      let r := stripComment (if closes then depth - 1 else depth) s
      (c :: r.1, r.2)

/-- A logical line while its physical lines are being joined. -/
structure Joined where
  n : Nat
  segments : List Str
  last : Str
  tab : Bool
  raw : Str
  tail : Nat

def Joined.start (n : Nat) (line : Str) : Joined := ⟨n, [line], line, line.head? == some '\t', line, 0⟩

/-- What a continuation adds to the line. -/
def continuation (tab : Bool) (nxt : Str) : Str :=
  if tab then (if nxt.head? == some '\t' then nxt.tail else nxt) else nxt.dropWhile fun c => c == ' ' || c == '\t'

def Joined.extend (j : Joined) (nxt : Str) : Joined :=
  let raw := j.raw.dropLast ++ [' ']
  { j with segments := j.segments ++ [nxt], last := nxt, raw := raw ++ continuation j.tab nxt, tail := raw.length }

def Joined.close (j : Joined) : LogicalLine :=
  if j.tab then ⟨j.n, j.segments, true, j.raw, j.raw, none, false, j.tail⟩
  else
    let r := stripComment 0 j.raw
    ⟨j.n, j.segments, false, j.raw, r.1, r.2.map fun _ => r.1.length, r.2 == some true, j.tail⟩

/-- The lines from the one that is being joined on; `n` is the number of the next physical line. -/
def linesFrom : Nat → Joined → List Str → List LogicalLine
  | _, j, [] => [j.close]
  | n, j, line :: phys =>
    if continued j.last then linesFrom (n + 1) (j.extend line) phys
    else j.close :: linesFrom (n + 1) (.start n line) phys

def makefileLines (text : Str) : List LogicalLine :=
  match text.splitOn '\n' with
  | [] => []
  | line :: phys => linesFrom 2 (.start 1 line) phys

/-- An empty line, or a comment line with `#` in column 0. -/
def keepsRuleOpen (rec : LogicalLine) : Bool := !rec.tab && (rec.raw.isEmpty || rec.raw.head? == some '#')

/-- The recipe of the rule before the lines: the TAB lines up to one that closes the rule. -/
def recipeLines : List LogicalLine → List (Nat × Str)
  | [] => []
  | rec :: lines =>
    if rec.tab then (rec.n, strip (rec.raw.drop 1)) :: recipeLines lines
    else if keepsRuleOpen rec then recipeLines lines
    else []

/-! ## Assignments, as the guards' expressions find them -/

def isLetter (c : Char) : Bool := ('A' ≤ c && c ≤ 'Z') || ('a' ≤ c && c ≤ 'z')

/-- `[A-Za-z_]`. -/
def isIdentStart (c : Char) : Bool := isLetter c || c == '_'

/-- `[A-Za-z0-9_]`. -/
def isIdentChar (c : Char) : Bool := isIdentStart c || ('0' ≤ c && c ≤ '9')

/-- What follows `export\s+` or `override\s+`. -/
def afterModifier (s : Str) : Option Str :=
  [str "export", str "override"].findSome? fun w =>
    if w.isPrefixOf s && (s.drop w.length).head?.any isSpace then some ((s.drop w.length).dropWhile isSpace) else none

/-- `(?:export\s+|override\s+)*` and then `parse`: as many modifiers as there are, unless `parse` fails behind the
last one. -/
def afterModifiers {β : Type} (parse : Str → Option β) : Nat → Str → Option β
  | 0, s => parse s
  | n + 1, s =>
    match afterModifier s with
    | none => parse s
    | some rest => (afterModifiers parse n rest).or (parse s)

/-- `([A-Za-z_]…*)\s*` and then one of the operators: the name and the operator. -/
def nameAndOp (nameChar : Char → Bool) (ops : List Str) (s : Str) : Option (Str × Str) :=
  match s with
  | [] => none
  | c :: _ =>
    if isIdentStart c then
      let rest := (s.dropWhile nameChar).dropWhile isSpace
      (ops.find? fun op => op.isPrefixOf rest).map fun op => (s.takeWhile nameChar, op)
    else none

/-- `^\s*(?:export\s+|override\s+)*(NAME)\s*(OP)`. -/
def matchAssign (nameChar : Char → Bool) (ops : List Str) (s : Str) : Option (Str × Str) :=
  afterModifiers (nameAndOp nameChar ops) s.length (s.dropWhile isSpace)

end Vizra.Makefile
