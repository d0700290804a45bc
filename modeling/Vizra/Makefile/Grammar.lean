import Vizra.Makefile.Lines

/-!
# The grammar of a pinned makefile (`scripts/makefile_pin.py`)

`grammar_problems` accepts a makefile whose logical lines all have one of a few shapes and refuses it, by line
number, otherwise. `isFormat` is Unicode's category Cf, of the version that Python knows.
-/

namespace Vizra.Makefile

open Py

/-! ## Expansions -/

/-- What the scan for `$` finds in a text. -/
inductive Token where
  | char (c : Char)
  -- `$$`
  | dollar
  -- `$` and a character that opens no expansion
  | other (c : Char)
  -- `$(…)` or `${…}`: the bracket and what is inside
  | group (bracket : Char) (inner : Str)
  -- an expansion that is not closed, or a `$` at the end
  | unterminated
deriving DecidableEq

/-- Where the scan stands. -/
inductive ScanState where
  | outside
  -- behind a `$`
  | afterDollar
  -- inside an expansion: its bracket, how many more of it are open, and the text so far
  | inside (bracket : Char) (depth : Nat) (inner : Str)

def closing (bracket : Char) : Char := if bracket == '(' then ')' else '\x7d'

/-- The scan of `_dollar_problems`. -/
def tokensFrom : ScanState → Str → List Token
  | .outside, [] => []
  | .outside, c :: s => if c == '$' then tokensFrom .afterDollar s else .char c :: tokensFrom .outside s
  | .afterDollar, [] => [.unterminated]
  | .afterDollar, c :: s =>
    if c == '$' then .dollar :: tokensFrom .outside s
    else if c == '(' || c == '\x7b' then tokensFrom (.inside c 0 []) s
    else .other c :: tokensFrom .outside s
  | .inside _ _ _, [] => [.unterminated]
  | .inside bracket depth inner, c :: s =>
    if c == bracket then tokensFrom (.inside bracket (depth + 1) (inner ++ [c])) s
    else if c == closing bracket then
      match depth with
      | 0 => .group bracket inner :: tokensFrom .outside s
      | depth + 1 => tokensFrom (.inside bracket depth (inner ++ [c])) s
    else tokensFrom (.inside bracket depth (inner ++ [c])) s

def tokens (text : Str) : List Token := tokensFrom .outside text

/-- `[A-Za-z_][A-Za-z0-9_]*`, the whole text. -/
def isIdent (s : Str) : Bool := s.head?.any isIdentStart && s.all isIdentChar

/-- What follows `shell` and a blank. -/
def shellText? (inner : Str) : Option Str :=
  if (str "shell ").isPrefixOf inner || (str "shell\t").isPrefixOf inner then some (inner.drop 6) else none

/-- A use of `$` that is refused. -/
inductive DollarProblem where
  | other (c : Char)
  | unterminated
  | make
  -- a function, a substitution reference or a computed name
  | computed (inner : Str)
deriving DecidableEq

/-- What is refused of a token, where `shell` judges the text of `$(shell …)` if that is allowed. -/
def tokenProblems (shell : Option (Str → List DollarProblem)) : Token → List DollarProblem
  | .char _ => []
  | .dollar => []
  | .other c => [.other c]
  | .unterminated => [.unterminated]
  | .group bracket inner =>
    if isIdent inner then (if inner == str "MAKE" then [.make] else [])
    else
      match shell, (if bracket == '(' then shellText? inner else none) with
      | some judge, some text => judge text
      | _, _ => [.computed inner]

def plainDollarProblems (text : Str) : List DollarProblem := (tokens text).flatMap (tokenProblems none)

def dollarProblems (text : Str) (allowShell : Bool) : List DollarProblem :=
  (tokens text).flatMap (tokenProblems (if allowShell then some plainDollarProblems else none))

/-! ## Characters -/

/-- Why a character is refused. -/
inductive Forbidden where
  | carriageReturn
  | nul
  | control
  | format
  | space
deriving DecidableEq

def forbiddenChar (isFormat : Char → Bool) (c : Char) : Option Forbidden :=
  if c == '\t' || (' ' ≤ c && c ≤ '~') then none
  else if c == '\r' then some .carriageReturn
  else if c.val == 0 then some .nul
  -- category Cc
  else if c.val < 0x20 || (0x7F ≤ c.val && c.val ≤ 0x9F) then some .control
  else if isFormat c then some .format
  else if isSpace c then some .space
  else none

def isBlank (c : Char) : Bool := c == ' ' || c == '\t'

/-! ## The shapes of a line -/

def directiveKeywords : List Str :=
  ["ifdef", "ifndef", "ifeq", "ifneq", "else", "endif", "include", "-include", "sinclude", "define", "endef",
    "export", "unexport", "override", "private", "undefine", "vpath", "load", "-load"].map str

/-- `[^\s:=?+!#]`. -/
def isLeadChar (c : Char) : Bool := !(isSpace c || (str ":=?+!#").contains c)

/-- `^([^\s:=?+!#]+)[ \t]*` and then an operator: the lead, if it is followed by one. -/
def leadOfOperator (body : Str) : Option Str :=
  let lead := body.takeWhile isLeadChar
  let rest := (body.drop lead.length).dropWhile isBlank
  if !lead.isEmpty && [":::=", "::=", ":=", "?=", "+=", "!=", "=", "&:", ":"].any fun op => (str op).isPrefixOf rest
  then some lead else none

inductive AssignOp where
  -- `:=`
  | simple
  -- `?=`
  | conditional
  -- `=`
  | recursive
deriving DecidableEq

def AssignOp.text : AssignOp → Str
  | .simple => str ":="
  | .conditional => str "?="
  | .recursive => str "="

def assignableSpecials : List Str := [str ".SHELLFLAGS", str ".DEFAULT_GOAL"]

/-- The name that starts an assignment. -/
def assignedName (body : Str) : Option Str :=
  let name := body.takeWhile isIdentChar
  if isIdent name then some name else assignableSpecials.find? fun n => n.isPrefixOf body

/-- `_G_ASSIGN_RE`: name, operator and value. -/
def matchGAssign (body : Str) : Option (Str × AssignOp × Str) :=
  (assignedName body).bind fun name =>
    let rest := (body.drop name.length).dropWhile isBlank
    ([.simple, .conditional, .recursive].find? fun op : AssignOp => op.text.isPrefixOf rest).map fun op =>
      (name, op, rest.drop op.text.length)

def isWordStart (c : Char) : Bool := isIdentChar c

/-- A letter, a digit, `_`, `.`, `/` or `-`. -/
def isWordChar (c : Char) : Bool := isIdentChar c || c == '.' || c == '/' || c == '-'

def isWord (w : Str) : Bool := w.head?.any isWordStart && w.all isWordChar

/-- `(?:[ \t]+WORD)*[ \t]*` to the end: the words. -/
def blankWords (s : Str) : Option (List Str) :=
  let words := (s.splitOnP isBlank).filter fun w => !w.isEmpty
  if s.head?.all isBlank && words.all isWord then some words else none

/-- What follows the colon of a rule whose target is `name`. -/
def afterColon (name body : Str) : Option Str :=
  match (body.drop name.length).dropWhile isBlank with
  | ':' :: rest => some rest
  | _ => none

/-- `_G_PHONY_RE`: the names. -/
def matchPhony (body : Str) : Option (List Str) :=
  if (str ".PHONY").isPrefixOf body then
    ((afterColon (str ".PHONY") body).bind blankWords).filter fun words => !words.isEmpty
  else none

/-- `_G_RULE_RE`: the target and the prerequisites. -/
def matchRule (body : Str) : Option (Str × List Str) :=
  let name := body.takeWhile isWordChar
  if isWord name then ((afterColon name body).bind blankWords).map fun words => (name, words) else none

/-- Why a line is refused. -/
inductive Refusal where
  | forbidden (why : Forbidden)
  | onlyBlanks
  | tabOutsideRule
  | recipe (d : DollarProblem)
  | hashInExpansion
  | continuedComment
  | keyword (word : Str)
  | value (d : DollarProblem)
  | continuedRule
  | conditional
  | directive (word : Str)
  | leadingBlank
  | semicolon
  | expansion
  | shape
deriving DecidableEq

/-- `body.split()[0]`, or nothing. -/
def firstWord (body : Str) : Str := (body.dropWhile isSpace).takeWhile fun c => !isSpace c

/-- Why a line of no shape is refused. -/
def shapeRefusal (body : Str) : Refusal :=
  let first := firstWord body
  if (["ifeq", "ifneq", "ifdef", "ifndef", "else", "endif"].map str).contains first then .conditional
  else if directiveKeywords.contains first then .directive first
  else if body.head?.any isBlank then .leadingBlank
  else if body.contains ';' then .semicolon
  else if body.contains '$' then .expansion
  else .shape

section

variable (isFormat : Char → Bool)

/-- The segments of a line with a character that is refused. -/
def badSegments (rec : LogicalLine) : List (Nat × Refusal) :=
  rec.segments.zipIdx.filterMap fun sk =>
    (sk.1.findSome? (forbiddenChar isFormat)).map fun why => (rec.n + sk.2, .forbidden why)

/-- What is refused of a line that is neither a TAB line nor one that keeps a rule open, and whether it opens one. -/
def bodyProblems (rec : LogicalLine) : List Refusal × Bool :=
  match (leadOfOperator rec.code).filter fun lead => directiveKeywords.contains lead with
  | some lead => ([.keyword lead], false)
  | none =>
    match matchGAssign rec.code with
    | some (_, _, value) => ((dollarProblems value true).map .value, false)
    | none =>
      let phony := (matchPhony rec.code).isSome
      let rule := (matchRule rec.code).isSome
      if (phony || rule) && rec.segments.length > 1 then ([.continuedRule], false)
      else if phony then ([], false)
      else if rule then ([], true)
      else ([shapeRefusal rec.code], false)

/-- One line, where `inRule` says whether a rule is open. -/
def lineProblems (inRule : Bool) (rec : LogicalLine) : List (Nat × Refusal) × Bool :=
  let bad := badSegments isFormat rec
  if !bad.isEmpty then (bad, false)
  else if !rec.raw.isEmpty && rec.raw.all isBlank then ([(rec.n, .onlyBlanks)], false)
  else if rec.tab then
    if inRule then ((dollarProblems rec.raw false).map fun d => (rec.n, .recipe d), true)
    else ([(rec.n, .tabOutsideRule)], false)
  else if rec.commentWhy then ([(rec.n, .hashInExpansion)], false)
  else if rec.commentAt.any fun at' => at' < rec.tail then ([(rec.n, .continuedComment)], false)
  else if keepsRuleOpen rec then ([], inRule)
  else
    let r := bodyProblems rec
    (r.1.map fun why => (rec.n, why), r.2)

def problemsFrom (inRule : Bool) : List LogicalLine → List (Nat × Refusal)
  | [] => []
  | rec :: lines =>
    let r := lineProblems isFormat inRule rec
    r.1 ++ problemsFrom r.2 lines

def grammarProblems (text : Str) : List (Nat × Refusal) := problemsFrom isFormat false (makefileLines text)

end

end Vizra.Makefile
