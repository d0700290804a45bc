import Vizra.GoStd.Strings
import Vizra.GoStd.Utf8

/-!
# `encoding/json`

`Scanner` is the pushdown scanner of the package with the values it recognises: it reads one rune at a
time and keeps a frame for every array and object that is open. Outside strings JSON is ASCII and inside
them the package replaces an ill-formed byte by U+FFFD, so the runes are read instead of the bytes.

A decoder stores a value into a Go variable: `null` leaves a string, a number or a struct as it is, and a
value of another type makes `Unmarshal` fail in the end, whatever else it stores. What a second
occurrence of one key stores into a slice reuses the elements that the first one left.
-/

namespace Go

inductive Json where
  | null
  | bool (b : Bool)
  | num (literal : List Char)
  | str (s : List Char)
  | arr (items : List Json)
  | obj (members : List (List Char × Json))

namespace Json

def isSpace (c : Char) : Bool := c == ' ' || c == '\t' || c == '\r' || c == '\n'

def isDigit (c : Char) : Bool := '0' ≤ c && c ≤ '9'

def hexValue (c : Char) : Option Nat :=
  if isDigit c then some (c.toNat - 48)
  else if 'a' ≤ c && c ≤ 'f' then some (c.toNat - 87)
  else if 'A' ≤ c && c ≤ 'F' then some (c.toNat - 55)
  else none

/-! ## Strings -/

def escaped (c : Char) : Char :=
  if c == 'b' then Char.ofNat 8
  else if c == 'f' then Char.ofNat 12
  else if c == 'n' then '\n'
  else if c == 'r' then '\r'
  else if c == 't' then '\t'
  else c

def getu4 (a b c d : Char) : Nat :=
  [a, b, c, d].foldl (fun n x => 16 * n + (hexValue x).getD 0) 0

/-- `utf16.DecodeRune`. -/
def surrogatePair (u v : Nat) : Option Char :=
  if 0xD800 ≤ u ∧ u < 0xDC00 ∧ 0xDC00 ≤ v ∧ v < 0xE000 then
    some (Char.ofNat ((u - 0xD800) * 1024 + (v - 0xDC00) + 0x10000))
  else none

/-- A rune of a string, or the sixteen bits of a `\u` escape. -/
inductive Item where
  | rune (c : Char)
  | unit (u : Nat)

def items : List Char → List Item
  | [] => []
  | [c] => [.rune c]
  | c :: e :: rest =>
    if c != '\\' then .rune c :: items (e :: rest)
    else if e != 'u' then .rune (escaped e) :: items rest
    else match rest with
      | a :: b :: x :: y :: rest4 => .unit (getu4 a b x y) :: items rest4
      | _ => []

def unitRune (u : Nat) : Char := if 0xD800 ≤ u ∧ u < 0xE000 then Utf8.runeError else Char.ofNat u

/-- A surrogate that is not the first of a pair is U+FFFD. -/
def joinPairs : List Item → List Char
  | [] => []
  | .rune c :: rest => c :: joinPairs rest
  | [.unit u] => [unitRune u]
  | .unit u :: .rune c :: rest => unitRune u :: c :: joinPairs rest
  | .unit u :: .unit v :: rest =>
    match surrogatePair u v with
    | some r => r :: joinPairs rest
    | none => unitRune u :: joinPairs (.unit v :: rest)

def unquote (raw : List Char) : List Char := joinPairs (items raw)

/-! ## The scanner -/

inductive Frame where
  | arr (items : List Json)
  | obj (members : List (List Char × Json))
  | member (members : List (List Char × Json)) (name : List Char)

inductive NumState where
  | neg
  | zero
  | int
  | dot
  | frac
  | exp
  | expSign
  | expDigits
deriving DecidableEq

def NumState.complete : NumState → Bool
  | zero | int | frac | expDigits => true
  | neg | dot | exp | expSign => false

def NumState.next (st : NumState) (c : Char) : Option NumState :=
  match st with
  | neg => if c == '0' then some zero else if isDigit c then some int else none
  | zero => if c == '.' then some dot else if c == 'e' || c == 'E' then some exp else none
  | int =>
    if isDigit c then some int
    else if c == '.' then some dot
    else if c == 'e' || c == 'E' then some exp
    else none
  | dot => if isDigit c then some frac else none
  | frac => if isDigit c then some frac else if c == 'e' || c == 'E' then some exp else none
  | exp => if c == '+' || c == '-' then some expSign else if isDigit c then some expDigits else none
  | expSign | expDigits => if isDigit c then some expDigits else none

/-- What a string is waiting for: a rune, the rune after a backslash, or so many hexadecimal digits. -/
inductive StrState where
  | plain
  | escape
  | hex (left : Nat)

inductive Mode where
  | beginValue
  | beginValueOrEmpty
  | beginNameOrEmpty
  | beginName
  | colon
  | endValue
  | endTop (v : Json)
  | inString (name : Bool) (raw : List Char) (st : StrState)
  | inNumber (st : NumState) (literal : List Char)
  | inWord (rest : List Char) (v : Json)

structure Scanner where
  stack : List Frame
  mode : Mode

namespace Scanner

def maxNestingDepth : Nat := 10000

def start : Scanner := { stack := [], mode := .beginValue }

/-- A value is complete. -/
def close (v : Json) : List Frame → Option Scanner
  | [] => some { stack := [], mode := .endTop v }
  | .arr items :: stack => some { stack := .arr (v :: items) :: stack, mode := .endValue }
  | .member members name :: stack => some { stack := .obj ((name, v) :: members) :: stack, mode := .endValue }
  | .obj _ :: _ => none

/-- `pushParseState`. -/
def push (s : Scanner) (frame : Frame) (mode : Mode) : Option Scanner :=
  if s.stack.length < maxNestingDepth then some { stack := frame :: s.stack, mode := mode } else none

/-- `stateBeginValue` at a rune that is not a space. -/
def beginValue (s : Scanner) (c : Char) : Option Scanner :=
  if c == '[' then s.push (.arr []) .beginValueOrEmpty
  else if c == '\x7b' then s.push (.obj []) .beginNameOrEmpty
  else if c == '"' then some { s with mode := .inString false [] .plain }
  else if c == '-' then some { s with mode := .inNumber .neg [c] }
  else if c == '0' then some { s with mode := .inNumber .zero [c] }
  else if isDigit c then some { s with mode := .inNumber .int [c] }
  else if c == 't' then some { s with mode := .inWord ['r', 'u', 'e'] (.bool true) }
  else if c == 'f' then some { s with mode := .inWord ['a', 'l', 's', 'e'] (.bool false) }
  else if c == 'n' then some { s with mode := .inWord ['u', 'l', 'l'] .null }
  else none

/-- `stateEndValue` and `stateEndTop`. -/
def endValue (s : Scanner) (c : Char) : Option Scanner :=
  if isSpace c then some s
  else match s.stack with
    | .arr items :: stack =>
      if c == ',' then some { s with mode := .beginValue }
      else if c == ']' then close (.arr items.reverse) stack
      else none
    | .obj members :: stack =>
      if c == ',' then some { s with mode := .beginName }
      else if c == '\x7d' then close (.obj members.reverse) stack
      else none
    | _ => none

def beginName (s : Scanner) (c : Char) : Option Scanner :=
  if c == '"' then some { s with mode := .inString true [] .plain } else none

/-- The string is complete; after a name its colon follows. -/
def closeString (s : Scanner) (name : Bool) (raw : List Char) : Option Scanner :=
  match name, s.stack with
  | false, stack => close (.str (unquote raw)) stack
  | true, .obj members :: stack => some { stack := .member members (unquote raw) :: stack, mode := .colon }
  | true, _ => none

def inString (s : Scanner) (name : Bool) (raw : List Char) (st : StrState) (c : Char) : Option Scanner :=
  let more (st : StrState) : Option Scanner := some { s with mode := .inString name (raw ++ [c]) st }
  match st with
  | .plain =>
    if c == '"' then s.closeString name raw
    else if c == '\\' then more .escape
    else if c.toNat < 0x20 then none
    else more .plain
  | .escape =>
    if c == 'u' then more (.hex 3)
    else if "bfnrt\\/\"".toList.contains c then more .plain
    else none
  | .hex left =>
    match hexValue c, left with
    | none, _ => none
    | some _, 0 => more .plain
    | some _, left + 1 => more (.hex left)

def step (s : Scanner) (c : Char) : Option Scanner :=
  match s.mode with
  | .beginValue => if isSpace c then some s else s.beginValue c
  | .beginValueOrEmpty =>
    if isSpace c then some s else if c == ']' then s.endValue c else s.beginValue c
  | .beginNameOrEmpty =>
    if isSpace c then some s else if c == '\x7d' then s.endValue c else s.beginName c
  | .beginName => if isSpace c then some s else s.beginName c
  | .colon =>
    if isSpace c then some s else if c == ':' then some { s with mode := .beginValue } else none
  | .endValue | .endTop _ => s.endValue c
  | .inString name raw st => s.inString name raw st c
  | .inNumber st literal =>
    match st.next c with
    | some st' => some { s with mode := .inNumber st' (literal ++ [c]) }
    | none => if st.complete then (close (.num literal) s.stack).bind fun s' => s'.endValue c else none
  | .inWord [] _ => none
  | .inWord [d] v => if c == d then close v s.stack else none
  | .inWord (d :: rest) v => if c == d then some { s with mode := .inWord rest v } else none

end Scanner

/-- The value of a text; the end of the input acts as a space. -/
def parse (bytes : List UInt8) : Option Json :=
  ((Utf8.runes bytes ++ [' ']).foldlM Scanner.step Scanner.start).bind fun s =>
    match s.mode with
    | .endTop v => some v
    | _ => none

/-! ## Unmarshal -/

/-- What a variable holds after a value is stored into it. -/
def Decoder (α : Type) : Type := α → Json → Option α

variable {α : Type}

def string : Decoder String
  | old, .null => some old
  | _, .str s => some (String.ofList s)
  | _, _ => none

def int64 : Decoder Int
  | old, .null => some old
  | _, .num literal => parseInt64 (String.ofList literal)
  | _, _ => none

/-- `parseFloat` gives the bits of a literal that is in the range of float64. -/
def float64 (parseFloat : List Char → Option UInt64) : Decoder UInt64
  | old, .null => some old
  | _, .num literal => parseFloat literal
  | _, _ => none

def pointer (zero : α) (d : Decoder α) : Decoder (Option α)
  | _, .null => some none
  | old, v => (d (old.getD zero) v).map some

def elements (zero : α) (d : Decoder α) : List α → List Json → Option (List α)
  | _, [] => some []
  | old, v :: vs => (d (old.headD zero) v).bind fun x => (elements zero d old.tail vs).map fun xs => x :: xs

/-- A nil slice is `none`. -/
def slice (zero : α) (d : Decoder α) : Decoder (Option (List α))
  | _, .null => some none
  | old, .arr items => (elements zero d (old.getD []) items).map some
  | _, _ => none

structure Field (α : Type) where
  name : String
  store : α → Json → Option α

/-- `foldName`, for comparison with a name in ASCII: only two runes outside ASCII fold into it. -/
def foldRune (c : Char) : Char :=
  if c.toNat = 0x17F then 'S' else if c.toNat = 0x212A then 'K' else c.toUpper

def findField (fields : List (Field α)) (key : List Char) : Option (Field α) :=
  (fields.find? fun f => f.name.toList = key).or
    (fields.find? fun f => f.name.toList.map foldRune = key.map foldRune)

def struct (fields : List (Field α)) : Decoder α
  | old, .null => some old
  | old, .obj members =>
    members.foldlM (fun acc m =>
      match findField fields m.1 with
      | some f => f.store acc m.2
      | none => some acc) old
  | _, _ => none

/-- `json.Unmarshal` into a variable that holds `zero`; its errors are `none`. -/
def unmarshal (zero : α) (d : Decoder α) (bytes : List UInt8) : Option α := (parse bytes).bind (d zero)

end Json

end Go
