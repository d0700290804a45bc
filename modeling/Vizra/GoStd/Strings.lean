import Mathlib.Algebra.Group.Int.Defs
import Mathlib.Algebra.Group.Nat.Defs
import Mathlib.Data.List.DropRight
import Mathlib.Data.List.Infix

/-!
# `strings`, `unicode` and `strconv`

The functions of Go's library that a verified program calls on text, over the list of runes of a
string. The case mapping of a rune is Unicode's and stays a parameter.
-/

namespace Go

/-- `unicode.IsSpace`: the White_Space property. -/
def isSpace (c : Char) : Bool :=
  (0x09 ≤ c.val && c.val ≤ 0x0D) || c.val == 0x20 || c.val == 0x85 || c.val == 0xA0 || c.val == 0x1680 ||
    (0x2000 ≤ c.val && c.val ≤ 0x200A) || c.val == 0x2028 || c.val == 0x2029 || c.val == 0x202F ||
    c.val == 0x205F || c.val == 0x3000

/-- The runes that `strings.TrimSpace` leaves. -/
def trimSpaceRunes (s : List Char) : List Char := (s.dropWhile isSpace).rdropWhile isSpace

/-- `strings.TrimSpace`. -/
def trimSpace (s : String) : String := String.ofList (trimSpaceRunes s.toList)

/-- `strings.TrimRight` with a one-rune cutset. -/
def trimRight (s : String) (cut : Char) : String := String.ofList (s.toList.rdropWhile (· == cut))

/-- `strings.TrimSuffix` with a one-rune suffix: at most one is dropped. -/
def trimSuffix (s : String) (suffix : Char) : String :=
  if s.toList.getLast? = some suffix then String.ofList s.toList.dropLast else s

/-- `strings.HasPrefix`. -/
def hasPrefix (s pre : String) : Bool := pre.toList.isPrefixOf s.toList

/-- `strings.HasSuffix`. -/
def hasSuffix (s suf : String) : Bool := suf.toList.isSuffixOf s.toList

/-- What stands before the first `sep`: `s[:strings.Index(s, sep)]`, where there is one. -/
def before (s : String) (sep : Char) : Option String :=
  if s.toList.contains sep then some (String.ofList (s.toList.takeWhile fun c => c != sep)) else none

/-- `strings.Contains`. -/
def contains (s sub : String) : Bool := s.toList.tails.any fun t => sub.toList.isPrefixOf t

/-- `strings.Split` on a one-rune separator. -/
def split (s : String) (sep : Char) : List String := (s.toList.splitOn sep).map String.ofList

/-- `strings.ToLower`, for the case mapping `lower` of a rune. -/
def toLower (lower : Char → Char) (s : String) : String := String.ofList (s.toList.map lower)

def digit (c : Char) : Option Nat := if '0' ≤ c ∧ c ≤ '9' then some (c.toNat - '0'.toNat) else none

/-- The value of a string of decimal digits, most significant first. -/
def digitsValue (cs : List Char) : Option Nat :=
  cs.foldl (fun acc c => acc.bind fun n => (digit c).map fun d => 10 * n + d) (some 0)

/-- Whether a text starts with `-`, and what follows its sign. -/
def splitSign : List Char → Bool × List Char
  | [] => (false, [])
  | c :: cs => if c == '-' then (true, cs) else if c == '+' then (false, cs) else (false, c :: cs)

/-- `strconv.ParseInt(s, 10, 64)`; both of its errors are `none`. -/
def parseInt64 (s : String) : Option Int :=
  let signed := splitSign s.toList
  if signed.2.isEmpty then none
  else (digitsValue signed.2).bind fun n =>
    if signed.1 then (if n ≤ 2 ^ 63 then some (-n) else none) else if n < 2 ^ 63 then some n else none

/-- The integer that a text writes in decimal, with a sign or without one. -/
def decimal (s : String) : Option Int :=
  let signed := splitSign s.toList
  if signed.2.isEmpty then none else (digitsValue signed.2).map fun n : Nat => if signed.1 then -(n : Int) else n

theorem parseInt64_eq_some {s : String} {v : Int} :
    parseInt64 s = some v ↔ decimal s = some v ∧ -2 ^ 63 ≤ v ∧ v < 2 ^ 63 := by
  simp only [parseInt64, decimal]
  cases hsign : (splitSign s.toList).1 <;> split
  all_goals simp only [reduceCtorEq, false_and, Option.bind_eq_some_iff, Option.map_eq_some_iff, Bool.false_eq_true,
    if_false, if_true, Option.ite_none_right_eq_some, Option.some.injEq]
  · constructor
    · rintro ⟨n, hn, hlt, rfl⟩
      exact ⟨⟨n, hn, rfl⟩, by omega, by omega⟩
    · rintro ⟨⟨n, hn, rfl⟩, -, hlt⟩
      exact ⟨n, hn, by omega, rfl⟩
  · constructor
    · rintro ⟨n, hn, hle, rfl⟩
      exact ⟨⟨n, hn, rfl⟩, by omega, by omega⟩
    · rintro ⟨⟨n, hn, rfl⟩, hge, -⟩
      exact ⟨n, hn, by omega, rfl⟩

end Go
