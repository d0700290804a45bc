import Vizra.PyStd.Str

/-!
# The values of a YAML document, as PyYAML's safe loader builds them

A document is a finite tree: an alias is what its anchor names. Of the values that are neither text nor a
container only what a program can tell by `str()`, by its truth and by a lookup of `True` is kept.
-/

namespace Py

/-- What can be the key of a mapping. -/
inductive Atom where
  | none
  | str (s : Str)
  -- a boolean, a number, a date or bytes: `str()` of it, its truth, and whether it equals `True`
  | other (text : Str) (truth : Bool) (eqTrue : Bool)
deriving DecidableEq

/-- `str()`. -/
def Atom.text : Atom → Str
  | .none => Py.str "None"
  | .str s => s
  | .other text _ _ => text

inductive Value where
  | atom (a : Atom)
  | list (items : List Value)
  | dict (items : List (Atom × Value))
  -- a set, or bytes
  | elements (items : List Atom)

abbrev Mapping := List (Atom × Value)

namespace Value

def none : Value := .atom .none

def isNone : Value → Bool
  | .atom .none => true
  | _ => false

def ofStr (s : Str) : Value := .atom (.str s)

/-- `bool()`. -/
def truth : Value → Bool
  | .atom .none => false
  | .atom (.str s) => !s.isEmpty
  | .atom (.other _ truth _) => truth
  | .list items => !items.isEmpty
  | .dict items => !items.isEmpty
  | .elements items => !items.isEmpty

/-- The text, for `isinstance(v, str)`. -/
def asStr? : Value → Option Str
  | .atom (.str s) => some s
  | _ => Option.none

/-- The mapping, for `isinstance(v, dict)`. -/
def asDict? : Value → Option Mapping
  | .dict items => some items
  | _ => Option.none

/-- What `for x in v` takes, if `v` can be iterated. -/
def iterate? : Value → Option (List Value)
  | .atom (.str s) => some (s.map fun c => .ofStr [c])
  | .atom _ => Option.none
  | .list items => some items
  | .dict items => some (items.map fun kv => .atom kv.1)
  | .elements items => some (items.map .atom)

/-- `str()`, where `repr` is what it says of a container. -/
def text (repr : Value → Str) : Value → Str
  | .atom a => a.text
  | v => repr v

end Value

namespace Mapping

/-- `m.get(k)`. -/
def get (m : Mapping) (k : Str) : Value := (m.lookup (.str k)).getD .none

/-- `m.get(True)`. -/
def getTrue (m : Mapping) : Value :=
  ((m.find? fun kv => match kv.1 with
    | .other _ _ eqTrue => eqTrue
    | _ => false).map Prod.snd).getD .none

/-- `k in m`. -/
def has (m : Mapping) (k : Str) : Bool := m.any fun kv => kv.1 == .str k

end Mapping

end Py
