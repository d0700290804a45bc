import Vizra.PyStd.Str

/-!
# The values of a JSON document, as Python's `json.loads` builds them
-/

namespace Py

inductive JsonFloat where
  | finite (q : Rat)
  | infinite (negative : Bool)
  | nan

inductive Json where
  | null
  | bool (b : Bool)
  | int (n : Int)
  | float (x : JsonFloat)
  | str (s : Str)
  | list (items : List Json)
  | dict (items : List (Str × Json))

/-- The items of an object. -/
abbrev JsonDict := List (Str × Json)

namespace Json

/-- `bool()`. -/
def truth : Json → Bool
  | .null => false
  | .bool b => b
  | .int n => n != 0
  | .float (.finite q) => q != 0
  | .float _ => true
  | .str s => !s.isEmpty
  | .list items => !items.isEmpty
  | .dict items => !items.isEmpty

/-- The text, for `isinstance(v, str)`. -/
def asStr? : Json → Option Str
  | .str s => some s
  | _ => none

/-- The object, for `isinstance(v, dict)`. -/
def asDict? : Json → Option JsonDict
  | .dict items => some items
  | _ => none

/-- The array, for `isinstance(v, list)`. -/
def asList? : Json → Option (List Json)
  | .list items => some items
  | _ => none

/-- The integer, for `isinstance(v, int)`: a boolean is one. -/
def asInt? : Json → Option Int
  | .int n => some n
  | .bool b => some (if b then 1 else 0)
  | _ => none

def isNumber : Json → Bool
  | .bool _ => true
  | .int _ => true
  | .float _ => true
  | _ => false

/-- `v == s`, for a text `s`. -/
def isText (s : Str) : Json → Bool
  | .str t => t == s
  | _ => false

/-- `hash(v)` does not raise. -/
def hashable : Json → Bool
  | .list _ => false
  | .dict _ => false
  | _ => true

/-- `n < v`, unless it raises. -/
def exceeds (n : Int) : Json → Option Bool
  | .bool b => some (n < if b then 1 else 0)
  | .int m => some (n < m)
  | .float (.finite q) => some ((n : Rat) < q)
  | .float (.infinite negative) => some !negative
  | .float .nan => some false
  | _ => none

/-- `str()`, where `repr` is what it says of a float or a container. -/
def text (repr : Json → Str) : Json → Str
  | .null => Py.str "None"
  | .bool b => Py.str (if b then "True" else "False")
  | .int n => (toString n).toList
  | .str s => s
  | v => repr v

end Json

namespace JsonDict

/-- `d.get(k)`. -/
def get (d : JsonDict) (k : Str) : Json := (d.lookup k).getD .null

/-- `k in d`. -/
def has (d : JsonDict) (k : Str) : Bool := (d.lookup k).isSome

/-- `d` after `d[k] = v`. -/
def set : JsonDict → Str → Json → JsonDict
  | [], k, v => [(k, v)]
  | kv :: d, k, v => if kv.1 = k then (k, v) :: d else kv :: set d k v

theorem lookup_set {d : JsonDict} {k j : Str} {v : Json} :
    (d.set k v).lookup j = if j = k then some v else d.lookup j := by
  induction d with
  | nil =>
    rw [set, List.lookup_cons, List.lookup_nil]
    by_cases hj : j = k
    · rw [if_pos hj, beq_iff_eq.mpr hj]
    · rw [if_neg hj, beq_eq_false_iff_ne.mpr hj]
  | cons kv d ih =>
    rw [set]
    by_cases hkv : kv.1 = k
    · rw [if_pos hkv, List.lookup_cons, List.lookup_cons, hkv]
      by_cases hj : j = k
      · rw [if_pos hj, beq_iff_eq.mpr hj]
      · rw [if_neg hj, beq_eq_false_iff_ne.mpr hj]
    · rw [if_neg hkv, List.lookup_cons, List.lookup_cons, ih]
      by_cases hj : j = k
      · have hne : j ≠ kv.1 := fun h => hkv (h.symm.trans hj)
        rw [beq_eq_false_iff_ne.mpr hne, if_pos hj]
      · simp only [if_neg hj]

@[simp]
theorem get_set_self {d : JsonDict} {k : Str} {v : Json} : (d.set k v).get k = v := by
  rw [get, lookup_set, if_pos rfl, Option.getD_some]

theorem get_set_of_ne {d : JsonDict} {k j : Str} {v : Json} (h : j ≠ k) : (d.set k v).get j = d.get j := by
  rw [get, lookup_set, if_neg h, get]

theorem has_set_of_ne {d : JsonDict} {k j : Str} {v : Json} (h : j ≠ k) : (d.set k v).has j = d.has j := by
  rw [has, lookup_set, if_neg h, has]

end JsonDict

end Py
