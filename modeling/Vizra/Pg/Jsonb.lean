import Mathlib.Data.String.Basic

/-!
# The text form of a jsonb value

PostgreSQL prints a jsonb value with one space after every comma and colon outside its strings, where
`json.Marshal` puts none.
-/

namespace Vizra.Pg

/-- Where a reader of a JSON text stands. -/
inductive JsonScan where
  | outside
  | inside
  | escape
deriving DecidableEq

def JsonScan.next (st : JsonScan) (c : Char) : JsonScan :=
  match st with
  | outside => if c == '"' then inside else outside
  | inside => if c == '\\' then escape else if c == '"' then outside else inside
  | escape => inside

/-- The character separates two items, or a name from its value. -/
def JsonScan.separator (st : JsonScan) (c : Char) : Bool := st == outside && (c == ',' || c == ':')

def spacedFrom : JsonScan → List Char → List Char
  | _, [] => []
  | st, c :: cs =>
    if st.separator c then c :: ' ' :: spacedFrom (st.next c) cs else c :: spacedFrom (st.next c) cs

/-- The jsonb text of a value whose compact text is `s`. -/
def spaced (s : String) : String := String.ofList (spacedFrom .outside s.toList)

def separatorsFrom : JsonScan → List Char → Nat
  | _, [] => 0
  | st, c :: cs => (if st.separator c then 1 else 0) + separatorsFrom (st.next c) cs

/-- The commas and colons of a JSON text outside its strings. -/
def separators (s : String) : Nat := separatorsFrom .outside s.toList

theorem utf8Len_spacedFrom (st : JsonScan) (cs : List Char) :
    String.utf8Len (spacedFrom st cs) = String.utf8Len cs + separatorsFrom st cs := by
  induction cs generalizing st with
  | nil => rfl
  | cons c cs ih =>
    have hspace : Char.utf8Size ' ' = 1 := rfl
    by_cases h : st.separator c = true
    · rw [spacedFrom, if_pos h, separatorsFrom, if_pos h, String.utf8Len_cons, String.utf8Len_cons,
        String.utf8Len_cons, ih, hspace]
      omega
    · rw [spacedFrom, if_neg h, separatorsFrom, if_neg h, String.utf8Len_cons, String.utf8Len_cons, ih]
      omega

theorem utf8ByteSize_eq (s : String) : s.utf8ByteSize = String.utf8Len s.toList := by
  rw [← String.utf8ByteSize_ofList, String.ofList_toList]

/-- The jsonb text is longer by one byte for each separator. -/
theorem utf8ByteSize_spaced (s : String) : (spaced s).utf8ByteSize = s.utf8ByteSize + separators s := by
  rw [spaced, String.utf8ByteSize_ofList, utf8Len_spacedFrom, utf8ByteSize_eq, separators]

example : spaced "[1,\"a,b\\\":\"]" = "[1, \"a,b\\\":\"]" := by decide

theorem length_le_utf8ByteSize (s : String) : s.toList.length ≤ s.utf8ByteSize := by
  rw [utf8ByteSize_eq]
  induction s.toList with
  | nil => exact Nat.le_refl 0
  | cons c cs ih =>
    have hpos := c.utf8Size_pos
    rw [List.length_cons, String.utf8Len_cons]
    omega

end Vizra.Pg
