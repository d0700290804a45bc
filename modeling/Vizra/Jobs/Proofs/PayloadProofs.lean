import Vizra.Jobs.Proofs.SystemProofs
import Vizra.Pg.Jsonb

/-!
# The bounds of `Enqueue` and the bounds of the table

`Enqueue` measures what `json.Marshal` wrote, `jobs_payload_bounded` the text of the stored jsonb value.
-/

namespace Vizra.Jobs

open Go Vizra.Pg

/-- The constraints that `Enqueue` mirrors. -/
def mirroredConstraints : List CheckConstraint :=
  [.jobs_payload_bounded, .jobs_kind_bounded, .jobs_correlation_bounded]

theorem length_pos_of_ne {s : String} (h : s ≠ "") : 1 ≤ s.toList.length := by
  have hne : s.toList ≠ [] := fun hnil => h (String.toList_eq_nil_iff.mp hnil)
  exact List.length_pos_of_ne_nil hne

section

variable {jsonbText : String → String} {newID : Except String Uuid} {j : NewJob} {p : EnqueueJobParams}

theorem Prepared.kind_bounded (h : Prepared newID j p) (now : Time) :
    CheckConstraint.jobs_kind_bounded.holds (p.row jsonbText now) = true := by
  have hkind : p.kind = j.kind := by rw [h.params_eq]; rfl
  have hpos := length_pos_of_ne h.kind_ne
  have hle := (length_le_utf8ByteSize j.kind).trans h.kind_le
  simp only [maxKindBytes] at hle
  simp [CheckConstraint.holds, EnqueueJobParams.row, hkind]
  omega

theorem Prepared.correlation_bounded (h : Prepared newID j p) (now : Time) :
    CheckConstraint.jobs_correlation_bounded.holds (p.row jsonbText now) = true := by
  have hcorr : p.correlation_id = j.correlationID := by rw [h.params_eq]; rfl
  have hpos := length_pos_of_ne h.correlation_ne
  have hle := (length_le_utf8ByteSize j.correlationID).trans h.correlation_le
  simp only [maxCorrelationIDBytes] at hle
  simp [CheckConstraint.holds, EnqueueJobParams.row, hcorr]
  omega

theorem payload_bounded_iff (hjsonb : jsonbText p.payload = spaced p.payload) (now : Time) :
    CheckConstraint.jobs_payload_bounded.holds (p.row jsonbText now) = true ↔
      p.payload.utf8ByteSize + separators p.payload ≤ 65536 := by
  rw [← utf8ByteSize_spaced, ← hjsonb]
  exact decide_eq_true_iff

/-- The row of a job that passed the checks violates at most the bound of its payload. -/
theorem Prepared.violated_nil_iff (h : Prepared newID j p) (hjsonb : jsonbText p.payload = spaced p.payload)
    (now : Time) :
    violated (p.row jsonbText now) = [] ↔ p.payload.utf8ByteSize + separators p.payload ≤ 65536 := by
  rw [violated_eq_nil_iff, ← payload_bounded_iff hjsonb now]
  constructor
  · intro hall
    exact hall .jobs_payload_bounded
  · intro hpay
    exact violated_eq_nil_iff.mp
      ((h.rowInv jsonbText now).violated_nil (h.correlation_bounded now) (h.kind_bounded now) rfl hpay)

/-- The insert of a row without violations raises no CHECK constraint. -/
theorem enqueueJob_ne_check {now : Time} (hv : violated (p.row jsonbText now) = []) (rows : Table)
    (cs : List CheckConstraint) : enqueueJob jsonbText now p rows ≠ .error (.check cs) := by
  intro herr
  simp only [enqueueJob, withTexts, store, hv, List.flatMap_cons, List.flatMap_nil, List.append_nil, ne_eq,
    not_true_eq_false, if_false] at herr
  split_ifs at herr <;> simp [Except.map] at herr

end

/-- The digits and commas of an array of `n + 1` ones. -/
def ones : Nat → List Char
  | 0 => ['1']
  | n + 1 => '1' :: ',' :: ones n

def onesText (n : Nat) : String := String.ofList ('[' :: (ones n ++ [']']))

theorem utf8Len_ones (n : Nat) : String.utf8Len (ones n ++ [']']) = 2 * n + 2 := by
  induction n with
  | zero => rfl
  | succ n ih =>
    have h1 : Char.utf8Size '1' = 1 := rfl
    have hcomma : Char.utf8Size ',' = 1 := rfl
    rw [ones, List.cons_append, List.cons_append, String.utf8Len_cons, String.utf8Len_cons, ih, h1, hcomma]
    omega

theorem separatorsFrom_ones (n : Nat) : separatorsFrom .outside (ones n ++ [']']) = n := by
  induction n with
  | zero => rfl
  | succ n ih =>
    have hsep : separatorsFrom .outside (ones (n + 1) ++ [']']) =
        0 + (1 + separatorsFrom .outside (ones n ++ [']'])) := rfl
    rw [hsep, ih]
    omega

theorem onesText_size (n : Nat) : (onesText n).utf8ByteSize = 2 * n + 3 ∧ separators (onesText n) = n := by
  have hbracket : Char.utf8Size '[' = 1 := rfl
  constructor
  · rw [onesText, String.utf8ByteSize_ofList, String.utf8Len_cons, utf8Len_ones, hbracket]
  · have hsep : separatorsFrom .outside ('[' :: (ones n ++ [']'])) =
        0 + separatorsFrom .outside (ones n ++ [']']) := rfl
    rw [separators, onesText, String.toList_ofList, hsep, separatorsFrom_ones, Nat.zero_add]

/-- A job whose payload is an array of 32767 ones. -/
def wideJob : NewJob := { exampleJob with payload := some (.ok (onesText 32766)) }

end Vizra.Jobs
