import Vizra.GoStd.Strings

/-!
# `fmt.Sscanf` with literals and `%d`

The steps of `Sscanf` for a format of literals and `%d`: a literal is matched rune by rune, a `%d` skips spaces and
takes the digits that follow. `none` is any of its errors. What stands behind the last item of the format is not read.
-/

namespace Go

def isDigit (c : Char) : Bool := (digit c).isSome

/-- `SkipSpace`, where a newline is an error. -/
def skipSpace : List Char → Option (List Char)
  | [] => some []
  | c :: s => if c == '\n' then none else if isSpace c then skipSpace s else some (c :: s)

/-- A literal of the format. -/
def scanLiteral (lit s : List Char) : Option (List Char) :=
  if lit.isPrefixOf s then some (s.drop lit.length) else none

/-- `%d` into an unsigned integer of `bits` bits: the value and what follows. -/
def scanUint (bits : Nat) (s : List Char) : Option (Nat × List Char) :=
  (skipSpace s).bind fun s =>
    let tok := s.takeWhile isDigit
    if tok.isEmpty then none
    else (digitsValue tok).bind fun n => if n < 2 ^ bits then some (n, s.dropWhile isDigit) else none

/-- `%d` into an `int`. -/
def scanInt (s : List Char) : Option (Int × List Char) :=
  (skipSpace s).bind fun s =>
    let signed := splitSign s
    let tok := signed.2.takeWhile isDigit
    if tok.isEmpty then none
    else (digitsValue tok).bind fun n =>
      if signed.1 then (if n ≤ 2 ^ 63 then some (-n, signed.2.dropWhile isDigit) else none)
      else if n < 2 ^ 63 then some (n, signed.2.dropWhile isDigit) else none

/-! ## Digits -/

theorem digit_digitChar {d : Nat} (h : d < 10) : digit d.digitChar = some d := by
  revert d
  decide

theorem digitsValue_concat (cs : List Char) (c : Char) :
    digitsValue (cs ++ [c]) = (digitsValue cs).bind fun n => (digit c).map fun d => 10 * n + d := by
  unfold digitsValue
  rw [List.foldl_append, List.foldl_cons, List.foldl_nil]

theorem digitsValue_toDigits (n : Nat) : digitsValue (Nat.toDigits 10 n) = some n := by
  induction n using Nat.strongRecOn with
  | ind n ih =>
    rw [Nat.toDigits_eq_if (by omega)]
    by_cases hlt : n < 10
    · rw [if_pos hlt, ← List.nil_append [n.digitChar], digitsValue_concat, digit_digitChar hlt]
      simp [digitsValue]
    · have hmod : n % 10 < 10 := Nat.mod_lt n (by omega)
      rw [if_neg hlt, digitsValue_concat, ih (n / 10) (by omega), digit_digitChar hmod]
      simp only [Option.bind_some, Option.map_some, Option.some.injEq]
      omega

theorem isDigit_eq (c : Char) : isDigit c = c.isDigit := by
  unfold isDigit digit Char.isDigit
  by_cases hrange : '0' ≤ c ∧ c ≤ '9'
  · have hlo : c.val ≥ '0'.val := Char.le_def.mp hrange.1
    have hhi : c.val ≤ '9'.val := Char.le_def.mp hrange.2
    rw [if_pos hrange, decide_eq_true hlo, decide_eq_true hhi]
    rfl
  · rw [if_neg hrange]
    rw [Char.le_def, Char.le_def] at hrange
    simp only [Option.isSome_none, ge_iff_le, ← Bool.decide_and]
    exact (decide_eq_false hrange).symm

theorem isDigit_of_mem_toDigits {n : Nat} {c : Char} (h : c ∈ Nat.toDigits 10 n) : isDigit c = true := by
  rw [isDigit_eq]
  exact Nat.isDigit_of_mem_toDigits (by decide) (by decide) h

theorem digit_eq_some {c : Char} {d : Nat} (h : digit c = some d) : 48 ≤ c.val.toNat ∧ c.val.toNat = 48 + d ∧ d < 10 := by
  unfold digit at h
  split_ifs at h with hrange
  have hd := Option.some.inj h
  obtain ⟨hlo, hhi⟩ := hrange
  rw [Char.le_def, UInt32.le_iff_toNat_le] at hlo hhi
  have h0 : ('0' : Char).val.toNat = 48 := rfl
  have h9 : ('9' : Char).val.toNat = 57 := rfl
  have h0' : ('0' : Char).toNat = 48 := rfl
  have hc : c.toNat = c.val.toNat := rfl
  omega

theorem isSpace_of_isDigit {c : Char} (h : isDigit c = true) : isSpace c = false := by
  obtain ⟨d, hd⟩ := Option.isSome_iff_exists.mp h
  have hrange := digit_eq_some hd
  by_contra hspace
  rw [Bool.not_eq_false] at hspace
  simp only [isSpace, Bool.or_eq_true, Bool.and_eq_true, decide_eq_true_eq, beq_iff_eq, UInt32.le_iff_toNat_le,
    ← UInt32.toNat_inj, UInt32.reduceToNat] at hspace
  omega

theorem digit_eq_zero {c : Char} : digit c = some 0 ↔ c = '0' := by
  constructor
  · intro h
    have hval := (digit_eq_some h).2.1
    exact Char.toNat_inj.mp hval
  · rintro rfl
    rfl

/-- Only zeros have the value zero. -/
theorem digitsValue_eq_zero {cs : List Char} {n : Nat} (h : digitsValue cs = some n) : n = 0 ↔ ∀ c ∈ cs, c = '0' := by
  induction cs using List.reverseRecOn generalizing n with
  | nil =>
    cases h
    simp
  | append_singleton cs c ih =>
    rw [digitsValue_concat] at h
    obtain ⟨m, hm, h⟩ := Option.bind_eq_some_iff.mp h
    obtain ⟨d, hd, rfl⟩ := Option.map_eq_some_iff.mp h
    have hsum : 10 * m + d = 0 ↔ m = 0 ∧ d = 0 := by omega
    have hc : d = 0 ↔ c = '0' := by
      rw [← digit_eq_zero, hd, Option.some.injEq]
    rw [hsum, ih hm, hc, List.forall_mem_append, List.forall_mem_singleton]

/-- A number of digits and a value determine the text. -/
theorem digitsValue_inj {cs ds : List Char} {n : Nat} (hlength : cs.length = ds.length)
    (hcs : digitsValue cs = some n) (hds : digitsValue ds = some n) : cs = ds := by
  induction cs using List.reverseRecOn generalizing ds n with
  | nil => exact (List.length_eq_zero_iff.mp hlength.symm).symm
  | append_singleton cs c ih =>
    cases ds using List.reverseRecOn with
    | nil => simp at hlength
    | append_singleton ds d =>
      rw [digitsValue_concat] at hcs hds
      obtain ⟨m, hm, hcs⟩ := Option.bind_eq_some_iff.mp hcs
      obtain ⟨x, hx, rfl⟩ := Option.map_eq_some_iff.mp hcs
      obtain ⟨m', hm', hds⟩ := Option.bind_eq_some_iff.mp hds
      obtain ⟨y, hy, hsum⟩ := Option.map_eq_some_iff.mp hds
      have hcval := digit_eq_some hx
      have hdval := digit_eq_some hy
      have hc : c = d := Char.toNat_inj.mp (by rw [Char.toNat, Char.toNat]; omega)
      have hmm : m' = m := by omega
      rw [hc, ih (by simpa using hlength) hm (hmm ▸ hm')]

/-! ## What a scan reads -/

theorem skipSpace_eq_some {s s' : List Char} (h : skipSpace s = some s') :
    ∃ blanks, s = blanks ++ s' ∧ (∀ c ∈ blanks, isSpace c = true) ∧ ∀ c ∈ s'.head?, isSpace c = false := by
  induction s with
  | nil =>
    cases h
    exact ⟨[], rfl, fun c hc => (List.not_mem_nil hc).elim, fun c hc => (Option.not_mem_none c hc).elim⟩
  | cons c s ih =>
    unfold skipSpace at h
    split_ifs at h with hnewline hspace
    · obtain ⟨blanks, rfl, hblanks, hhead⟩ := ih h
      refine ⟨c :: blanks, rfl, fun d hd => ?_, hhead⟩
      rcases List.mem_cons.mp hd with rfl | hd
      · exact hspace
      · exact hblanks d hd
    · cases h
      refine ⟨[], rfl, fun d hd => (List.not_mem_nil hd).elim, fun d hd => ?_⟩
      rw [← Option.some.inj hd]
      exact Bool.eq_false_iff.mpr hspace

theorem skipSpace_of_head {c : Char} {s : List Char} (h : isSpace c = false) : skipSpace (c :: s) = some (c :: s) := by
  have hnewline : (c == '\n') = false := by
    by_contra hc
    rw [Bool.not_eq_false, beq_iff_eq] at hc
    subst hc
    cases h
  rw [skipSpace, hnewline, h]
  rfl

theorem scanLiteral_eq_some {lit s rest : List Char} : scanLiteral lit s = some rest ↔ s = lit ++ rest := by
  unfold scanLiteral
  constructor
  · intro h
    split_ifs at h with hstarts
    obtain ⟨tail, rfl⟩ := List.isPrefixOf_iff_prefix.mp hstarts
    rw [List.drop_left] at h
    rw [Option.some.inj h]
  · rintro rfl
    rw [if_pos (List.isPrefixOf_iff_prefix.mpr (List.prefix_append lit rest)), List.drop_left]

theorem takeWhile_isDigit_nil {rest : List Char} (h : ∀ c ∈ rest.head?, isDigit c = false) :
    rest.takeWhile isDigit = [] := by
  cases rest with
  | nil => rfl
  | cons c rest => exact List.takeWhile_cons_of_neg (Bool.eq_false_iff.mp (h c rfl))

/-- A number in the input: blanks, digits, and something else or the end. -/
structure Number (s : List Char) (n : Nat) (tok rest : List Char) : Prop where
  blanks : ∃ blanks, s = blanks ++ (tok ++ rest) ∧ ∀ c ∈ blanks, isSpace c = true
  ne_nil : tok ≠ []
  digits : ∀ c ∈ tok, isDigit c = true
  value : digitsValue tok = some n
  ends : ∀ c ∈ rest.head?, isDigit c = false

theorem scanUint_eq_some {bits n : Nat} {s rest : List Char} (h : scanUint bits s = some (n, rest)) :
    n < 2 ^ bits ∧ ∃ tok, Number s n tok rest := by
  obtain ⟨s', hs', htok⟩ := Option.bind_eq_some_iff.mp h
  obtain ⟨blanks, rfl, hblanks, -⟩ := skipSpace_eq_some hs'
  simp only at htok
  split_ifs at htok with hempty
  obtain ⟨m, hm, hvalue⟩ := Option.bind_eq_some_iff.mp htok
  split_ifs at hvalue with hlt
  cases hvalue
  have hne : s'.takeWhile isDigit ≠ [] := fun hnil => hempty (List.isEmpty_iff.mpr hnil)
  refine ⟨hlt, s'.takeWhile isDigit, ⟨blanks, ?_, hblanks⟩, hne, ?_, hm, ?_⟩
  · rw [List.takeWhile_append_dropWhile]
  · intro c hc
    exact List.mem_takeWhile_imp hc
  · intro c hc
    have hnot := List.head?_dropWhile_not isDigit s'
    rw [Option.mem_def.mp hc] at hnot
    exact Bool.eq_false_iff.mpr (by simpa using hnot)

/-- The digits of a number, read off the input. -/
theorem Number.takeWhile_eq {s tok rest : List Char} {n : Nat} (h : Number s n tok rest) :
    (s.dropWhile isSpace).takeWhile isDigit = tok := by
  obtain ⟨blanks, rfl, hblanks⟩ := h.blanks
  obtain ⟨c, cs, hcs⟩ := List.exists_cons_of_ne_nil h.ne_nil
  have hc : isSpace c = false := isSpace_of_isDigit (h.digits c (hcs ▸ List.mem_cons_self))
  have hdrop : (tok ++ rest).dropWhile isSpace = tok ++ rest := by
    rw [hcs, List.cons_append, List.dropWhile_cons_of_neg (Bool.eq_false_iff.mp hc)]
  rw [List.dropWhile_append_of_pos hblanks, hdrop, List.takeWhile_append_of_pos h.digits, takeWhile_isDigit_nil h.ends,
    List.append_nil]

/-- A number is not zero exactly if one of its digits is not. -/
theorem Number.ne_zero_iff {s tok rest : List Char} {n : Nat} (h : Number s n tok rest) : n ≠ 0 ↔ ∃ c ∈ tok, c ≠ '0' := by
  rw [Ne, digitsValue_eq_zero h.value]
  simp only [not_forall, exists_prop]

/-- Only blanks and digits stand before what follows a number. -/
theorem Number.exists_before {s tok rest : List Char} {n : Nat} (h : Number s n tok rest) {k : Char}
    (hspace : isSpace k = false) (hdigit : isDigit k = false) : ∃ pre, s = pre ++ rest ∧ ∀ c ∈ pre, c ≠ k := by
  obtain ⟨blanks, hs, hblanks⟩ := h.blanks
  refine ⟨blanks ++ tok, by rw [hs, List.append_assoc], fun c hc => ?_⟩
  rintro rfl
  rcases List.mem_append.mp hc with hc | hc
  · rw [hblanks c hc] at hspace
    cases hspace
  · rw [h.digits c hc] at hdigit
    cases hdigit

/-- Digits that something else follows are read as their number. -/
theorem scanUint_toDigits {bits n : Nat} (h : n < 2 ^ bits) {rest : List Char}
    (hrest : ∀ c ∈ rest.head?, isDigit c = false) : scanUint bits (Nat.toDigits 10 n ++ rest) = some (n, rest) := by
  have hdigits : ∀ c ∈ Nat.toDigits 10 n, isDigit c = true := fun c hc => isDigit_of_mem_toDigits hc
  have hskip : skipSpace (Nat.toDigits 10 n ++ rest) = some (Nat.toDigits 10 n ++ rest) := by
    obtain ⟨c, cs, hcs⟩ := List.exists_cons_of_ne_nil (Nat.toDigits_ne_nil (n := n) (b := 10))
    have hc : isDigit c = true := hdigits c (hcs ▸ List.mem_cons_self)
    rw [hcs, List.cons_append]
    exact skipSpace_of_head (isSpace_of_isDigit hc)
  have hnext := takeWhile_isDigit_nil hrest
  have htake : (Nat.toDigits 10 n ++ rest).takeWhile isDigit = Nat.toDigits 10 n := by
    rw [List.takeWhile_append_of_pos hdigits, hnext, List.append_nil]
  have hdrop : (Nat.toDigits 10 n ++ rest).dropWhile isDigit = rest := by
    have hsplit := List.takeWhile_append_dropWhile (p := isDigit) (l := Nat.toDigits 10 n ++ rest)
    rw [htake] at hsplit
    exact List.append_cancel_left hsplit
  have hne : (Nat.toDigits 10 n).isEmpty = false := List.isEmpty_eq_false_iff.mpr Nat.toDigits_ne_nil
  rw [scanUint, hskip, Option.bind_some]
  simp only [htake, hdrop, hne, digitsValue_toDigits, Option.bind_some, if_pos h, Bool.false_eq_true, if_false]

end Go
