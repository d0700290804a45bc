import Mathlib.Data.Bool.AllAny
import Vizra.Credential.Proofs.EncodeProofs

/-!
# What `Decode` accepts

`Decode` inverts `Encode`. It also accepts strings that no call of `Encode` on usable parameters makes: a time or a
parallelism of zero, on which `argon2.IDKey` panics, and an empty tag.
-/

namespace Vizra.Credential

open Go

/-! ## The round trip -/

/-- The parameters as `Encode` prints them. -/
def paramsText (p : Params) : List Char :=
  "m=".toList ++ (Nat.toDigits 10 p.memory.toNat ++ (",t=".toList ++ (Nat.toDigits 10 p.time.toNat ++
    (",p=".toList ++ Nat.toDigits 10 p.parallelism.toNat))))

theorem toList_toString_nat (n : Nat) : (toString n).toList = Nat.toDigits 10 n := by
  rw [Nat.toString_eq_repr, Nat.repr_eq_ofList_toDigits, String.toList_ofList]

theorem toList_phcHeader (p : Params) :
    (phcHeader p).toList = '$' :: ("argon2id".toList ++ '$' :: ("v=19".toList ++ '$' :: (paramsText p ++ ['$']))) := by
  have hhead : ("$argon2id$v=" ++ toString argon2Version ++ "$m=").toList =
      '$' :: ("argon2id".toList ++ '$' :: ("v=19".toList ++ '$' :: "m=".toList)) := by decide +kernel
  have hsplit : (phcHeader p).toList = ("$argon2id$v=" ++ toString argon2Version ++ "$m=").toList ++
      ((toString p.memory).toList ++ (",t=".toList ++ ((toString p.time).toList ++ (",p=".toList ++
        ((toString p.parallelism).toList ++ ['$']))))) := by
    unfold phcHeader
    simp only [String.toList_append, List.append_assoc]
    rfl
  have hmemory : (toString p.memory).toList = Nat.toDigits 10 p.memory.toNat := toList_toString_nat _
  have htime : (toString p.time).toList = Nat.toDigits 10 p.time.toNat := toList_toString_nat _
  have hparallelism : (toString p.parallelism).toList = Nat.toDigits 10 p.parallelism.toNat := toList_toString_nat _
  rw [hsplit, hhead, hmemory, htime, hparallelism, paramsText]
  simp only [List.cons_append, List.append_assoc]

theorem encode_eq_intercalate (p : Params) (salt tag : List UInt8) :
    (encode p salt tag).toList = ['$'].intercalate
      [[], "argon2id".toList, "v=19".toList, paramsText p, Base64.encode salt, Base64.encode tag] := by
  have hintercalate : ∀ name version params salt tag : List Char,
      ['$'].intercalate [[], name, version, params, salt, tag] =
        '$' :: (name ++ '$' :: (version ++ '$' :: (params ++ '$' :: (salt ++ '$' :: tag)))) := by
    intro name version params salt tag
    simp [List.intercalate, List.intersperse]
  rw [hintercalate, toList_encode, toList_phcHeader]
  simp only [List.cons_append, List.append_assoc, List.nil_append]

theorem dollar_not_mem_toDigits (n : Nat) : '$' ∉ Nat.toDigits 10 n := by
  intro h
  have hdigit := isDigit_of_mem_toDigits h
  revert hdigit
  decide

theorem dollar_not_mem_base64 (bs : List UInt8) : '$' ∉ Base64.encode bs := by
  intro h
  have hmem := Base64.encode_mem _ h
  revert hmem
  decide

theorem fields_encode (p : Params) (salt tag : List UInt8) :
    (encode p salt tag).toList.splitOn '$' =
      [[], "argon2id".toList, "v=19".toList, paramsText p, Base64.encode salt, Base64.encode tag] := by
  rw [encode_eq_intercalate]
  refine List.splitOn_intercalate '$' ?_ (List.cons_ne_nil _ _)
  have hname : '$' ∉ "argon2id".toList ∧ '$' ∉ "v=19".toList := by decide
  have hparams : '$' ∉ paramsText p := by
    have hliterals : '$' ∉ "m=".toList ∧ '$' ∉ ",t=".toList ∧ '$' ∉ ",p=".toList := by decide
    simp only [paramsText, List.mem_append, hliterals, dollar_not_mem_toDigits, or_self, not_false_eq_true]
  simp only [List.forall_mem_cons, List.not_mem_nil, hname, hparams, dollar_not_mem_base64, not_false_eq_true, true_and,
    false_implies, implies_true]

theorem scanParams_paramsText (p : Params) :
    scanParams (paramsText p) = some (p.memory.toNat, p.time.toNat, p.parallelism.toNat) := by
  have htime : ∀ rest, ∀ c ∈ (",t=".toList ++ rest).head?, isDigit c = false := by
    intro rest c hc
    cases hc
    rfl
  have hparallelism : ∀ rest, ∀ c ∈ (",p=".toList ++ rest).head?, isDigit c = false := by
    intro rest c hc
    cases hc
    rfl
  have hlast : scanUint 8 (Nat.toDigits 10 p.parallelism.toNat) = some (p.parallelism.toNat, []) := by
    have hscan : scanUint 8 (Nat.toDigits 10 p.parallelism.toNat ++ []) = some (p.parallelism.toNat, []) :=
      scanUint_toDigits p.parallelism.toNat_lt fun c hc => (Option.not_mem_none c hc).elim
    rwa [List.append_nil] at hscan
  rw [scanParams, paramsText]
  simp only [scanLiteral_eq_some.mpr rfl, scanUint_toDigits p.memory.toNat_lt (htime _),
    scanUint_toDigits p.time.toNat_lt (hparallelism _), hlast, Option.bind_eq_bind, Option.bind_some, Option.pure_def]

theorem decode_encode_eq (p : Params) (salt tag : List UInt8) :
    decode (encode p salt tag) =
      .ok ({ p with saltLen := .ofNat salt.length, keyLen := .ofNat tag.length }, salt, tag) := by
  have hversion : (scanLiteral "v=".toList "v=19".toList).bind scanInt = some (19, []) := by decide
  rw [decode, fields_encode]
  simp only [hversion, scanParams_paramsText, Base64.decode_encode]
  simp [argon2Version]

/-- `Decode` gives back what `Encode` was given, with the lengths as far as 32 bits hold them. -/
theorem decode_encode_params (p : Params) (salt tag : List UInt8) :
    ∃ q, decode (encode p salt tag) = .ok (q, salt, tag) ∧
      q.memory = p.memory ∧ q.time = p.time ∧ q.parallelism = p.parallelism ∧
      q.saltLen.toNat = salt.length % 2 ^ 32 ∧ q.keyLen.toNat = tag.length % 2 ^ 32 :=
  ⟨_, decode_encode_eq p salt tag, rfl, rfl, rfl, UInt32.toNat_ofNat', UInt32.toNat_ofNat'⟩

/-- A tag of 2^32 bytes comes back with a key length of zero. -/
theorem decode_encode_wraps :
    ∃ q, decode (encode adr003 [] (List.replicate (2 ^ 32) 0)) = .ok (q, [], List.replicate (2 ^ 32) 0) ∧
      q.keyLen.toNat ≠ (List.replicate (2 ^ 32) (0 : UInt8)).length := by
  refine ⟨_, decode_encode_eq adr003 [] (List.replicate (2 ^ 32) 0), ?_⟩
  rw [List.length_replicate]
  decide

/-! ## What is accepted -/

/-- The parameters of an accepted text, with their digits. -/
theorem scanParams_eq_some {s : List Char} {memory time parallelism : Nat}
    (h : scanParams s = some (memory, time, parallelism)) :
    time < 2 ^ 32 ∧ parallelism < 2 ^ 8 ∧
      ∃ s₁ s₂ s₃ tok₁ tok₂ tok₃ rest, s = "m=".toList ++ s₁ ∧ Number s₁ memory tok₁ (",t=".toList ++ s₂) ∧
        Number s₂ time tok₂ (",p=".toList ++ s₃) ∧ Number s₃ parallelism tok₃ rest := by
  simp only [scanParams, Option.bind_eq_bind, Option.bind_eq_some_iff, Option.pure_def, Option.some.injEq,
    Prod.mk.injEq, Prod.exists, scanLiteral_eq_some] at h
  obtain ⟨s₁, rfl, m, r₁, hm, s₂, rfl, t, r₂, ht, s₃, rfl, q, rest, hq, rfl, rfl, rfl⟩ := h
  obtain ⟨-, tok₁, hn₁⟩ := scanUint_eq_some hm
  obtain ⟨hlt, tok₂, hn₂⟩ := scanUint_eq_some ht
  obtain ⟨hlt', tok₃, hn₃⟩ := scanUint_eq_some hq
  exact ⟨hlt, hlt', s₁, s₂, s₃, tok₁, tok₂, tok₃, rest, rfl, hn₁, hn₂, hn₃⟩

theorem decode_eq_ok {phc : String} {p : Params} {salt tag : List UInt8} (h : decode phc = .ok (p, salt, tag)) :
    ∃ version params saltText tagText memory time parallelism,
      phc.toList.splitOn '$' = [[], "argon2id".toList, version, params, saltText, tagText] ∧
        scanParams params = some (memory, time, parallelism) ∧ Base64.decode tagText = some tag ∧
        p.time = .ofNat time ∧ p.parallelism = .ofNat parallelism ∧ p.keyLen = .ofNat tag.length := by
  rw [decode] at h
  split at h
  · rename_i empty name version params saltText tagText hfields
    split_ifs at h with hname
    rw [not_or, not_not, not_not] at hname
    obtain ⟨rfl, rfl⟩ := hname
    split at h
    · cases h
    · split_ifs at h
      split at h
      · cases h
      · rename_i hparams
        split at h
        · cases h
        · split at h
          · cases h
          · rename_i htag
            cases h
            exact ⟨version, params, saltText, tagText, _, _, _, hfields, hparams, htag, rfl, rfl, rfl⟩
  · cases h

/-- What follows the first place where `key` stands. -/
def behind (key : List Char) : List Char → List Char
  | [] => []
  | c :: s => if key.isPrefixOf (c :: s) then (c :: s).drop key.length else behind key s

/-- The digits behind `key` and blanks. -/
def digitsBehind (key s : List Char) : List Char := ((behind key s).dropWhile isSpace).takeWhile isDigit

theorem behind_append {k : Char} {key pre s : List Char} (h : ∀ c ∈ pre, c ≠ k) :
    behind (k :: key) (pre ++ s) = behind (k :: key) s := by
  induction pre with
  | nil => rfl
  | cons c pre ih =>
    have hc : c ≠ k := h c List.mem_cons_self
    have hnot : ¬ (k :: key).isPrefixOf (c :: (pre ++ s)) = true := by
      rw [List.isPrefixOf_cons_cons, Bool.and_eq_true, beq_iff_eq]
      exact fun hstarts => hc hstarts.1.symm
    rw [List.cons_append, behind, if_neg hnot]
    exact ih fun d hd => h d (List.mem_cons_of_mem c hd)

theorem behind_self (k : Char) (key s : List Char) : behind (k :: key) ((k :: key) ++ s) = s := by
  rw [List.cons_append, behind, ← List.cons_append, if_pos (List.isPrefixOf_iff_prefix.mpr (List.prefix_append _ _)),
    List.drop_left]

/-- What the string has to hold for `IDKey`: digits of `t` and `p` that are not all zero, and a tag whose length is
not zero in 32 bits. -/
structure Usable (phc : String) : Prop where
  time : ∃ c ∈ digitsBehind ",t=".toList ((phc.toList.splitOn '$').getD 3 []), c ≠ '0'
  parallelism : ∃ c ∈ digitsBehind ",p=".toList ((phc.toList.splitOn '$').getD 3 []), c ≠ '0'
  tag : 3 * (((phc.toList.splitOn '$').getD 5 []).filter fun c => !Base64.isLineBreak c).length / 4 % 2 ^ 32 ≠ 0

/-- What is relied on of `argon2.IDKey`: it panics on no passes and on no threads, and otherwise derives as many bytes
as it is asked for. Nothing is said about a key of no bytes. -/
structure Argon2 (idKey : IDKey) : Prop where
  noPass : ∀ password salt memory threads keyLen, idKey password salt 0 memory threads keyLen = none
  noThread : ∀ password salt time memory keyLen, idKey password salt time memory 0 keyLen = none
  derives : ∀ password salt time memory threads keyLen, 1 ≤ time → 1 ≤ threads → 1 ≤ keyLen →
    ∃ key, idKey password salt time memory threads keyLen = some key ∧ key.length = keyLen.toNat

/-- A decoded string does no harm: its parameters are usable, its tag is not empty, and `Verify` neither panics nor
accepts an empty tag. -/
structure Harmless (phc : String) (p : Params) (tag : List UInt8) : Prop where
  time : 1 ≤ p.time
  parallelism : 1 ≤ p.parallelism
  tagLength : 1 ≤ tag.length
  verify : ∀ idKey, Argon2 idKey → ∀ password, verify idKey phc password ≠ none ∧
    (tag = [] → verify idKey phc password ≠ some (.ok true))

/-- An `IDKey` that also panics on a key of no bytes. -/
def strictIDKey : IDKey := fun _ _ time _ threads keyLen =>
  if time = 0 ∨ threads = 0 ∨ keyLen = 0 then none else some (List.replicate keyLen.toNat 0)

theorem argon2_strictIDKey : Argon2 strictIDKey := by
  refine ⟨fun _ _ _ _ _ => rfl, fun _ _ time _ _ => ?_, fun _ _ time _ threads keyLen ht hp hk => ?_⟩
  · exact if_pos (Or.inr (Or.inl rfl))
  · have hpos : ¬ (time = 0 ∨ threads = 0 ∨ keyLen = 0) := by
      rintro (rfl | rfl | rfl)
      · exact absurd ht (by decide)
      · exact absurd hp (by decide)
      · exact absurd hk (by decide)
    exact ⟨_, if_neg hpos, List.length_replicate⟩

theorem one_le_ofNat32 {n : Nat} : 1 ≤ UInt32.ofNat n ↔ n % 2 ^ 32 ≠ 0 := by
  rw [UInt32.le_iff_toNat_le, UInt32.toNat_ofNat']
  exact Nat.one_le_iff_ne_zero

theorem one_le_ofNat8 {n : Nat} : 1 ≤ UInt8.ofNat n ↔ n % 2 ^ 8 ≠ 0 := by
  rw [UInt8.le_iff_toNat_le, UInt8.toNat_ofNat']
  exact Nat.one_le_iff_ne_zero

/-- The condition on the text, in the numbers that are read. -/
theorem usable_iff {phc : String} {version params saltText tagText : List Char} {memory time parallelism : Nat}
    {tag : List UInt8}
    (hfields : phc.toList.splitOn '$' = [[], "argon2id".toList, version, params, saltText, tagText])
    (hparams : scanParams params = some (memory, time, parallelism)) (htag : Base64.decode tagText = some tag) :
    Usable phc ↔ time ≠ 0 ∧ parallelism ≠ 0 ∧ tag.length % 2 ^ 32 ≠ 0 := by
  obtain ⟨-, -, s₁, s₂, s₃, tok₁, tok₂, tok₃, rest, rfl, hn₁, hn₂, hn₃⟩ := scanParams_eq_some hparams
  obtain ⟨pre₁, hs₁, hpre₁⟩ : ∃ pre, s₁ = pre ++ (",t=".toList ++ s₂) ∧ ∀ c ∈ pre, c ≠ ',' := hn₁.exists_before rfl rfl
  obtain ⟨pre₂, hs₂, hpre₂⟩ : ∃ pre, s₂ = pre ++ (",p=".toList ++ s₃) ∧ ∀ c ∈ pre, c ≠ ',' := hn₂.exists_before rfl rfl
  have hm : ∀ c ∈ "m=".toList, c ≠ ',' := List.all_iff_forall_prop.mp (by decide)
  have ht : ∀ c ∈ "t=".toList, c ≠ ',' := List.all_iff_forall_prop.mp (by decide)
  have htime : digitsBehind ",t=".toList ("m=".toList ++ s₁) = tok₂ := by
    have hbehind : behind ",t=".toList ("m=".toList ++ s₁) = s₂ := by
      rw [hs₁]
      exact (behind_append hm).trans ((behind_append hpre₁).trans (behind_self _ _ _))
    rw [digitsBehind, hbehind, hn₂.takeWhile_eq]
  have hparallelism : digitsBehind ",p=".toList ("m=".toList ++ s₁) = tok₃ := by
    have hbehind : behind ",p=".toList ("m=".toList ++ s₁) = s₃ := by
      have hskip : behind ",p=".toList (",t=".toList ++ s₂) = behind ",p=".toList ("t=".toList ++ s₂) := rfl
      have hrest : behind ",p=".toList ("t=".toList ++ s₂) = s₃ := by
        rw [hs₂]
        exact (behind_append ht).trans ((behind_append hpre₂).trans (behind_self _ _ _))
      rw [hs₁]
      exact (behind_append hm).trans ((behind_append hpre₁).trans (hskip.trans hrest))
    rw [digitsBehind, hbehind, hn₃.takeWhile_eq]
  have hlength := Base64.length_decode htag
  constructor
  · intro h
    have h1 := h.time
    have h2 := h.parallelism
    have h3 := h.tag
    rw [hfields] at h1 h2 h3
    simp only [List.getD_cons_succ, List.getD_cons_zero, htime, hparallelism] at h1 h2 h3
    exact ⟨hn₂.ne_zero_iff.mpr h1, hn₃.ne_zero_iff.mpr h2, hlength ▸ h3⟩
  · rintro ⟨h1, h2, h3⟩
    refine ⟨?_, ?_, ?_⟩ <;> rw [hfields] <;> simp only [List.getD_cons_succ, List.getD_cons_zero, htime, hparallelism]
    · exact hn₂.ne_zero_iff.mp h1
    · exact hn₃.ne_zero_iff.mp h2
    · exact hlength ▸ h3

/-- A string that `Decode` accepts does no harm exactly if its text is usable. -/
theorem harmless_iff {phc : String} {p : Params} {salt tag : List UInt8} (h : decode phc = .ok (p, salt, tag)) :
    Harmless phc p tag ↔ Usable phc := by
  obtain ⟨version, params, saltText, tagText, memory, time, parallelism, hfields, hparams, htag, hptime, hpparallelism,
    hpkeyLen⟩ := decode_eq_ok h
  obtain ⟨htlt, hplt, -⟩ := scanParams_eq_some hparams
  rw [usable_iff hfields hparams htag]
  have htime : 1 ≤ p.time ↔ time ≠ 0 := by rw [hptime, one_le_ofNat32, Nat.mod_eq_of_lt htlt]
  have hparallelism : 1 ≤ p.parallelism ↔ parallelism ≠ 0 := by rw [hpparallelism, one_le_ofNat8, Nat.mod_eq_of_lt hplt]
  have hkeyLen : 1 ≤ p.keyLen ↔ tag.length % 2 ^ 32 ≠ 0 := by rw [hpkeyLen, one_le_ofNat32]
  have hverify : ∀ idKey password, verify idKey phc password =
      (idKey password salt p.time p.memory p.parallelism p.keyLen).map fun got => .ok (got == tag) := by
    intro idKey password
    rw [verify, h]
  constructor
  · intro hharmless
    refine ⟨htime.mp hharmless.time, hparallelism.mp hharmless.parallelism, hkeyLen.mp ?_⟩
    by_contra hzero
    have hnone := (hharmless.verify strictIDKey argon2_strictIDKey []).1
    have hkey : p.keyLen = 0 := by
      rw [UInt32.le_iff_toNat_le] at hzero
      apply UInt32.toNat_inj.mp
      have hone : (1 : UInt32).toNat = 1 := rfl
      have hzero' : (0 : UInt32).toNat = 0 := rfl
      omega
    rw [hverify, hkey] at hnone
    have hpanic : strictIDKey [] salt p.time p.memory p.parallelism 0 = none := if_pos (Or.inr (Or.inr rfl))
    rw [hpanic] at hnone
    exact hnone rfl
  · rintro ⟨h1, h2, h3⟩
    have hlength : 1 ≤ tag.length := by
      by_contra hempty
      have hzero : tag.length = 0 := by omega
      rw [hzero] at h3
      exact h3 rfl
    refine ⟨htime.mpr h1, hparallelism.mpr h2, hlength, fun idKey hargon2 password => ⟨?_, ?_⟩⟩
    · obtain ⟨key, hkey, -⟩ := hargon2.derives password salt p.time p.memory p.parallelism p.keyLen (htime.mpr h1)
        (hparallelism.mpr h2) (hkeyLen.mpr h3)
      rw [hverify, hkey]
      exact Option.some_ne_none _
    · rintro rfl
      exact absurd hlength (by decide)

theorem harmless_iff_sample :
    ∃ p salt tag, decode "$argon2id$v=19$m=8,t=1,p=1$c2FsdA$aGFzaA" = .ok (p, salt, tag) ∧
      Harmless "$argon2id$v=19$m=8,t=1,p=1$c2FsdA$aGFzaA" p tag :=
  ⟨_, _, _, rfl, (harmless_iff rfl).mpr ⟨⟨'1', by decide, by decide⟩, ⟨'1', by decide, by decide⟩, by decide⟩⟩

/-- Zero passes and zero threads panic, and a tag can be empty. -/
theorem decode_accepts_harmful :
    (∃ p salt tag, decode "$argon2id$v=19$m=8,t=0,p=0$c2FsdA$aGFzaA" = .ok (p, salt, tag) ∧
      p.time = 0 ∧ p.parallelism = 0 ∧ ∀ idKey, Argon2 idKey → ∀ password,
        verify idKey "$argon2id$v=19$m=8,t=0,p=0$c2FsdA$aGFzaA" password = none) ∧
    ∃ p salt, decode "$argon2id$v=19$m=8,t=1,p=1$c2FsdA$" = .ok (p, salt, []) := by
  refine ⟨⟨_, _, _, rfl, rfl, rfl, fun idKey hargon2 password => ?_⟩, _, _, rfl⟩
  have hdecode : ∃ p, decode "$argon2id$v=19$m=8,t=0,p=0$c2FsdA$aGFzaA" = .ok p ∧ p.1.time = 0 := ⟨_, rfl, rfl⟩
  obtain ⟨⟨p, salt, tag⟩, hp, htime⟩ := hdecode
  rw [verify, hp]
  simp only at htime ⊢
  rw [htime, hargon2.noPass]
  rfl

end Vizra.Credential
