import Vizra.Search.Hmac

/-!
# What a signature binds

Every validator has one equivalence, and `verify_ok_iff` composes them: what `Verify` accepts is a
conjunction in which the clock occurs only in the window. The signed text is read from both ends, because the
path may hold newlines: the method ends at the first one, the last three fields hold none.
-/

namespace Vizra.Search

open Go

/-! ## The validators -/

theorem refuse_if {α : Type} {c : Prop} [Decidable c] {err : SignatureError} {k : Except SignatureError α}
    {a : α} : (if c then .error err else k) = .ok a ↔ ¬ c ∧ k = .ok a := by
  by_cases h : c <;> simp [h]

theorem not_any_iff {p : UInt8 → Bool} {bs : Bytes} : ¬ bs.any p = true ↔ ∀ b ∈ bs, p b = false := by
  simp

theorem validateMethod_ok_iff {method : Bytes} :
    validateMethod method = .ok () ↔ method ≠ [] ∧ ∀ b ∈ method, 0x41 ≤ b ∧ b ≤ 0x5A := by
  have hin (b : UInt8) : (b < 0x41 || 0x5A < b) = false ↔ 0x41 ≤ b ∧ b ≤ 0x5A := by
    simp [UInt8.not_lt]
  unfold validateMethod
  rw [refuse_if, refuse_if, not_any_iff, List.isEmpty_iff]
  simp only [hin, and_true]

theorem validateNonce_ok_iff {nonce : Bytes} :
    validateNonce nonce = .ok () ↔
      (32 ≤ nonce.length ∧ nonce.length % 2 = 0 ∧ nonce.length ≤ 128) ∧ ∀ b ∈ nonce, isLowerHex b = true := by
  have hlen : ¬ (nonce.length < 32 ∨ nonce.length % 2 ≠ 0 ∨ 128 < nonce.length) ↔
      32 ≤ nonce.length ∧ nonce.length % 2 = 0 ∧ nonce.length ≤ 128 := by omega
  unfold validateNonce
  rw [refuse_if, refuse_if, not_any_iff, hlen]
  simp only [Bool.not_eq_false', and_true]

theorem withinWindow_iff {secs : Int} {now : Instant} :
    withinWindow secs now = true ↔ (minTimestamp ≤ secs ∧ secs ≤ maxTimestamp) ∧
      (minTimestamp ≤ unix now ∧ unix now ≤ maxTimestamp) ∧
      unix now - secs ≤ 300 ∧ secs - unix now ≤ 300 := by
  have hskew : maxClockSkew / second = 300 := by decide
  unfold withinWindow
  rw [hskew]
  generalize unix now = u
  split
  · simp; omega
  · split
    · simp; omega
    · simp only [decide_eq_true_iff]
      split <;> omega

/-! ## The timestamp -/

theorem formatInt_of_pos {n : Int} (h : 0 < n) :
    formatInt n = (Nat.digits 10 n.natAbs).reverse.map decimalDigit := by
  unfold formatInt
  rw [if_neg (by omega), if_neg (by omega)]

theorem decimalValue_formatInt {n : Int} (h : 0 < n) : (decimalValue (formatInt n) : Int) = n := by
  rw [formatInt_of_pos h, decimalValue_digits]
  omega

theorem isDecimal_of_mem_formatInt {n : Int} (h : 0 < n) : ∀ b ∈ formatInt n, isDecimal b = true := by
  rw [formatInt_of_pos h]
  intro b hb
  obtain ⟨d, hd, rfl⟩ := List.mem_map.mp hb
  exact isDecimal_decimalDigit (Nat.digits_lt_base (by decide) (List.mem_reverse.mp hd))

/-- A positive number starts with a digit other than zero. -/
theorem formatInt_eq_cons {n : Int} (h : 0 < n) :
    ∃ first rest, formatInt n = first :: rest ∧ 0x31 ≤ first ∧ first ≤ 0x39 := by
  have hne : n.natAbs ≠ 0 := by omega
  have hnil : Nat.digits 10 n.natAbs ≠ [] := Nat.digits_ne_nil_iff_ne_zero.mpr hne
  have hlast := Nat.getLast_digit_ne_zero 10 hne
  have hlt : (Nat.digits 10 n.natAbs).getLast hnil < 10 :=
    Nat.digits_lt_base (by decide) (List.getLast_mem hnil)
  have hnat := toNat_decimalDigit hlt
  refine ⟨decimalDigit ((Nat.digits 10 n.natAbs).getLast hnil),
    (Nat.digits 10 n.natAbs).dropLast.reverse.map decimalDigit, ?_, ?_, ?_⟩
  · rw [formatInt_of_pos h]
    nth_rewrite 1 [← List.dropLast_append_getLast hnil]
    rw [List.reverse_append, List.reverse_singleton, List.singleton_append, List.map_cons]
  · rw [UInt8.le_iff_toNat_le, hnat]
    have hone : (0x31 : UInt8).toNat = 49 := rfl
    omega
  · rw [UInt8.le_iff_toNat_le, hnat]
    have hnine : (0x39 : UInt8).toNat = 57 := rfl
    omega

theorem formatInt_inj {n m : Int} (hm : 0 < m) (h : formatInt n = formatInt m) : n = m := by
  have hval := decimalValue_formatInt hm
  obtain ⟨first, rest, hcons, hfirst, -⟩ := formatInt_eq_cons hm
  rcases Int.lt_trichotomy n 0 with hn | rfl | hn
  · have hminus : formatInt n = 0x2D :: (Nat.digits 10 n.natAbs).reverse.map decimalDigit := if_pos hn
    rw [hminus, hcons] at h
    cases h
    exact absurd hfirst (by decide)
  · have hzero : formatInt 0 = [0x30] := rfl
    rw [hzero, hcons] at h
    cases h
    exact absurd hfirst (by decide)
  · rw [← h, decimalValue_formatInt hn] at hval
    exact hval

theorem length_formatInt {n : Int} (h : 0 < n) (hmax : n ≤ maxTimestamp) : (formatInt n).length ≤ 10 := by
  rw [formatInt_of_pos h, List.length_map, List.length_reverse, Nat.digits_length_le_iff (by decide)]
  unfold maxTimestamp at hmax
  omega

theorem validateTimestamp_cons {first : UInt8} {rest : Bytes} {n : Int} :
    validateTimestamp (first :: rest) = .ok n ↔ (0x31 ≤ first ∧ first ≤ 0x39) ∧
      (∀ b ∈ first :: rest, isDecimal b = true) ∧ (first :: rest).length ≤ 19 ∧
      parseDecimal (first :: rest) = some n ∧ minTimestamp ≤ n ∧ n ≤ maxTimestamp := by
  have hfirst : ¬ (first < 0x31 || 0x39 < first) = true ↔ 0x31 ≤ first ∧ first ≤ 0x39 := by
    simp [UInt8.not_lt]
  unfold validateTimestamp
  rw [refuse_if, refuse_if, refuse_if, hfirst, not_any_iff, Nat.not_lt]
  simp only [Bool.not_eq_false']
  refine and_congr_right fun _ => and_congr_right fun _ => and_congr_right fun _ => ?_
  cases parseDecimal (first :: rest) with
  | none => simp
  | some secs =>
    simp only [refuse_if]
    constructor
    · rintro ⟨hrange, hok⟩
      cases hok
      exact ⟨rfl, by omega, by omega⟩
    · rintro ⟨hsome, hrange⟩
      cases hsome
      exact ⟨by omega, rfl⟩

/-- The accepted timestamps are the canonical decimal forms of the accepted range. -/
theorem validateTimestamp_ok_iff {raw : Bytes} {n : Int} :
    validateTimestamp raw = .ok n ↔ raw = formatInt n ∧ minTimestamp ≤ n ∧ n ≤ maxTimestamp := by
  constructor
  · intro h
    cases raw with
    | nil => cases h
    | cons first rest =>
      obtain ⟨hfirst, hdec, -, hparse, hrange⟩ := validateTimestamp_cons.mp h
      have hval : (decimalValue (first :: rest) : Int) = n := by
        unfold parseDecimal at hparse
        split at hparse
        · exact Option.some.inj hparse
        · cases hparse
      have hzero : first ≠ 0x30 := by
        rintro rfl
        exact absurd hfirst.1 (by decide)
      have hpos : 0 < n := by
        unfold minTimestamp at hrange
        omega
      have hback := digits_decimalValue hdec (List.cons_ne_nil _ _) hzero
      refine ⟨?_, hrange⟩
      rw [formatInt_of_pos hpos, ← hval, Int.natAbs_natCast]
      exact hback.symm
  · rintro ⟨rfl, hmin, hmax⟩
    have hpos : 0 < n := by
      unfold minTimestamp at hmin
      omega
    have hdec := isDecimal_of_mem_formatInt hpos
    have hlen : (formatInt n).length ≤ 19 := (length_formatInt hpos hmax).trans (by decide)
    have hparse : parseDecimal (formatInt n) = some n := by
      have hval := decimalValue_formatInt hpos
      unfold parseDecimal
      have hlt : decimalValue (formatInt n) < 2 ^ 63 := by
        unfold maxTimestamp at hmax
        omega
      rw [if_pos hlt, hval]
    obtain ⟨first, rest, hcons, hfirst⟩ := formatInt_eq_cons hpos
    rw [hcons] at hdec hlen hparse ⊢
    exact validateTimestamp_cons.mpr ⟨hfirst, hdec, hlen, hparse, hmin, hmax⟩

/-- A decimal number without a sign and without a leading zero. -/
def IsCanonicalDecimal (raw : Bytes) (n : Int) : Prop :=
  (∀ b ∈ raw, isDecimal b = true) ∧ (∃ first rest, raw = first :: rest ∧ first ≠ 0x30) ∧ (decimalValue raw : Int) = n

theorem isCanonicalDecimal_iff {raw : Bytes} {n : Int} (h : 0 < n) : IsCanonicalDecimal raw n ↔ raw = formatInt n := by
  constructor
  · rintro ⟨hdec, ⟨first, rest, rfl, hzero⟩, hval⟩
    have hback := digits_decimalValue hdec (List.cons_ne_nil _ _) hzero
    rw [formatInt_of_pos h, ← hval, Int.natAbs_natCast]
    exact hback.symm
  · rintro rfl
    obtain ⟨first, rest, hcons, hfirst, -⟩ := formatInt_eq_cons h
    refine ⟨isDecimal_of_mem_formatInt h, ⟨first, rest, hcons, ?_⟩, decimalValue_formatInt h⟩
    rintro rfl
    exact absurd hfirst (by decide)

theorem length_of_validateTimestamp {raw : Bytes} {n : Int} (h : validateTimestamp raw = .ok n) : raw.length ≤ 10 := by
  obtain ⟨rfl, hmin, hmax⟩ := validateTimestamp_ok_iff.mp h
  have hpos : 0 < n := by
    unfold minTimestamp at hmin
    omega
  exact length_formatInt hpos hmax

/-- The header's language: the decimal forms of the accepted range, each of one instant, and none of 19 digits. -/
theorem validateTimestamp_language (raw : Bytes) (n : Int) :
    (validateTimestamp raw = .ok n ↔ IsCanonicalDecimal raw n ∧ minTimestamp ≤ n ∧ n ≤ maxTimestamp) ∧
      (validateTimestamp raw = .ok n ↔ raw = formatInt n ∧ minTimestamp ≤ n ∧ n ≤ maxTimestamp) ∧
      (∀ raw', validateTimestamp raw = .ok n → validateTimestamp raw' = .ok n → raw = raw') ∧
      (19 ≤ raw.length → validateTimestamp raw ≠ .ok n) := by
  refine ⟨?_, validateTimestamp_ok_iff, ?_, ?_⟩
  · rw [validateTimestamp_ok_iff]
    refine and_congr_left ?_
    rintro ⟨hmin, -⟩
    have hpos : 0 < n := by
      unfold minTimestamp at hmin
      omega
    exact (isCanonicalDecimal_iff hpos).symm
  · intro raw' h h'
    rw [(validateTimestamp_ok_iff.mp h).1, (validateTimestamp_ok_iff.mp h').1]
  · intro hlong h
    have hshort := length_of_validateTimestamp h
    omega

/-! ## The signed text -/

theorem newline_notMem_method {method : Bytes} (h : validateMethod method = .ok ()) : newline ∉ method := by
  intro hmem
  exact absurd ((validateMethod_ok_iff.mp h).2 _ hmem).1 (by decide)

theorem newline_notMem_hex {bs : Bytes} (h : ∀ b ∈ bs, isLowerHex b = true) : newline ∉ bs := by
  intro hmem
  exact absurd (h _ hmem) (by decide)

theorem newline_notMem_timestamp {raw : Bytes} {n : Int} (h : validateTimestamp raw = .ok n) :
    newline ∉ raw := by
  cases raw with
  | nil => exact List.not_mem_nil
  | cons first rest =>
    intro hmem
    exact absurd ((validateTimestamp_cons.mp h).2.1 _ hmem) (by decide)

/-- Two requests with valid outer fields and any paths are signed as the same bytes only if they are the
same. -/
theorem canonicalString_injective (method method' path path' timestamp timestamp' nonce nonce' hash hash' : Bytes)
    (secs secs' : Int) (hm : validateMethod method = .ok ()) (hm' : validateMethod method' = .ok ())
    (ht : validateTimestamp timestamp = .ok secs) (ht' : validateTimestamp timestamp' = .ok secs')
    (hn : validateNonce nonce = .ok ()) (hn' : validateNonce nonce' = .ok ())
    (hh : hash.length = 64 ∧ ∀ b ∈ hash, isLowerHex b = true)
    (hh' : hash'.length = 64 ∧ ∀ b ∈ hash', isLowerHex b = true)
    (h : canonicalString method path timestamp nonce hash =
      canonicalString method' path' timestamp' nonce' hash') :
    method = method' ∧ path = path' ∧ timestamp = timestamp' ∧ nonce = nonce' ∧ hash = hash' := by
  have hrest := List.tail_eq_of_cons_eq (List.append_cancel_left h)
  obtain ⟨hmethod, hrest⟩ := append_cons_inj_left (newline_notMem_method hm) (newline_notMem_method hm') hrest
  -- the path may hold newlines, so the other fields are taken from the right
  have hassoc (p t n b : Bytes) : p ++ newline :: (t ++ newline :: (n ++ newline :: b)) =
      ((p ++ newline :: t) ++ newline :: n) ++ newline :: b := by simp
  rw [hassoc, hassoc] at hrest
  obtain ⟨hrest, hhash⟩ := append_cons_inj_right (newline_notMem_hex hh.2) (newline_notMem_hex hh'.2) hrest
  have hnonce := newline_notMem_hex (validateNonce_ok_iff.mp hn).2
  have hnonce' := newline_notMem_hex (validateNonce_ok_iff.mp hn').2
  obtain ⟨hrest, hnonce⟩ := append_cons_inj_right hnonce hnonce' hrest
  obtain ⟨hpath, htime⟩ := append_cons_inj_right (newline_notMem_timestamp ht) (newline_notMem_timestamp ht') hrest
  exact ⟨hmethod, hpath, htime, hnonce, hhash⟩

/-- A path with a newline in it. -/
theorem canonicalString_injective_newline : [0x61, newline, 0x62] = [0x61, newline, 0x62] :=
  (canonicalString_injective (ascii "GET") (ascii "GET") [0x61, newline, 0x62] [0x61, newline, 0x62]
    (ascii "1500000000") (ascii "1500000000") (List.replicate 32 0x30) (List.replicate 32 0x30)
    (List.replicate 64 0x30) (List.replicate 64 0x30) 1500000000 1500000000 (by decide) (by decide) (by decide)
    (by decide) (by decide) (by decide) (by decide +kernel) (by decide +kernel) rfl).2.1

/-! ## Verifying -/

section

variable {sha256 : Bytes → Vector UInt8 32} {hmac : Bytes → Bytes → Vector UInt8 32}
  {key method path timestamp nonce body sig : Bytes} {header : Header} {now : Instant}

theorem sign_ok_iff : sign sha256 hmac key method path timestamp nonce body = .ok sig ↔
    minKeyBytes ≤ key.length ∧ validateMethod method = .ok () ∧
      sig = signatureVersion ++ ascii "=" ++
        hexEncode (hmac key (canonicalString method path timestamp nonce (bodyHash sha256 body))).toList := by
  unfold sign
  rw [refuse_if, Nat.not_lt]
  refine and_congr_right fun _ => ?_
  cases validateMethod method with
  | error err => simp
  | ok u => simp [eq_comm]

theorem get_of_values {name : String} {value : Bytes} (h : header.values name = [value]) :
    header.get name = value := by
  unfold Header.get
  unfold Header.values at h
  rw [h]
  rfl

theorem values_of_length {name : String} (h : (header.values name).length = 1) :
    header.values name = [header.get name] := by
  obtain ⟨value, hvalue⟩ := List.length_eq_one_iff.mp h
  rw [hvalue, get_of_values hvalue]

/-- What `Verify` accepts; the clock occurs in the window only. -/
theorem verify_ok_iff : verify sha256 hmac key method path header body now = .ok () ↔
    ∃ ts nonce sig secs, header.values headerTimestamp = [ts] ∧ header.values headerNonce = [nonce] ∧
      header.values headerSignature = [sig] ∧ validateNonce nonce = .ok () ∧ validateTimestamp ts = .ok secs ∧
      withinWindow secs now = true ∧ sign sha256 hmac key method path ts nonce body = .ok sig := by
  constructor
  · intro h
    unfold verify at h
    rw [refuse_if] at h
    obtain ⟨-, h⟩ := h
    cases hm : validateMethod method with
    | error err => simp [hm] at h
    | ok u =>
      simp only [hm, refuse_if] at h
      obtain ⟨-, hlen, h⟩ := h
      cases hn : validateNonce (header.get headerNonce) with
      | error err => simp [hn] at h
      | ok u =>
        simp only [hn, refuse_if] at h
        obtain ⟨-, h⟩ := h
        cases ht : validateTimestamp (header.get headerTimestamp) with
        | error err => simp [ht] at h
        | ok secs =>
          simp only [ht, refuse_if, not_not] at h
          obtain ⟨hwin, h⟩ := h
          have hsign : sign sha256 hmac key method path (header.get headerTimestamp) (header.get headerNonce)
              body = .ok (header.get headerSignature) := by
            cases hs : sign sha256 hmac key method path (header.get headerTimestamp) (header.get headerNonce)
                body with
            | error err => simp [hs] at h
            | ok want =>
              simp only [hs] at h
              by_cases hwant : want = header.get headerSignature
              · rw [hwant]
              · simp [hwant] at h
          simp only [ne_eq, not_or, not_not] at hlen
          exact ⟨_, _, _, secs, values_of_length hlen.1, values_of_length hlen.2.1,
            values_of_length hlen.2.2, hn, ht, hwin, hsign⟩
  · rintro ⟨ts, nonce, sig, secs, hts, hnonce, hsig, hn, ht, hwin, hsign⟩
    obtain ⟨hkey, hm, hbytes⟩ := sign_ok_iff.mp hsign
    have htsne : ts ≠ [] := by
      rintro rfl
      cases ht
    have hnonce0 : nonce ≠ [] := by
      rintro rfl
      cases hn
    have hpre : (signatureVersion ++ ascii "=").isPrefixOf sig = true := by
      rw [hbytes]
      exact List.isPrefixOf_iff_prefix.mpr (List.prefix_append _ _)
    have hsigne : sig ≠ [] := by
      rintro rfl
      cases hpre
    unfold verify
    rw [if_neg (Nat.not_lt.mpr hkey), hm]
    simp only [get_of_values hts, get_of_values hnonce, get_of_values hsig, hts, hnonce, hsig, htsne, hnonce0,
      hsigne, hn, ht, hsign, hpre, hwin]
    simp

theorem set_values_self (header : Header) (name : String) (value : Bytes) :
    (header.set name value).values name = [value] := by
  simp [Header.set, Header.values]

theorem set_values_ne {name other : String} (h : other ≠ name) (value : Bytes) :
    (header.set name value).values other = header.values other := by
  simp [Header.set, Header.values, h]

theorem newNonce_valid (b : Vector UInt8 16) : validateNonce (hexEncode b.toList) = .ok () := by
  have hlen : (hexEncode b.toList).length = 32 := by simp [length_hexEncode]
  exact validateNonce_ok_iff.mpr ⟨by omega, isLowerHex_hexEncode⟩

/-- The three headers that a signed request carries. -/
theorem signRequest_ok (now : Instant) (b : Vector UInt8 16) {req : Request} (hkey : minKeyBytes ≤ key.length)
    (hm : validateMethod req.method = .ok ()) :
    ∃ signed sig, signRequest sha256 hmac req key body now (.ok b) = .ok signed ∧
      signed.header.values headerTimestamp = [formatInt (unix now)] ∧
      signed.header.values headerNonce = [hexEncode b.toList] ∧
      signed.header.values headerSignature = [sig] ∧
      sign sha256 hmac key req.method req.escapedPath (formatInt (unix now)) (hexEncode b.toList) body =
        .ok sig := by
  obtain ⟨sig, hsig⟩ : ∃ sig, sign sha256 hmac key req.method req.escapedPath (formatInt (unix now))
      (hexEncode b.toList) body = .ok sig := ⟨_, sign_ok_iff.mpr ⟨hkey, hm, rfl⟩⟩
  let header := ((req.header.set headerTimestamp (formatInt (unix now))).set headerNonce
    (hexEncode b.toList)).set headerSignature sig
  refine ⟨{ req with header := header }, sig, ?_, ?_, ?_, ?_, hsig⟩
  · simp only [signRequest, newNonce, hsig]
    rfl
  · rw [set_values_ne (by decide), set_values_ne (by decide), set_values_self]
  · rw [set_values_ne (by decide), set_values_self]
  · rw [set_values_self]

theorem secs_of_verify {header : Header} {ts : Bytes} (hts : header.values headerTimestamp = [ts])
    (h : verify sha256 hmac key method path header body now = .ok ()) :
    ∃ secs, validateTimestamp ts = .ok secs ∧ withinWindow secs now = true := by
  obtain ⟨ts', -, -, secs, hts', -, -, -, ht, hwin, -⟩ := verify_ok_iff.mp h
  rw [hts] at hts'
  cases hts'
  exact ⟨secs, ht, hwin⟩

/-- One set of headers is accepted within a range of 600 whole seconds only. -/
theorem unix_le_of_verify {sha256' : Bytes → Vector UInt8 32} {hmac' : Bytes → Bytes → Vector UInt8 32}
    {key' method' path' body' : Bytes} {now' : Instant}
    (h : verify sha256 hmac key method path header body now = .ok ())
    (h' : verify sha256' hmac' key' method' path' header body' now' = .ok ()) :
    unix now' - unix now ≤ 600 := by
  obtain ⟨ts, -, -, -, hts, -⟩ := verify_ok_iff.mp h
  obtain ⟨secs, ht, hwin⟩ := secs_of_verify hts h
  obtain ⟨secs', ht', hwin'⟩ := secs_of_verify hts h'
  rw [ht] at ht'
  cases ht'
  obtain ⟨-, -, hlow, -⟩ := withinWindow_iff.mp hwin'
  obtain ⟨-, -, -, hhigh⟩ := withinWindow_iff.mp hwin
  omega

theorem sign_of_verify {ts nonce sig : Bytes} (hts : header.get headerTimestamp = ts)
    (hnonce : header.get headerNonce = nonce) (hsig : header.get headerSignature = sig)
    (h : verify sha256 hmac key method path header body now = .ok ()) :
    sign sha256 hmac key method path ts nonce body = .ok sig := by
  obtain ⟨ts', nonce', sig', -, hts', hnonce', hsig', -, -, -, hsign⟩ := verify_ok_iff.mp h
  rw [get_of_values hts'] at hts
  rw [get_of_values hnonce'] at hnonce
  rw [get_of_values hsig'] at hsig
  subst hts hnonce hsig
  exact hsign

end

/-- A request signed at `now` is accepted at `now'` exactly within the window; one set of headers is accepted
at two times only if their Unix times are at most 600 seconds apart; and for one key, request, timestamp and
nonce one signature is accepted. -/
theorem signed_requests (sha256 : Bytes → Vector UInt8 32) (hmac : Bytes → Bytes → Vector UInt8 32) :
    (∀ (req : Request) (key body : Bytes) (now now' : Instant) (b : Vector UInt8 16),
      minKeyBytes ≤ key.length → validateMethod req.method = .ok () →
      ∃ signed, signRequest sha256 hmac req key body now (.ok b) = .ok signed ∧
        (verify sha256 hmac key req.method req.escapedPath signed.header body now' = .ok () ↔
          (minTimestamp ≤ unix now ∧ unix now ≤ maxTimestamp) ∧
          (minTimestamp ≤ unix now' ∧ unix now' ≤ maxTimestamp) ∧ |unix now' - unix now| ≤ 300)) ∧
    (∀ (key method path body key' method' path' body' : Bytes) (header : Header) (now now' : Instant),
      verify sha256 hmac key method path header body now = .ok () →
      verify sha256 hmac key' method' path' header body' now' = .ok () → |unix now' - unix now| ≤ 600) ∧
    ∀ (key method path body : Bytes) (header header' : Header) (now now' : Instant),
      header.get headerTimestamp = header'.get headerTimestamp →
      header.get headerNonce = header'.get headerNonce →
      verify sha256 hmac key method path header body now = .ok () →
      verify sha256 hmac key method path header' body now' = .ok () →
      header.get headerSignature = header'.get headerSignature := by
  refine ⟨?_, ?_, ?_⟩
  · intro req key body now now' b hkey hm
    obtain ⟨signed, sig, hsigned, hts, hnonce, hsig, hsign⟩ := signRequest_ok now b hkey hm
    refine ⟨signed, hsigned, ?_⟩
    rw [abs_le]
    constructor
    · intro h
      obtain ⟨secs, ht, hwin⟩ := secs_of_verify hts h
      obtain ⟨hformat, hrange⟩ := validateTimestamp_ok_iff.mp ht
      have hsecs : unix now = secs := by
        refine formatInt_inj ?_ hformat
        unfold minTimestamp at hrange
        omega
      subst hsecs
      obtain ⟨hnow, hnow', hlow, hhigh⟩ := withinWindow_iff.mp hwin
      exact ⟨hnow, hnow', by omega, by omega⟩
    · rintro ⟨hnow, hnow', habs⟩
      have ht := validateTimestamp_ok_iff.mpr ⟨rfl, hnow⟩
      have hwin : withinWindow (unix now) now' = true :=
        withinWindow_iff.mpr ⟨hnow, hnow', by omega, by omega⟩
      exact verify_ok_iff.mpr ⟨_, _, _, _, hts, hnonce, hsig, newNonce_valid b, ht, hwin, hsign⟩
  · intro key method path body key' method' path' body' header now now' h h'
    have hle := unix_le_of_verify h h'
    have hge := unix_le_of_verify h' h
    rw [abs_le]
    constructor <;> omega
  · intro key method path body header header' now now' hts hnonce h h'
    have hsign := sign_of_verify hts hnonce rfl h
    have hsign' := sign_of_verify rfl rfl rfl h'
    rw [hsign] at hsign'
    exact Except.ok.inj hsign'

/-- A request signed at second 1500000000 and verified 300 seconds later. -/
theorem signed_requests_in_window : ∃ signed,
    signRequest (fun _ => Vector.replicate 32 0) (fun _ _ => Vector.replicate 32 0)
      { method := ascii "POST", escapedPath := ascii "/internal/v1/search", header := fun _ => [] }
      (List.replicate 32 0) [] (1500000000 * second) (.ok (Vector.replicate 16 0)) = .ok signed ∧
    verify (fun _ => Vector.replicate 32 0) (fun _ _ => Vector.replicate 32 0) (List.replicate 32 0)
      (ascii "POST") (ascii "/internal/v1/search") signed.header [] (1500000300 * second) = .ok () := by
  obtain ⟨signed, hsigned, hiff⟩ := (signed_requests (fun _ => Vector.replicate 32 0)
    (fun _ _ => Vector.replicate 32 0)).1
    { method := ascii "POST", escapedPath := ascii "/internal/v1/search", header := fun _ => [] }
    (List.replicate 32 0) [] (1500000000 * second) (1500000300 * second) (Vector.replicate 16 0)
    (by decide) (by decide)
  exact ⟨signed, hsigned, hiff.mpr (by decide)⟩

/-- One set of headers, accepted 300 seconds before its timestamp and again 300.9 seconds after it. -/
theorem verify_apart :
    let header : Header := fun name =>
      if name = headerTimestamp then [ascii "1500000000"]
      else if name = headerNonce then [List.replicate 32 0x30]
      else if name = headerSignature then [ascii "v1=" ++ List.replicate 64 0x30]
      else []
    let accepted (now : Instant) := verify (fun _ => Vector.replicate 32 0) (fun _ _ => Vector.replicate 32 0)
      (List.replicate 32 0) (ascii "POST") (ascii "/") header [] now = .ok ()
    accepted (1499999700 * second) ∧ accepted (1500000300 * second + 900000000) ∧
      600 * second < 1500000300 * second + 900000000 - 1499999700 * second := by
  refine ⟨?_, ?_, ?_⟩ <;> decide

end Vizra.Search
