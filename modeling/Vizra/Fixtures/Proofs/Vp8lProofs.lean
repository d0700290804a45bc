import Vizra.Fixtures.Webp
import Vizra.GoStd.Bits

/-!
# What the bit writer writes, the bit reader reads

The bits that a writer has taken are those of its full bytes and of the byte that it is filling; every write appends
to them, and flushing fills the last byte up with zeroes. The reader is read by position in the bits of its bytes. A
list of fields, each a value and a number of bits, is what both sides are about; a frame of one colour is such a list.
-/

namespace Vizra.Fixtures

open Go Go.Run

/-! ## The writer -/

namespace BitWriter

/-- The bits taken so far. -/
def written (w : BitWriter) : List Bool := bitStream w.buf ++ bitsLE w.n w.cur.toNat

/-- A byte is being filled: fewer than eight bits, and nothing above them. -/
def Filling (w : BitWriter) : Prop := w.n < 8 ∧ w.cur.toNat < 2 ^ w.n

variable {w : BitWriter}

theorem toNat_bit (v : BitVec 32) (i : Nat) : (v >>> i &&& 1).toNat = (v.toNat.testBit i).toNat := by
  rw [BitVec.toNat_and, BitVec.toNat_ushiftRight, Nat.toNat_testBit, Nat.shiftRight_eq_div_pow]
  exact Nat.and_one_is_mod _

theorem writeBit_written (hw : w.Filling) {bit : BitVec 32} {c : Bool} (hbit : bit.toNat = c.toNat) :
    (w.writeBit bit).Filling ∧ (w.writeBit bit).written = w.written ++ [c] := by
  obtain ⟨hn, hcur⟩ := hw
  have hc : c.toNat < 2 := Bool.toNat_lt c
  have hpow : 2 ^ (w.n + 1) = 2 ^ w.n + 2 ^ w.n := by omega
  have hlt : 2 ^ w.n * c.toNat + w.cur.toNat < 2 ^ (w.n + 1) := by
    cases c with
    | false => rw [Bool.toNat_false]; omega
    | true => rw [Bool.toNat_true]; omega
  have hle : 2 ^ (w.n + 1) ≤ 2 ^ 8 := Nat.pow_le_pow_right (by omega) (by omega)
  have hshift : c.toNat <<< w.n < 2 ^ 32 := by
    rw [Nat.shiftLeft_eq]
    cases c with
    | false => rw [Bool.toNat_false]; omega
    | true => rw [Bool.toNat_true]; omega
  have hor : (w.cur ||| bit <<< w.n).toNat = 2 ^ w.n * c.toNat + w.cur.toNat := by
    rw [BitVec.toNat_or, BitVec.toNat_shiftLeft, hbit, Nat.mod_eq_of_lt hshift, two_pow_mul_add_eq_or hcur]
  rw [writeBit]
  by_cases hfull : w.n + 1 = 8
  · simp only [hfull, if_true]
    refine ⟨⟨Nat.zero_lt_succ _, Nat.one_pos⟩, ?_⟩
    have hbyte : (UInt8.ofNat (w.cur ||| bit <<< w.n).toNat).toNat = 2 ^ w.n * c.toNat + w.cur.toNat := by
      rw [UInt8.toNat_ofNat', hor]
      exact Nat.mod_eq_of_lt (by omega)
    have hbits : bitsLE 8 (2 ^ w.n * c.toNat + w.cur.toNat) = bitsLE w.n w.cur.toNat ++ [c] := by
      rw [← bitsLE_succ_of_lt hcur, hfull]
    rw [written, written, bitStream_append, bitStream_singleton, hbyte, hbits, ← List.append_assoc]
    exact List.append_nil _
  · simp only [hfull, if_false]
    refine ⟨⟨by dsimp only; omega, by rw [hor]; exact hlt⟩, ?_⟩
    rw [written, written, hor, bitsLE_succ_of_lt hcur, List.append_assoc]

theorem write_written (hw : w.Filling) (v : BitVec 32) (bits : Nat) :
    (w.write v bits).Filling ∧ (w.write v bits).written = w.written ++ bitsLE bits v.toNat := by
  induction bits with
  | zero => exact ⟨hw, (List.append_nil _).symm⟩
  | succ bits ih =>
    have hsucc : w.write v (bits + 1) = (w.write v bits).writeBit (v >>> bits &&& 1) := by
      rw [write, List.range_succ, List.foldl_append]
      rfl
    obtain ⟨hfill, hwritten⟩ := writeBit_written ih.1 (toNat_bit v bits)
    rw [hsucc]
    exact ⟨hfill, by rw [hwritten, ih.2, List.append_assoc, ← bitsLE_succ]⟩

theorem bitStream_bytes (hw : w.Filling) : ∃ k, bitStream w.bytes = w.written ++ List.replicate k false := by
  obtain ⟨hn, hcur⟩ := hw
  rw [bytes]
  split_ifs with hpos
  · have hle : 2 ^ w.n ≤ 2 ^ 8 := Nat.pow_le_pow_right (by omega) (by omega)
    have hbyte : (UInt8.ofNat w.cur.toNat).toNat = w.cur.toNat := by
      rw [UInt8.toNat_ofNat']
      exact Nat.mod_eq_of_lt (by omega)
    have hbits := bitsLE_add_of_lt hcur (8 - w.n)
    rw [show w.n + (8 - w.n) = 8 by omega] at hbits
    exact ⟨8 - w.n, by rw [bitStream_append, bitStream_singleton, hbyte, hbits, written, List.append_assoc]⟩
  · have hzero : w.n = 0 := by omega
    refine ⟨0, ?_⟩
    rw [written, hzero]
    exact (List.append_nil _).symm.trans (congrArg (· ++ []) (List.append_nil _).symm)

end BitWriter

/-! ## The reader -/

/-- A value and the number of bits that it is written in. -/
abbrev Field := BitVec 32 × Nat

def fieldBits (fs : List Field) : List Bool := fs.flatMap fun f => bitsLE f.2 f.1.toNat

def Fits (f : Field) : Prop := f.1.toNat < 2 ^ f.2

instance (f : Field) : Decidable (Fits f) := inferInstanceAs (Decidable (_ < _))

namespace BitReader

variable {r : BitReader}

theorem readFrom_of_bits {v : BitVec 32} (k i : Nat) (acc : BitVec 32) (hacc : acc.toNat = v.toNat % 2 ^ i)
    (hbits : ∀ j, i ≤ j → j < i + k → (bitStream r.b.data)[r.pos + j]? = some (v.toNat.testBit j)) :
    ∃ x : BitVec 32, r.readFrom k i acc = .ok (x, false) ∧ x.toNat = v.toNat % 2 ^ (i + k) := by
  induction k generalizing i acc with
  | zero => exact ⟨acc, rfl, hacc⟩
  | succ k ih =>
    have hbit := hbits i (Nat.le_refl i) (by omega)
    rw [getElem?_bitStream, Option.map_eq_some_iff] at hbit
    obtain ⟨c, hc, hbit⟩ := hbit
    have hidx : (r.pos + i) / 8 < r.b.len := (List.getElem?_eq_some_iff.mp hc).1
    have hread : (r.b.index ((r.pos + i) / 8) : Run FixtureError UInt8) = .ok c := by rw [Slice.index, hc]
    have hc32 : (BitVec.ofNat 32 c.toNat).toNat = c.toNat := by
      rw [BitVec.toNat_ofNat]
      exact Nat.mod_eq_of_lt (c.toNat_lt.trans (by omega))
    have hone : (BitVec.ofNat 32 c.toNat >>> ((r.pos + i) % 8) &&& 1).toNat = (v.toNat.testBit i).toNat := by
      rw [BitWriter.toNat_bit, hc32, hbit]
    have hnext : (acc ||| (BitVec.ofNat 32 c.toNat >>> ((r.pos + i) % 8) &&& 1) <<< i).toNat = v.toNat % 2 ^ (i + 1) := by
      rw [BitVec.toNat_or, BitVec.toNat_shiftLeft, hone, hacc]
      have hlt : (v.toNat.testBit i).toNat <<< i < 2 ^ 32 := by
        cases hb : v.toNat.testBit i with
        | false =>
          rw [Bool.toNat_false, Nat.zero_shiftLeft]
          omega
        | true =>
          -- a bit of the value stands below its width
          have hge := Nat.ge_two_pow_of_testBit hb
          rw [Bool.toNat_true, Nat.one_shiftLeft]
          exact hge.trans_lt v.isLt
      rw [Nat.mod_eq_of_lt hlt, mod_two_pow_or_testBit]
    obtain ⟨x, hx, hval⟩ := ih (i + 1) _ hnext fun j hj hjk => hbits j (by omega) (by omega)
    refine ⟨x, ?_, by rw [hval, Nat.add_assoc, Nat.add_comm 1 k]⟩
    rw [readFrom]
    simp only [if_neg (Nat.not_le.mpr hidx), hread, bind, Except.bind]
    exact hx

/-- The fields stand in front of the reader, and no read has failed. -/
def Ahead (r : BitReader) (fs : List Field) : Prop :=
  r.err = none ∧ fieldBits fs <+: (bitStream r.b.data).drop r.pos

theorem read_of_ahead {f : Field} {fs : List Field} (hf : Fits f) (h : r.Ahead (f :: fs)) :
    ∃ r', r.read f.2 = .ok (f.1, r') ∧ r'.Ahead fs := by
  obtain ⟨herr, rest, hrest⟩ := h
  have hcons : fieldBits (f :: fs) = bitsLE f.2 f.1.toNat ++ fieldBits fs := rfl
  rw [hcons, List.append_assoc] at hrest
  have hbits : ∀ j, 0 ≤ j → j < 0 + f.2 → (bitStream r.b.data)[r.pos + j]? = some (f.1.toNat.testBit j) := by
    intro j _ hj
    rw [← List.getElem?_drop, ← hrest, List.getElem?_append_left (by rw [length_bitsLE]; omega),
      getElem?_bitsLE (by omega)]
  obtain ⟨x, hx, hval⟩ := readFrom_of_bits f.2 0 0 (by rw [pow_zero, Nat.mod_one]; rfl) hbits
  have heq : x = f.1 := by
    apply BitVec.eq_of_toNat_eq
    rw [hval, Nat.zero_add]
    exact Nat.mod_eq_of_lt hf
  refine ⟨{ r with pos := r.pos + f.2 }, ?_, herr, rest, ?_⟩
  · rw [read, hx, heq]
    rfl
  · dsimp only
    rw [← List.drop_drop, ← hrest]
    exact (List.drop_left' (length_bitsLE _ _)).symm

end BitReader

/-- A sequence of writes. -/
def writeAll (fs : List Field) (w : BitWriter) : BitWriter := fs.foldl (fun w f => w.write f.1 f.2) w

/-- A sequence of reads. -/
def readAll : List Nat → BitReader → Run FixtureError (List (BitVec 32) × BitReader)
  | [], r => pure ([], r)
  | bits :: counts, r => do
    let (v, r) ← r.read bits
    let (vs, r) ← readAll counts r
    pure (v :: vs, r)

theorem writeAll_written {w : BitWriter} (hw : w.Filling) (fs : List Field) :
    (writeAll fs w).Filling ∧ (writeAll fs w).written = w.written ++ fieldBits fs := by
  induction fs generalizing w with
  | nil => exact ⟨hw, (List.append_nil _).symm⟩
  | cons f fs ih =>
    obtain ⟨hfill, hwritten⟩ := BitWriter.write_written hw f.1 f.2
    obtain ⟨hfill', hwritten'⟩ := ih hfill
    refine ⟨hfill', ?_⟩
    show (writeAll fs (w.write f.1 f.2)).written = _
    rw [hwritten', hwritten, List.append_assoc]
    rfl

/-- The fields that have been written and flushed stand in front of a reader of the bytes. -/
theorem ahead_writeAll (fs : List Field) (spare : Bytes) :
    BitReader.Ahead ⟨⟨(writeAll fs .init).bytes, spare⟩, 0, none⟩ fs := by
  have hinit : BitWriter.init.Filling := ⟨Nat.zero_lt_succ _, Nat.one_pos⟩
  obtain ⟨hfill, hwritten⟩ := writeAll_written hinit fs
  obtain ⟨k, hk⟩ := BitWriter.bitStream_bytes hfill
  refine ⟨rfl, List.replicate k false, ?_⟩
  show _ = bitStream (writeAll fs .init).bytes
  rw [hk, hwritten]
  rfl

theorem readAll_of_ahead {fs : List Field} (hfs : ∀ f ∈ fs, Fits f) {r : BitReader} (h : r.Ahead fs) :
    ∃ r', readAll (fs.map Prod.snd) r = .ok (fs.map Prod.fst, r') ∧ r'.err = none := by
  induction fs generalizing r with
  | nil => exact ⟨r, rfl, h.1⟩
  | cons f fs ih =>
    obtain ⟨r', hread, hahead⟩ := BitReader.read_of_ahead (hfs f List.mem_cons_self) h
    obtain ⟨r'', hrest, herr⟩ := ih (fun g hg => hfs g (List.mem_cons_of_mem _ hg)) hahead
    refine ⟨r'', ?_, herr⟩
    simp only [List.map_cons, readAll, hread, hrest, bind, Except.bind]
    rfl

/-! ## Frames of one colour -/

/-- The fields of a code of one symbol. -/
def symbolFields (s : UInt8) : List Field := [(1, 1), (0, 1), (1, 1), (BitVec.ofNat 32 s.toNat, 8)]

def alphaBit (c : NRGBA) : BitVec 32 := if c.a < 0xFF then 1 else 0

def headerFields (w h : Int) (c : NRGBA) : List Field :=
  [(BitVec.ofInt 32 (w - 1), 14), (BitVec.ofInt 32 (h - 1), 14), (alphaBit c, 1), (0, 3), (0, 1), (0, 1), (0, 1)]

/-- The symbols of a frame: green, red, blue, alpha, and the distance code. -/
def symbols (c : NRGBA) : List UInt8 := [c.g, c.r, c.b, c.a, 0]

def solidFields (w h : Int) (c : NRGBA) : List Field := headerFields w h c ++ (symbols c).flatMap symbolFields

theorem vp8lSolid_eq {w h : Int} (hw : 1 ≤ w ∧ w ≤ 2 ^ 14) (hh : 1 ≤ h ∧ h ≤ 2 ^ 14) (c : NRGBA) :
    vp8lSolid w h c = .ok (vp8lSignature :: (writeAll (solidFields w h c) .init).bytes) := by
  have hrange : ¬ (w < 1 ∨ h < 1 ∨ w > 1 <<< 14 ∨ h > 1 <<< 14) := by
    have hshift : 1 <<< 14 = 2 ^ 14 := rfl
    omega
  have hall : writeAll (solidFields w h c) .init =
      (((((writeAll (headerFields w h c) .init).simple c.g).simple c.r).simple c.b).simple c.a).simple 0 := by
    simp only [writeAll, solidFields, symbols, symbolFields, List.flatMap_cons, List.flatMap_nil, List.cons_append,
      List.nil_append, List.foldl_append, List.foldl_cons, List.foldl_nil, BitWriter.simple]
  rw [vp8lSolid, if_neg hrange, hall]
  simp only [headerFields, writeAll, List.foldl_cons, List.foldl_nil, alphaBit]
  split_ifs with ha
  · rfl
  · rfl

theorem length_solidFields (w h : Int) (c : NRGBA) : (fieldBits (solidFields w h c)).length = 90 := by
  simp only [fieldBits, solidFields, headerFields, symbols, symbolFields, List.flatMap_cons, List.flatMap_nil,
    List.cons_append, List.nil_append, List.append_nil, List.length_append, length_bitsLE]

theorem fits_symbolFields (s : UInt8) : ∀ f ∈ symbolFields s, Fits f := by
  have hs : (BitVec.ofNat 32 s.toNat).toNat < 2 ^ 8 := by
    rw [BitVec.toNat_ofNat]
    exact (Nat.mod_le _ _).trans_lt s.toNat_lt
  intro f hf
  simp only [symbolFields, List.mem_cons, List.not_mem_nil, or_false] at hf
  rcases hf with rfl | rfl | rfl | rfl
  · exact Nat.one_lt_two
  · exact Nat.zero_lt_two
  · exact Nat.one_lt_two
  · exact hs

/-- The codes of the symbols that stand in front of the reader are read in turn. -/
theorem readSymbols_of_ahead {syms : List UInt8} {fs : List Field} (i : Nat) {r : BitReader}
    (h : r.Ahead (syms.flatMap symbolFields ++ fs)) :
    ∃ r', readSymbols syms.length i r = .ok (syms.map fun s => BitVec.ofNat 32 s.toNat, r') ∧ r'.Ahead fs := by
  induction syms generalizing i r with
  | nil => exact ⟨r, rfl, h⟩
  | cons s syms ih =>
    have hfits := fits_symbolFields s
    simp only [symbolFields, List.forall_mem_cons] at hfits
    obtain ⟨hf1, hf2, hf3, hf4, -⟩ := hfits
    obtain ⟨r1, h1, ha1⟩ := BitReader.read_of_ahead hf1 h
    obtain ⟨r2, h2, ha2⟩ := BitReader.read_of_ahead hf2 ha1
    obtain ⟨r3, h3, ha3⟩ := BitReader.read_of_ahead hf3 ha2
    obtain ⟨r4, h4, ha4⟩ := BitReader.read_of_ahead hf4 ha3
    obtain ⟨r', hrest, ha⟩ := ih (i + 1) ha4
    refine ⟨r', ?_, ha⟩
    simp only [List.length_cons, List.map_cons, readSymbols, h1, h2, h3, h4, hrest, bind, Except.bind, ne_eq,
      not_true, if_false]
    rfl

theorem readVP8LHeader_of_ahead {w h : BitVec 32} {c : NRGBA} {fs : List Field} (hw : Fits (w, 14))
    (hh : Fits (h, 14)) {r : BitReader}
    (hr : r.Ahead ((w, 14) :: (h, 14) :: (alphaBit c, 1) :: (0, 3) :: (0, 1) :: (0, 1) :: (0, 1) :: fs)) :
    ∃ r', readVP8LHeader r = .ok (w.toNat + 1, h.toNat + 1, decide (c.a < 0xFF), r') ∧ r'.Ahead fs := by
  have hbit : Fits (alphaBit c, 1) := by
    rw [Fits, alphaBit]
    split_ifs
    · exact Nat.one_lt_two
    · exact Nat.zero_lt_two
  have hzero : ∀ k, Fits (0, k) := fun k => Nat.two_pow_pos k
  have hused : (alphaBit c == 1) = decide (c.a < 0xFF) := by
    rw [alphaBit]
    split_ifs with ha
    · rw [decide_eq_true ha]
      rfl
    · rw [decide_eq_false ha]
      rfl
  obtain ⟨r1, h1, ha1⟩ := BitReader.read_of_ahead hw hr
  obtain ⟨r2, h2, ha2⟩ := BitReader.read_of_ahead hh ha1
  obtain ⟨r3, h3, ha3⟩ := BitReader.read_of_ahead hbit ha2
  obtain ⟨r4, h4, ha4⟩ := BitReader.read_of_ahead (hzero 3) ha3
  obtain ⟨r5, h5, ha5⟩ := BitReader.read_of_ahead (hzero 1) ha4
  obtain ⟨r6, h6, ha6⟩ := BitReader.read_of_ahead (hzero 1) ha5
  obtain ⟨r7, h7, ha7⟩ := BitReader.read_of_ahead (hzero 1) ha6
  refine ⟨r7, ?_, ha7⟩
  simp only [readVP8LHeader, h1, h2, h3, h4, h5, h6, h7, hused, bind, Except.bind, ne_eq, not_true, if_false]
  rfl

theorem vp8lReadSolid_vp8lSolid {w h : Nat} (c : NRGBA) (spare : Bytes) (hw : 1 ≤ w ∧ w ≤ 2 ^ 14)
    (hh : 1 ≤ h ∧ h ≤ 2 ^ 14) :
    ∃ bs, vp8lSolid w h c = .ok bs ∧ vp8lReadSolid ⟨bs, spare⟩ = .ok (w, h, c) := by
  refine ⟨_, vp8lSolid_eq (by omega) (by omega) c, ?_⟩
  have hahead := ahead_writeAll (solidFields w h c) spare
  generalize hbs : (writeAll (solidFields w h c) .init).bytes = bs at hahead ⊢
  -- ninety bits do not fit in fewer bytes than the reader asks for
  have hlong : 6 ≤ bs.length + 1 := by
    have hle := hahead.2.length_le
    rw [length_solidFields, List.length_drop, length_bitStream] at hle
    dsimp only at hle
    omega
  have htail : (Slice.sliceFrom ⟨vp8lSignature :: bs, spare⟩ 1 : Run FixtureError (Slice UInt8)) = .ok ⟨bs, spare⟩ := by
    have hlen : Slice.len ⟨vp8lSignature :: bs, spare⟩ = bs.length + 1 := rfl
    have hsub : Slice.sub ⟨vp8lSignature :: bs, spare⟩ 1 (bs.length + 1) = ⟨bs, spare⟩ := by
      simp only [Slice.sub, List.cons_append, List.drop_succ_cons, List.drop_zero, Nat.add_sub_cancel,
        List.take_left, List.drop_left]
    rw [Slice.sliceFrom, Slice.slice_eq_ok (by rw [hlen]; omega) (Slice.len_le_cap _), hlen, hsub]
  have hval : ∀ n : Nat, 1 ≤ n ∧ n ≤ 2 ^ 14 → (BitVec.ofInt 32 (n - 1)).toNat = n - 1 := by
    intro n hn
    rw [show (n : Int) - 1 = ((n - 1 : Nat) : Int) by omega, BitVec.ofInt_natCast, BitVec.toNat_ofNat]
    exact Nat.mod_eq_of_lt (by omega)
  have hfw : Fits (BitVec.ofInt 32 (w - 1), 14) := by rw [Fits, hval w hw]; dsimp only; omega
  have hfh : Fits (BitVec.ofInt 32 (h - 1), 14) := by rw [Fits, hval h hh]; dsimp only; omega
  obtain ⟨r, hheader, hr⟩ := readVP8LHeader_of_ahead hfw hfh hahead
  rw [← List.append_nil ((symbols c).flatMap symbolFields)] at hr
  obtain ⟨r', hsymbols, hr'⟩ := readSymbols_of_ahead 0 hr
  have hsymbols' : readSymbols 5 0 r = .ok ((symbols c).map fun s => BitVec.ofNat 32 s.toNat, r') := hsymbols
  have hbyte : ∀ s : UInt8, UInt8.ofNat (BitVec.ofNat 32 s.toNat).toNat = s := by
    intro s
    rw [BitVec.toNat_ofNat, Nat.mod_eq_of_lt (s.toNat_lt.trans (by omega))]
    exact UInt8.ofNat_toNat
  have hdim : ∀ n : Nat, 1 ≤ n ∧ n ≤ 2 ^ 14 → (BitVec.ofInt 32 (n - 1)).toNat + 1 = n := by
    intro n hn
    rw [hval n hn]
    omega
  rw [hdim w hw, hdim h hh] at hheader
  rw [vp8lReadSolid, if_neg (by show ¬ bs.length + 1 < 6; omega), htail]
  have hfirst : (Slice.index ⟨vp8lSignature :: bs, spare⟩ 0 : Run FixtureError UInt8) = .ok vp8lSignature := rfl
  simp only [hfirst, hheader, hsymbols', hr'.1, bind, Except.bind, ne_eq, not_true, if_false, symbolByte, symbols,
    List.map_cons, List.map_nil, List.getD_cons_zero, List.getD_cons_succ, hbyte]
  rfl

/-- A frame is read back as it was written, and so is any list of fields that fit their bits. -/
theorem vp8l_roundTrip (w h : Nat) (c : NRGBA) (fs : List Field) (spare : Bytes) (hw : 1 ≤ w ∧ w ≤ 2 ^ 14)
    (hh : 1 ≤ h ∧ h ≤ 2 ^ 14) (hfs : ∀ f ∈ fs, Fits f) :
    (∃ bs, vp8lSolid w h c = .ok bs ∧ vp8lReadSolid ⟨bs, spare⟩ = .ok (w, h, c)) ∧
      ∃ r, readAll (fs.map Prod.snd) ⟨⟨(writeAll fs .init).bytes, spare⟩, 0, none⟩ = .ok (fs.map Prod.fst, r) ∧
        r.err = none :=
  ⟨vp8lReadSolid_vp8lSolid c spare hw hh, readAll_of_ahead hfs (ahead_writeAll fs spare)⟩

theorem vp8l_roundTrip_largest :
    (∃ bs, vp8lSolid (16384 : Nat) (1 : Nat) ⟨1, 2, 3, 4⟩ = .ok bs ∧
        vp8lReadSolid ⟨bs, []⟩ = .ok (16384, 1, ⟨1, 2, 3, 4⟩)) ∧
      ∃ r, readAll ([(5, 3), (0, 0), (0xFFFFFFFF, 40)].map Prod.snd)
          ⟨⟨(writeAll [(5, 3), (0, 0), (0xFFFFFFFF, 40)] .init).bytes, []⟩, 0, none⟩ =
          .ok ([(5, 3), (0, 0), (0xFFFFFFFF, 40)].map Prod.fst, r) ∧ r.err = none := by
  refine vp8l_roundTrip 16384 1 ⟨1, 2, 3, 4⟩ [(5, 3), (0, 0), (0xFFFFFFFF, 40)] [] (by omega) (by omega) ?_
  intro f hf
  simp only [List.mem_cons, List.not_mem_nil, or_false] at hf
  rcases hf with rfl | rfl | rfl
  · decide
  · decide
  · decide

end Vizra.Fixtures
