import Vizra.Fixtures.Jpeg

/-!
# Where the JPEG and EXIF readers panic

The marker walker stays inside the file. The EXIF reader compares its offsets with the length as `int`s and slices
with `uint32`s, whose sums wrap around in a structure of 4 GiB; the segments of a JPEG file are shorter than that. The
verifier reads two bytes of the orientation, however long that value is.
-/

namespace Vizra.Fixtures

open Go Go.Run

/-! ## Markers -/

section Markers

variable {b : Slice UInt8}

theorem readSegment_eq_ok (info : JpegInfo) (m : UInt8) (seg : Slice UInt8) :
    ∃ info', readSegment info m seg = .ok info' ∧ ∀ a, info'.app1 = some a → info.app1 = some a ∨ a = seg := by
  have hcap := seg.len_le_cap
  rw [readSegment]
  by_cases hm : m = 0xE1
  · rw [if_pos hm]
    exact ⟨_, rfl, fun a ha => .inr (Option.some.inj ha).symm⟩
  · rw [if_neg hm]
    by_cases hsof : isSOF m
    · rw [if_pos hsof]
      by_cases hsix : 6 ≤ seg.len
      · rw [if_pos hsix, Slice.beUint_bind (by omega) (by omega) (by omega),
          Slice.beUint_bind (by omega) (by omega) (by omega), Slice.index_bind (by omega)]
        exact ⟨_, rfl, fun a ha => .inl ha⟩
      · rw [if_neg hsix]
        exact ⟨_, rfl, fun a ha => .inl ha⟩
    · rw [if_neg hsof]
      exact ⟨_, rfl, fun a ha => .inl ha⟩

theorem not_panics_endsWithEOI (b : Slice UInt8) : ¬ Panics (endsWithEOI b) := by
  refine not_panics_ite (fun htwo => ?_) fun _ => not_panics_pure _
  rw [Slice.index_bind (by omega)]
  refine not_panics_ite (fun _ => ?_) fun _ => not_panics_pure _
  rw [Slice.index_bind (by omega)]
  exact not_panics_pure _

theorem not_panics_scanJPEGStep (b : Slice UInt8) (s : Nat × JpegInfo) : ¬ Panics (scanJPEGStep b s) := by
  have hcap := b.len_le_cap
  refine not_panics_ite (fun hlen => ?_) fun _ => not_panics_pure _
  rw [Slice.index_bind (by omega)]
  refine not_panics_check fun _ => ?_
  rw [Slice.index_bind (by omega)]
  refine not_panics_ite (fun _ => not_panics_pure _) fun _ => ?_
  rw [Slice.beUint_bind (by omega) (by omega) (by omega)]
  refine not_panics_check fun hend => ?_
  rw [Slice.slice_bind (by omega) (by omega)]
  refine not_panics_bind ?_ fun info _ => ?_
  · obtain ⟨info, hinfo, -⟩ := readSegment_eq_ok s.2 _ _
    rw [hinfo]
    exact not_panics_ok _
  · refine not_panics_ite (fun _ => ?_) fun _ => not_panics_pure _
    exact not_panics_bind (not_panics_endsWithEOI b) fun _ _ => not_panics_pure _

/-- A segment that a round keeps has the size of its field of 16 bits. -/
theorem app1_of_scanJPEGStep {s : Nat × JpegInfo} {r : (Nat × JpegInfo) ⊕ JpegInfo} {a : Slice UInt8}
    (h : scanJPEGStep b s = .ok r) (ha : (r.elim Prod.snd id).app1 = some a) : s.2.app1 = some a ∨ a.len < 2 ^ 16 := by
  have hcap := b.len_le_cap
  obtain ⟨_, rfl⟩ | ⟨hlen, m, info, hinfo, hr⟩ := scanJPEGStep_cases h
  · exact .inl ha
  have hsize : b.beAt (s.1 + 2) (s.1 + 4) < 256 ^ 2 := Slice.beAt_lt (by omega) (by omega)
  obtain ⟨info', hinfo', happ1⟩ := readSegment_eq_ok s.2 m (b.sub (s.1 + 4) (s.1 + 2 + b.beAt (s.1 + 2) (s.1 + 4)))
  cases hinfo.symm.trans hinfo'
  have happ : info.app1 = some a := by
    obtain ⟨_, rfl⟩ | rfl := hr
    · exact ha
    · exact ha
  refine (happ1 a happ).imp_right ?_
  rintro rfl
  exact (List.length_take_le _ _).trans_lt (by omega)

theorem not_panics_scanJPEG (b : Slice UInt8) : ¬ Panics (scanJPEG b) := by
  rw [scanJPEG]
  refine not_panics_check fun hlen => ?_
  rw [Slice.index_bind (by omega)]
  refine not_panics_check fun _ => ?_
  rw [Slice.index_bind (by omega)]
  refine not_panics_check fun _ hpanic => ?_
  obtain ⟨t, -, hpanic⟩ := Loop.panics_run_iff.mp hpanic
  exact not_panics_scanJPEGStep b t hpanic

/-- The segment that the walk returns is shorter than 64 KiB, and the file has a marker behind the first. -/
theorem app1_of_scanJPEG {info : JpegInfo} {a : Slice UInt8} (h : scanJPEG b = .ok info) (ha : info.app1 = some a) :
    a.len < 2 ^ 16 ∧ 6 ≤ b.len := by
  rw [scanJPEG] at h
  obtain ⟨hlen, h⟩ := check_eq_ok.mp h
  rw [Slice.index_bind (by omega)] at h
  obtain ⟨-, h⟩ := check_eq_ok.mp h
  rw [Slice.index_bind (by omega)] at h
  obtain ⟨-, h⟩ := check_eq_ok.mp h
  obtain ⟨t, hgoes, hdone⟩ := Loop.run_eq_ok_iff.mp h
  constructor
  · have hinv : ∀ a, t.2.app1 = some a → a.len < 2 ^ 16 := by
      refine hgoes.invariant (P := fun s => ∀ a, s.2.app1 = some a → a.len < 2 ^ 16) nofun ?_
      intro u v hu hstep a ha
      exact (app1_of_scanJPEGStep hstep ha).elim (hu a) id
    exact (app1_of_scanJPEGStep hdone ha).elim (hinv a) id
  · by_contra hshort
    have hfirst : (scanJPEGLoop b).step (2, ⟨none, false, 0, 0, 0, 0⟩) = .ok (.inr ⟨none, false, 0, 0, 0, 0⟩) := by
      show scanJPEGStep b _ = _
      rw [scanJPEGStep, if_neg (by dsimp only; omega)]
      rfl
    rw [Loop.run_of_done hfirst] at h
    cases h
    cases ha

end Markers

/-! ## Directories -/

section Directories

variable {t : Slice UInt8} {off i : Nat} {s : IfdState}

/-- The tag of entry `i` of the directory at `off`. -/
def tagAt (t : Slice UInt8) (off i : Nat) : Nat := t.beAt (off + 2 + i * 12) (off + 2 + i * 12 + 2)

/-- The offset that stands in entry `i`. -/
def offsetAt (t : Slice UInt8) (off i : Nat) : Nat := t.beAt (off + 2 + i * 12 + 8) (off + 2 + i * 12 + 12)

/-- The tag before entry `i`. -/
def lastTag (t : Slice UInt8) (off : Nat) : Nat → Int
  | 0 => -1
  | i + 1 => tagAt t off i

/-- The offset of the GPS directory in the first entries. -/
def gpsPointer (t : Slice UInt8) (off : Nat) : Nat → Nat
  | 0 => 0
  | i + 1 => if tagAt t off i = tagGPSIFD then offsetAt t off i else gpsPointer t off i

/-- Entry `i` passes the checks: its tag is above the one before, and its value of `size` bytes lies in the structure. -/
def EntryFits (t : Slice UInt8) (off i size : Nat) : Prop :=
  off + 2 + i * 12 + 12 ≤ t.len ∧ lastTag t off i < tagAt t off i ∧
    fieldSize (t.beAt (off + 2 + i * 12 + 2) (off + 2 + i * 12 + 4))
      (t.beAt (off + 2 + i * 12 + 4) (off + 2 + i * 12 + 8)) = .ok size ∧
    (4 < size → offsetAt t off i + size ≤ t.len)

def EntryReads (t : Slice UInt8) (off i : Nat) : Prop :=
  ∃ size, EntryFits t off i size ∧ (4 < size → offsetAt t off i + size < 2 ^ 32)

/-- The end of the value passes the check as an `int` and wraps around as a `uint32`. -/
def EntryWraps (t : Slice UInt8) (off i : Nat) : Prop :=
  ∃ size, EntryFits t off i size ∧ 4 < size ∧ 2 ^ 32 ≤ offsetAt t off i + size

theorem fieldSize_spec {typ cnt : Nat} (hcnt : cnt < 2 ^ 32) :
    ¬ Panics (fieldSize typ cnt) ∧ ∀ size, fieldSize typ cnt = .ok size → size < 2 ^ 32 := by
  rw [fieldSize]
  split_ifs
  · exact ⟨not_panics_pure _, fun size h => (Except.ok.inj h).symm.trans_lt hcnt⟩
  · exact ⟨not_panics_pure _, fun size h => (Except.ok.inj h).symm.trans_lt (Nat.mod_lt _ (by omega))⟩
  · exact ⟨not_panics_pure _, fun size h => (Except.ok.inj h).symm.trans_lt (Nat.mod_lt _ (by omega))⟩
  · exact ⟨not_panics_pure _, fun size h => (Except.ok.inj h).symm.trans_lt (Nat.mod_lt _ (by omega))⟩
  · exact ⟨not_panics_fail _, nofun⟩

/-- A value in the entry is read; one elsewhere is read, or its end wraps around, or it is past the end. -/
theorem entryValue_spec {p tag size : Nat} (hp : p + 12 ≤ t.len) (hsize : size < 2 ^ 32) :
    (Panics (entryValue t p tag size) ↔ (4 < size → t.beAt (p + 8) (p + 12) + size ≤ t.len) ∧ 4 < size ∧
        2 ^ 32 ≤ t.beAt (p + 8) (p + 12) + size) ∧
      ((∃ val, entryValue t p tag size = .ok val) ↔ (4 < size → t.beAt (p + 8) (p + 12) + size ≤ t.len) ∧
        (4 < size → t.beAt (p + 8) (p + 12) + size < 2 ^ 32)) := by
  have hcap := t.len_le_cap
  have ho : t.beAt (p + 8) (p + 12) < 256 ^ 4 := Slice.beAt_lt (by omega) (by omega)
  rw [entryValue]
  by_cases hfour : size ≤ 4
  · rw [if_pos hfour, Slice.slice_eq_ok (by omega) (by omega)]
    exact ⟨iff_of_false (not_panics_ok _) (by omega), iff_of_true ⟨_, rfl⟩ (by omega)⟩
  rw [if_neg hfour, Slice.beUint_bind (by omega) (by omega) (by omega)]
  generalize t.beAt (p + 8) (p + 12) = o at ho ⊢
  by_cases hend : t.len < o + size
  · rw [if_pos hend]
    exact ⟨iff_of_false (not_panics_fail _) (by omega), iff_of_false (by rintro ⟨_, ⟨⟩⟩) (by omega)⟩
  rw [if_neg hend]
  by_cases hwrap : 2 ^ 32 ≤ o + size
  · rw [Slice.slice, if_neg (by omega)]
    exact ⟨iff_of_true panics_crash (by omega), iff_of_false (by rintro ⟨_, ⟨⟩⟩) (by omega)⟩
  · rw [Slice.slice_eq_ok (by omega) (by omega)]
    exact ⟨iff_of_false (not_panics_ok _) (by omega), iff_of_true ⟨_, rfl⟩ (by omega)⟩

/-- What an entry does behind the checks: its value is read, and the tag and the offset of the GPS directory kept. -/
theorem readEntry_eq (hp : off + 2 + i * 12 + 12 ≤ t.len) (htag : s.prevTag < tagAt t off i) :
    readEntry t off i s =
      fieldSize (t.beAt (off + 2 + i * 12 + 2) (off + 2 + i * 12 + 4))
        (t.beAt (off + 2 + i * 12 + 4) (off + 2 + i * 12 + 8)) >>= fun size =>
      entryValue t (off + 2 + i * 12) (tagAt t off i) size >>= fun val =>
      pure ⟨tagAt t off i, s.values ++ [(tagAt t off i, val)],
        if tagAt t off i = tagGPSIFD then offsetAt t off i else s.gpsOff⟩ := by
  have hcap := t.len_le_cap
  rw [readEntry]
  simp only [gpsOffset]
  rw [if_neg (by omega), Slice.beUint_bind (by omega) (by omega) (by omega), ← tagAt, if_neg (by omega),
    Slice.beUint_bind (by omega) (by omega) (by omega), Slice.beUint_bind (by omega) (by omega) (by omega)]
  by_cases hgps : tagAt t off i = tagGPSIFD
  · simp only [if_pos hgps, bind_assoc]
    simp only [Slice.beUint_bind (show off + 2 + i * 12 + 8 ≤ off + 2 + i * 12 + 12 by omega)
      (show off + 2 + i * 12 + 12 - (off + 2 + i * 12 + 8) = 4 by omega) (show off + 2 + i * 12 + 12 ≤ t.cap by omega)]
    rfl
  · simp only [if_neg hgps, pure_bind]

/-- Behind the entries before it, an entry is read or wraps around as its bytes say. -/
theorem readEntry_spec (hs : s.prevTag = lastTag t off i) (hgps : s.gpsOff = gpsPointer t off i) :
    (Panics (readEntry t off i s) ↔ EntryWraps t off i) ∧
      ((∃ u, readEntry t off i s = .ok u) ↔ EntryReads t off i) ∧
      ∀ u, readEntry t off i s = .ok u → u.prevTag = lastTag t off (i + 1) ∧ u.gpsOff = gpsPointer t off (i + 1) := by
  have hcap := t.len_le_cap
  by_cases hp : t.len < off + 2 + i * 12 + 12
  · rw [readEntry, if_pos hp]
    refine ⟨⟨nofun, ?_⟩, ⟨nofun, ?_⟩, nofun⟩
    · rintro ⟨size, ⟨hle, -⟩, -⟩
      omega
    · rintro ⟨size, ⟨hle, -⟩, -⟩
      omega
  by_cases htag : (tagAt t off i : Int) ≤ s.prevTag
  · have hfail : readEntry t off i s = fail (.tagOrder (tagAt t off i)) := by
      rw [readEntry, if_neg hp, Slice.beUint_bind (by omega) (by omega) (by omega), ← tagAt, if_pos htag]
    rw [hfail]
    refine ⟨⟨nofun, ?_⟩, ⟨nofun, ?_⟩, nofun⟩
    · rintro ⟨size, ⟨-, hlt, -⟩, -⟩
      omega
    · rintro ⟨size, ⟨-, hlt, -⟩, -⟩
      omega
  have hcnt : t.beAt (off + 2 + i * 12 + 4) (off + 2 + i * 12 + 8) < 256 ^ 4 := Slice.beAt_lt (by omega) (by omega)
  obtain ⟨hfield, hlt⟩ := @fieldSize_spec (t.beAt (off + 2 + i * 12 + 2) (off + 2 + i * 12 + 4)) _ hcnt
  rw [readEntry_eq (by omega) (by omega), panics_bind_of_not hfield]
  refine ⟨exists_congr fun size => ?_, ?_, ?_⟩
  · rw [panics_bind_pure]
    constructor
    · rintro ⟨hsize, hpanic⟩
      obtain ⟨hle, hwraps⟩ := (entryValue_spec (by omega) (hlt size hsize)).1.mp hpanic
      exact ⟨⟨by omega, by omega, hsize, hle⟩, hwraps⟩
    · rintro ⟨⟨-, -, hsize, hle⟩, hwraps⟩
      exact ⟨hsize, (entryValue_spec (by omega) (hlt size hsize)).1.mpr ⟨hle, hwraps⟩⟩
  · constructor
    · rintro ⟨u, hu⟩
      obtain ⟨size, hsize, hu⟩ := Report.bind_eq_ok.mp hu
      obtain ⟨val, hval, -⟩ := Report.bind_eq_ok.mp hu
      obtain ⟨hle, hreads⟩ := (entryValue_spec (by omega) (hlt size hsize)).2.mp ⟨val, hval⟩
      exact ⟨size, ⟨by omega, by omega, hsize, hle⟩, hreads⟩
    · rintro ⟨size, ⟨-, -, hsize, hle⟩, hreads⟩
      obtain ⟨val, hval⟩ := (entryValue_spec (by omega) (hlt size hsize)).2.mpr ⟨hle, hreads⟩
      exact ⟨_, Report.bind_eq_ok.mpr ⟨size, hsize, Report.bind_eq_ok.mpr ⟨val, hval, rfl⟩⟩⟩
  · intro u hu
    obtain ⟨size, -, hu⟩ := Report.bind_eq_ok.mp hu
    obtain ⟨val, -, hu⟩ := Report.bind_eq_ok.mp hu
    cases hu
    refine ⟨rfl, ?_⟩
    rw [gpsPointer, hgps]

/-- A loop over the entries ends in the first one that wraps around, or reads all of them. -/
theorem readEntries_spec (t : Slice UInt8) (off n : Nat) :
    (Panics (forRange 0 n (fun s i => readEntry t off i s) ⟨-1, [], 0⟩) ↔
        ∃ i < n, (∀ j < i, EntryReads t off j) ∧ EntryWraps t off i) ∧
      ((∃ s, forRange 0 n (fun s i => readEntry t off i s) ⟨-1, [], 0⟩ = .ok s) ↔ ∀ i < n, EntryReads t off i) ∧
      ∀ s, forRange 0 n (fun s i => readEntry t off i s) ⟨-1, [], 0⟩ = .ok s →
        s.prevTag = lastTag t off n ∧ s.gpsOff = gpsPointer t off n := by
  induction n with
  | zero =>
    refine ⟨⟨nofun, fun ⟨i, hi, _⟩ => absurd hi (by omega)⟩, ⟨fun _ i hi => absurd hi (by omega), fun _ => ⟨_, rfl⟩⟩, ?_⟩
    intro s hs
    cases hs
    exact ⟨rfl, rfl⟩
  | succ n ih =>
    obtain ⟨hpanics, hreads, hstate⟩ := ih
    rw [forRange_snoc (Nat.zero_le n), panics_bind]
    refine ⟨?_, ?_, ?_⟩
    · constructor
      · rintro (hpanic | ⟨s, hs, hpanic⟩)
        · obtain ⟨i, hi, hbefore⟩ := hpanics.mp hpanic
          exact ⟨i, by omega, hbefore⟩
        · obtain ⟨hwraps, -⟩ := readEntry_spec (hstate s hs).1 (hstate s hs).2
          exact ⟨n, by omega, hreads.mp ⟨s, hs⟩, hwraps.mp hpanic⟩
      · rintro ⟨i, hi, hbefore, hwrap⟩
        by_cases hlast : i < n
        · exact .inl (hpanics.mpr ⟨i, hlast, hbefore, hwrap⟩)
        · obtain rfl : i = n := by omega
          obtain ⟨s, hs⟩ := hreads.mpr hbefore
          exact .inr ⟨s, hs, (readEntry_spec (hstate s hs).1 (hstate s hs).2).1.mpr hwrap⟩
    · constructor
      · rintro ⟨u, hu⟩ i hi
        obtain ⟨s, hs, hu⟩ := Report.bind_eq_ok.mp hu
        by_cases hlast : i < n
        · exact hreads.mp ⟨s, hs⟩ i hlast
        · obtain rfl : i = n := by omega
          exact (readEntry_spec (hstate s hs).1 (hstate s hs).2).2.1.mp ⟨u, hu⟩
      · intro hall
        obtain ⟨s, hs⟩ := hreads.mpr fun i hi => hall i (by omega)
        obtain ⟨u, hu⟩ := (readEntry_spec (hstate s hs).1 (hstate s hs).2).2.1.mpr (hall n (by omega))
        exact ⟨u, Report.bind_eq_ok.mpr ⟨s, hs, hu⟩⟩
    · intro u hu
      obtain ⟨s, hs, hu⟩ := Report.bind_eq_ok.mp hu
      exact (readEntry_spec (hstate s hs).1 (hstate s hs).2).2.2 u hu

/-- The number of entries of the directory at `off`. -/
def entryCount (t : Slice UInt8) (off : Nat) : Nat := t.beAt off (off + 2)

/-- The directory at `off` wraps around where its count ends, or in an entry behind entries that are read. -/
def IfdWraps (t : Slice UInt8) (off : Nat) : Prop :=
  off + 2 ≤ t.len ∧ (2 ^ 32 ≤ off + 2 ∨
    ∃ i < entryCount t off, (∀ j < i, EntryReads t off j) ∧ EntryWraps t off i)

/-- All entries of the directory at `off` are read, and its GPS directory is at `gpsOff`. -/
def IfdPoints (t : Slice UInt8) (off gpsOff : Nat) : Prop :=
  off + 2 ≤ t.len ∧ off + 2 < 2 ^ 32 ∧ (∀ i < entryCount t off, EntryReads t off i) ∧
    gpsPointer t off (entryCount t off) = gpsOff

theorem readIFD_spec (hoff : off < 2 ^ 32) :
    (Panics (readIFD t off) ↔ IfdWraps t off) ∧
      ∀ gpsOff, (∃ ifd, readIFD t off = .ok (ifd, gpsOff)) ↔ IfdPoints t off gpsOff := by
  have hcap := t.len_le_cap
  obtain ⟨hpanics, hreads, hstate⟩ := readEntries_spec t off (entryCount t off)
  rw [readIFD]
  by_cases hlen : t.len < off + 2
  · rw [if_pos hlen]
    exact ⟨⟨nofun, fun h => absurd h.1 (by omega)⟩, fun g => ⟨nofun, fun h => absurd h.1 (by omega)⟩⟩
  rw [if_neg hlen]
  by_cases hwrap : 2 ^ 32 ≤ off + 2
  · have hslice : (t.slice off ((off + 2) % 2 ^ 32) : Run FixtureError (Slice UInt8)) = crash := if_neg (by omega)
    rw [hslice]
    exact ⟨⟨fun _ => ⟨by omega, .inl hwrap⟩, fun _ => rfl⟩, fun g => ⟨nofun, fun h => absurd h.2.1 (by omega)⟩⟩
  rw [Nat.mod_eq_of_lt (by omega), Slice.beUint_bind (by omega) (by omega) (by omega), ← entryCount, panics_bind_pure,
    hpanics]
  refine ⟨⟨fun h => ⟨by omega, .inr h⟩, fun h => h.2.resolve_left hwrap⟩, fun gpsOff => ?_⟩
  constructor
  · rintro ⟨ifd, h⟩
    obtain ⟨s, hs, h⟩ := Report.bind_eq_ok.mp h
    cases h
    exact ⟨by omega, by omega, hreads.mp ⟨s, hs⟩, (hstate s hs).2.symm⟩
  · rintro ⟨-, -, hall, rfl⟩
    obtain ⟨s, hs⟩ := hreads.mpr hall
    refine ⟨s.values, Report.bind_eq_ok.mpr ⟨s, hs, ?_⟩⟩
    rw [← (hstate s hs).2]
    rfl

theorem len_of_ifdWraps (h : IfdWraps t off) : 2 ^ 32 ≤ t.len := by
  obtain ⟨hlen, hwrap | ⟨i, -, -, size, ⟨-, -, -, hle⟩, hfour, hge⟩⟩ := h
  · omega
  · have := hle hfour
    omega

theorem gpsPointer_lt {n : Nat} (h : ∀ i < n, EntryReads t off i) : gpsPointer t off n < 2 ^ 32 := by
  have hcap := t.len_le_cap
  induction n with
  | zero =>
    rw [gpsPointer]
    omega
  | succ n ih =>
    obtain ⟨size, ⟨hfits, -⟩, -⟩ := h n (by omega)
    rw [gpsPointer]
    split_ifs
    · exact Slice.beAt_lt (show off + 2 + n * 12 + 12 - (off + 2 + n * 12 + 8) = 4 by omega) (by omega)
    · exact ih fun i hi => h i (by omega)

end Directories

/-! ## The segment -/

/-- A segment that holds a big-endian TIFF structure. -/
def IsExif (app1 : Slice UInt8) : Prop :=
  14 ≤ app1.len ∧ (app1.sub 0 6).data = ascii "Exif" ++ [0, 0] ∧
    ((app1.sub 6 app1.len).sub 0 2).data = ascii "MM" ∧ (app1.sub 6 app1.len).beAt 2 4 = 0x002A

theorem panics_tiffHeader_bind {α : Type} {app1 : Slice UInt8} {f : Slice UInt8 × Nat → Run FixtureError α} :
    Panics (tiffHeader app1 >>= f) ↔
      IsExif app1 ∧ Panics (f (app1.sub 6 app1.len, (app1.sub 6 app1.len).beAt 4 8)) := by
  have hcap := app1.len_le_cap
  rw [tiffHeader, panics_check_bind, Nat.not_lt, IsExif, and_assoc]
  refine and_congr_right fun hlen => ?_
  have htlen : (app1.sub 6 app1.len).len = app1.len - 6 := Slice.len_sub (by omega)
  have htcap := (app1.sub 6 app1.len).len_le_cap
  rw [Slice.slice_bind (by omega) (by omega), panics_check_bind, not_not, and_assoc]
  refine and_congr_right fun _ => ?_
  rw [Slice.sliceFrom, Slice.slice_bind (by omega) (by omega), Slice.slice_bind (by omega) (by omega),
    panics_check_bind, not_not, and_assoc]
  refine and_congr_right fun _ => ?_
  rw [Slice.beUint_bind (by omega) (by omega) (by omega), panics_check_bind, not_not]
  refine and_congr_right fun _ => ?_
  rw [Slice.beUint_bind (by omega) (by omega) (by omega), pure_bind]

/-- The first directory of an EXIF segment wraps around, or the GPS directory that it points to. -/
def ExifWraps (app1 : Slice UInt8) : Prop :=
  IsExif app1 ∧ (IfdWraps (app1.sub 6 app1.len) ((app1.sub 6 app1.len).beAt 4 8) ∨
    ∃ gpsOff, IfdPoints (app1.sub 6 app1.len) ((app1.sub 6 app1.len).beAt 4 8) gpsOff ∧ gpsOff ≠ 0 ∧
      IfdWraps (app1.sub 6 app1.len) gpsOff)

theorem panics_parseEXIF {app1 : Slice UInt8} : Panics (parseEXIF app1) ↔ ExifWraps app1 := by
  rw [parseEXIF, panics_tiffHeader_bind, ExifWraps]
  refine and_congr_right fun hexif => ?_
  have htlen : (app1.sub 6 app1.len).len = app1.len - 6 := Slice.len_sub app1.len_le_cap
  have htcap := (app1.sub 6 app1.len).len_le_cap
  have hlen := hexif.1
  generalize app1.sub 6 app1.len = t at htlen htcap
  have hoff : t.beAt 4 8 < 256 ^ 4 := Slice.beAt_lt (by omega) (by omega)
  generalize t.beAt 4 8 = off at hoff
  obtain ⟨hwraps, hpoints⟩ := @readIFD_spec t off hoff
  dsimp only
  rw [panics_bind, hwraps]
  refine or_congr_right ?_
  have hgps : ∀ gpsOff, IfdPoints t off gpsOff → (Panics (readIFD t gpsOff) ↔ IfdWraps t gpsOff) := by
    rintro gpsOff ⟨-, -, hall, rfl⟩
    exact (readIFD_spec (gpsPointer_lt hall)).1
  constructor
  · rintro ⟨⟨ifd0, gpsOff⟩, hifd, hpanic⟩
    have hpoint := (hpoints gpsOff).mp ⟨ifd0, hifd⟩
    rw [panics_check, panics_bind_pure, panics_wrap, hgps gpsOff hpoint] at hpanic
    exact ⟨gpsOff, hpoint, hpanic⟩
  · rintro ⟨gpsOff, hpoint, hpanic⟩
    obtain ⟨ifd0, hifd⟩ := (hpoints gpsOff).mpr hpoint
    refine ⟨(ifd0, gpsOff), hifd, ?_⟩
    rw [panics_check, panics_bind_pure, panics_wrap, hgps gpsOff hpoint]
    exact hpanic

theorem not_panics_parseEXIF {app1 : Slice UInt8} (h : app1.len < 2 ^ 32) : ¬ Panics (parseEXIF app1) := by
  rw [panics_parseEXIF]
  have htlen : (app1.sub 6 app1.len).len = app1.len - 6 := Slice.len_sub app1.len_le_cap
  rintro ⟨-, hwraps | ⟨gpsOff, -, -, hwraps⟩⟩
  · have := len_of_ifdWraps hwraps
    omega
  · have := len_of_ifdWraps hwraps
    omega

/-! ## The verifiers -/

section Verifiers

variable {D : Decoders} {b : Slice UInt8}

/-- A file of the fixture's size whose first segment holds an EXIF structure with an orientation of fewer than the two
bytes that are read of it. -/
def ShortOrientation (b : Slice UInt8) : Prop :=
  ∃ info, scanJPEG b = .ok info ∧ ∃ app1, info.app1 = some app1 ∧ ¬ (info.w ≠ 64 ∨ info.h ≠ 48) ∧
    (b.sub 2 4).data = [0xFF, 0xE1] ∧ ∃ d, parseEXIF app1 = .ok d ∧
      ∃ o, d.ifd0.lookup tagOrientation = some o ∧ o.len < 2

theorem panics_firstAPP1_bind {α : Type} {info : JpegInfo} {f : Slice UInt8 → Run FixtureError α}
    (h : scanJPEG b = .ok info) :
    Panics (firstAPP1 b info >>= f) ↔ ∃ app1, info.app1 = some app1 ∧ ¬ (info.w ≠ 64 ∨ info.h ≠ 48) ∧
      (b.sub 2 4).data = [0xFF, 0xE1] ∧ Panics (f app1) := by
  have hcap := b.len_le_cap
  rw [firstAPP1]
  cases happ1 : info.app1 with
  | none => exact ⟨nofun, nofun⟩
  | some a =>
    obtain ⟨-, hsix⟩ := app1_of_scanJPEG h happ1
    dsimp only
    rw [panics_check_bind, Slice.slice_bind (by omega) (by omega), panics_check_bind, not_not, pure_bind]
    constructor
    · intro hpanic
      exact ⟨a, rfl, hpanic⟩
    · rintro ⟨app1, ha, hpanic⟩
      cases ha
      exact hpanic

theorem not_panics_verifyGPS (gps : List (Nat × Slice UInt8)) (wants : List (Nat × Bytes)) :
    ¬ Panics (verifyGPS gps wants) := by
  induction wants with
  | nil => exact not_panics_pure _
  | cons want wants ih =>
    obtain ⟨tag, name⟩ := want
    rw [verifyGPS]
    cases gps.lookup tag with
    | none => exact not_panics_fail _
    | some v => exact not_panics_check fun _ => ih

theorem panics_verifyTags {d : ExifDump} :
    Panics (verifyTags D b d) ↔ ∃ o, d.ifd0.lookup tagOrientation = some o ∧ o.len < 2 := by
  rw [verifyTags]
  cases d.ifd0.lookup tagOrientation with
  | none => exact ⟨fun h => absurd h (not_panics_fail _), nofun⟩
  | some o =>
    dsimp only
    rw [panics_bind]
    constructor
    · rintro (hpanic | ⟨got, -, hpanic⟩)
      · refine ⟨o, rfl, ?_⟩
        by_contra htwo
        rw [Slice.beUint, if_pos (by omega)] at hpanic
        exact absurd hpanic (not_panics_ok _)
      · refine absurd hpanic (not_panics_check fun _ => ?_)
        refine not_panics_bind (not_panics_verifyGPS _ _) fun _ _ => ?_
        exact not_panics_check fun _ => not_panics_lift _
    · rintro ⟨o', ho, hshort⟩
      cases ho
      refine .inl ?_
      rw [Slice.beUint, if_neg (by omega)]
      exact panics_crash

theorem panics_verifyOrientationGPSJPEG : Panics (verifyOrientationGPSJPEG D b) ↔ ShortOrientation b := by
  refine (panics_bind_of_not (not_panics_scanJPEG b)).trans (exists_congr fun info => and_congr_right fun hinfo => ?_)
  rw [panics_firstAPP1_bind hinfo]
  refine exists_congr fun app1 => and_congr_right fun happ1 => and_congr_right fun _ => and_congr_right fun _ => ?_
  have hshort := (app1_of_scanJPEG hinfo happ1).1
  rw [panics_bind_of_not (not_panics_parseEXIF (by omega))]
  exact exists_congr fun d => and_congr_right fun _ => panics_verifyTags

theorem not_panics_verifyTruncatedJPEG : ¬ Panics (verifyTruncatedJPEG D b) := by
  refine not_panics_bind (not_panics_scanJPEG b) fun info _ => not_panics_check fun _ => ?_
  refine not_panics_check fun _ => ?_
  cases D.jpegDecode b.data with
  | ok _ => exact not_panics_fail _
  | error e => exact not_panics_check fun _ => not_panics_pure _

theorem not_panics_verifyBudgetJPEG : ¬ Panics (verifyBudgetJPEG D b) := by
  refine not_panics_bind (not_panics_scanJPEG b) fun info _ => not_panics_check fun _ => ?_
  refine not_panics_check fun _ => ?_
  refine not_panics_check fun _ => ?_
  refine not_panics_check fun _ => ?_
  refine not_panics_check fun _ => ?_
  refine not_panics_bind (not_panics_lift _) fun cfg _ => ?_
  exact not_panics_check fun _ => not_panics_pure _

end Verifiers

end Vizra.Fixtures
