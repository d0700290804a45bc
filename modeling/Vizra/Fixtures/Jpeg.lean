import Vizra.Fixtures.Corpus
import Vizra.Fixtures.Decoders

/-!
# JPEG fixtures (`internal/fixtures/jpeg.go`)

The marker walker, the reader of the EXIF structure and the three verifiers. The builders are left out.
-/

namespace Vizra.Fixtures

open Go Go.Run

/-! ## Markers -/

structure JpegInfo where
  app1 : Option (Slice UInt8)
  hasEOI : Bool
  sofCode : UInt8
  w : Nat
  h : Nat
  comps : Nat

/-- The markers `C0` to `CF` that start a frame. -/
def isSOF (m : UInt8) : Bool := 0xC0 ≤ m && m ≤ 0xCF && m != 0xC4 && m != 0xC8 && m != 0xCC

/-- What the walk takes from a segment. -/
def readSegment (info : JpegInfo) (m : UInt8) (seg : Slice UInt8) : Run FixtureError JpegInfo :=
  if m = 0xE1 then pure { info with app1 := some seg }
  else if isSOF m then
    if 6 ≤ seg.len then do
      let h ← (← seg.slice 1 3).beUint 2
      let w ← (← seg.slice 3 5).beUint 2
      let comps ← seg.index 5
      pure { info with sofCode := m, h, w, comps := comps.toNat }
    else pure { info with sofCode := m }
  else pure info

/-- Whether a file ends with the marker of the end of an image. -/
def endsWithEOI (b : Slice UInt8) : Run FixtureError Bool :=
  if 2 ≤ b.len then do
    let c ← b.index (b.len - 2)
    if c = 0xFF then
      let d ← b.index (b.len - 1)
      pure (d == 0xD9)
    else pure false
  else pure false

def scanJPEGStep (b : Slice UInt8) (s : Nat × JpegInfo) : Run FixtureError ((Nat × JpegInfo) ⊕ JpegInfo) :=
  if s.1 + 3 < b.len then do
    let c ← b.index s.1
    if c ≠ 0xFF then fail (.noMarker s.1 c)
    else
      let m ← b.index (s.1 + 1)
      if m = 0xD9 then pure (.inr { s.2 with hasEOI := true })
      else
        let size ← (← b.slice (s.1 + 2) (s.1 + 4)).beUint 2
        if size < 2 ∨ b.len < s.1 + 2 + size then fail .segmentPastEnd
        else
          let seg ← b.slice (s.1 + 4) (s.1 + 2 + size)
          let info ← readSegment s.2 m seg
          if m = 0xDA then
            let hasEOI ← endsWithEOI b
            pure (.inr { info with hasEOI })
          else pure (.inl (s.1 + (2 + size), info))
  else pure (.inr s.2)

/-- A round that ends without a fault keeps what is known, or adds the segment at the offset to it. -/
theorem scanJPEGStep_cases {b : Slice UInt8} {s : Nat × JpegInfo} {r : (Nat × JpegInfo) ⊕ JpegInfo}
    (h : scanJPEGStep b s = .ok r) :
    (∃ hasEOI, r = .inr { s.2 with hasEOI }) ∨ s.1 + 3 < b.len ∧ ∃ m info,
      readSegment s.2 m (b.sub (s.1 + 4) (s.1 + 2 + b.beAt (s.1 + 2) (s.1 + 4))) = .ok info ∧
        ((∃ hasEOI, r = .inr { info with hasEOI }) ∨ r = .inl (s.1 + (2 + b.beAt (s.1 + 2) (s.1 + 4)), info)) := by
  have hcap := b.len_le_cap
  rw [scanJPEGStep] at h
  by_cases hlen : s.1 + 3 < b.len
  · rw [if_pos hlen, Slice.index_bind (by omega)] at h
    obtain ⟨m, -, h⟩ := Report.bind_eq_ok.mp (check_eq_ok.mp h).2
    by_cases hd9 : m = 0xD9
    · rw [if_pos hd9] at h
      cases h
      exact .inl ⟨true, rfl⟩
    · rw [if_neg hd9, Slice.beUint_bind (by omega) (by omega) (by omega)] at h
      obtain ⟨hend, h⟩ := check_eq_ok.mp h
      rw [Slice.slice_bind (by omega) (by omega)] at h
      obtain ⟨info, hinfo, h⟩ := Report.bind_eq_ok.mp h
      refine .inr ⟨hlen, m, info, hinfo, ?_⟩
      by_cases hda : m = 0xDA
      · rw [if_pos hda] at h
        obtain ⟨hasEOI, -, h⟩ := Report.bind_eq_ok.mp h
        cases h
        exact .inl ⟨hasEOI, rfl⟩
      · rw [if_neg hda] at h
        cases h
        exact .inr rfl
  · rw [if_neg hlen] at h
    cases h
    exact .inl ⟨_, rfl⟩

def scanJPEGLoop (b : Slice UInt8) : Loop FixtureError (Nat × JpegInfo) JpegInfo where
  step := scanJPEGStep b
  size s := b.len - s.1
  decreases h := by
    obtain ⟨_, ⟨⟩⟩ | ⟨hlen, m, info, -, ⟨_, ⟨⟩⟩ | ht⟩ := scanJPEGStep_cases h
    cases ht
    dsimp only
    omega

def scanJPEG (b : Slice UInt8) : Run FixtureError JpegInfo :=
  if b.len < 2 then fail .noSOI
  else do
    let c ← b.index 0
    if c ≠ 0xFF then fail .noSOI
    else
      let d ← b.index 1
      if d ≠ 0xD8 then fail .noSOI
      else (scanJPEGLoop b).run (2, ⟨none, false, 0, 0, 0, 0⟩)

/-! ## EXIF -/

def tagOrientation : Nat := 0x0112

def tagGPSIFD : Nat := 0x8825

structure ExifDump where
  ifd0 : List (Nat × Slice UInt8)
  gps : List (Nat × Slice UInt8)

/-- What the loop over the entries of a directory has read: the last tag, the values and the offset of the GPS
directory. -/
structure IfdState where
  prevTag : Int
  values : List (Nat × Slice UInt8)
  gpsOff : Nat

/-- The size of a value in bytes, as a `uint32`. -/
def fieldSize (typ cnt : Nat) : Run FixtureError Nat :=
  if typ = 1 ∨ typ = 2 then pure cnt
  else if typ = 3 then pure (cnt * 2 % 2 ^ 32)
  else if typ = 4 then pure (cnt * 4 % 2 ^ 32)
  else if typ = 5 then pure (cnt * 8 % 2 ^ 32)
  else fail (.fieldType typ)

/-- The value of an entry at `p`. The upper bound of a value that does not stand in the entry is a `uint32`. -/
def entryValue (t : Slice UInt8) (p tag size : Nat) : Run FixtureError (Slice UInt8) :=
  if size ≤ 4 then t.slice (p + 8) (p + 8 + size)
  else do
    let o ← (← t.slice (p + 8) (p + 12)).beUint 4
    if t.len < o + size then fail (.valueOffset tag) else t.slice o ((o + size) % 2 ^ 32)

/-- The offset of the GPS directory, which the entry at `p` may set. -/
def gpsOffset (t : Slice UInt8) (p tag gpsOff : Nat) : Run FixtureError Nat :=
  if tag = tagGPSIFD then do (← t.slice (p + 8) (p + 12)).beUint 4 else pure gpsOff

/-- Entry `i` of the directory at `off`. -/
def readEntry (t : Slice UInt8) (off i : Nat) (s : IfdState) : Run FixtureError IfdState :=
  let p := off + 2 + i * 12
  if t.len < p + 12 then fail .ifdEntry
  else do
    let tag ← (← t.slice p (p + 2)).beUint 2
    if (tag : Int) ≤ s.prevTag then fail (.tagOrder tag)
    else
      let typ ← (← t.slice (p + 2) (p + 4)).beUint 2
      let cnt ← (← t.slice (p + 4) (p + 8)).beUint 4
      let size ← fieldSize typ cnt
      let val ← entryValue t p tag size
      let gpsOff ← gpsOffset t p tag s.gpsOff
      pure ⟨tag, s.values ++ [(tag, val)], gpsOff⟩

/-- The directory at `off`: its values and the offset of the GPS directory. The upper bound of its count is a
`uint32`. -/
def readIFD (t : Slice UInt8) (off : Nat) : Run FixtureError (List (Nat × Slice UInt8) × Nat) :=
  if t.len < off + 2 then fail .ifdOffset
  else do
    let n ← (← t.slice off ((off + 2) % 2 ^ 32)).beUint 2
    let s ← forRange 0 n (fun s i => readEntry t off i s) ⟨-1, [], 0⟩
    pure (s.values, s.gpsOff)

/-- The TIFF structure of a segment, and the offset of its first directory. -/
def tiffHeader (app1 : Slice UInt8) : Run FixtureError (Slice UInt8 × Nat) :=
  if app1.len < 14 then fail .notExif
  else do
    let head ← app1.slice 0 6
    if head.data ≠ ascii "Exif" ++ [0, 0] then fail .notExif
    else
      let t ← app1.sliceFrom 6
      let order ← t.slice 0 2
      if order.data ≠ ascii "MM" then fail .notBigEndianTIFF
      else
        let magic ← (← t.slice 2 4).beUint 2
        if magic ≠ 0x002A then fail .notBigEndianTIFF
        else
          let off ← (← t.slice 4 8).beUint 4
          pure (t, off)

def parseEXIF (app1 : Slice UInt8) : Run FixtureError ExifDump := do
  let (t, off) ← tiffHeader app1
  let (ifd0, gpsOff) ← readIFD t off
  if gpsOff = 0 then fail .noGPSPointer
  else
    let (gps, _) ← wrap .gpsIFD (readIFD t gpsOff)
    pure ⟨ifd0, gps⟩

/-! ## The verifiers -/

def requiredGPS : List (Nat × Bytes) :=
  [(0x0001, ascii "GPSLatitudeRef"), (0x0002, ascii "GPSLatitude"), (0x0003, ascii "GPSLongitudeRef"),
    (0x0004, ascii "GPSLongitude")]

/-- The loop over the tags that the GPS directory must hold. -/
def verifyGPS (gps : List (Nat × Slice UInt8)) : List (Nat × Bytes) → Run FixtureError Unit
  | [] => pure ()
  | (tag, name) :: wants =>
    match gps.lookup tag with
    | none => fail (.noGPSTag name)
    | some v => if v.len = 0 then fail (.noGPSTag name) else verifyGPS gps wants

/-- The checks in front of the EXIF structure, with the segment that holds it. -/
def firstAPP1 (b : Slice UInt8) (info : JpegInfo) : Run FixtureError (Slice UInt8) :=
  match info.app1 with
  | none => fail .noAPP1
  | some app1 =>
    if info.w ≠ 64 ∨ info.h ≠ 48 then fail (.storedDimensions info.w info.h)
    else do
      let marker ← b.slice 2 4
      if marker.data ≠ [0xFF, 0xE1] then fail .app1NotFirst else pure app1

/-- The checks on what the EXIF structure holds. -/
def verifyTags (D : Decoders) (b : Slice UInt8) (d : ExifDump) : Run FixtureError Unit :=
  match d.ifd0.lookup tagOrientation with
  | none => fail .noOrientation
  | some o => do
    let got ← o.beUint 2
    if got ≠ 6 then fail (.orientation got)
    else
      verifyGPS d.gps requiredGPS
      let latitude := (d.gps.lookup 0x0002).elim 0 Slice.len
      if latitude ≠ 24 then fail (.latitudeLength latitude)
      else decoded .doesNotDecode (D.jpegDecode b.data)

def verifyOrientationGPSJPEG (D : Decoders) (b : Slice UInt8) : Run FixtureError Unit := do
  let info ← scanJPEG b
  let app1 ← firstAPP1 b info
  let d ← parseEXIF app1
  verifyTags D b d

def verifyTruncatedJPEG (D : Decoders) (b : Slice UInt8) : Run FixtureError Unit := do
  let info ← scanJPEG b
  if info.sofCode ≠ 0xC0 then fail (.sofCode info.sofCode)
  else if info.hasEOI then fail .hasEOI
  else
    match D.jpegDecode b.data with
    | .ok _ => fail .truncatedDecoded
    | .error e =>
      if !e.isEOF && !(e.text.tails.any fun t => (ascii "short Huffman data").isPrefixOf t) then
        fail (.notTruncation e)
      else pure ()

def verifyBudgetJPEG (D : Decoders) (b : Slice UInt8) : Run FixtureError Unit := do
  let info ← scanJPEG b
  if (info.w : Int) ≠ budgetW ∨ (info.h : Int) ≠ budgetH then fail (.dimensions info.w info.h budgetW budgetH)
  else if info.w * info.h ≠ 12000000 then fail (.pixels (info.w * info.h))
  else if info.sofCode ≠ 0xC0 then fail (.sofCode info.sofCode)
  else if info.comps ≠ 3 then fail (.components info.comps)
  else if b.len < 1 <<< 20 ∨ b.len > 8 <<< 20 then fail (.encodedSize b.len)
  else
    let cfg ← decoded .decode (D.jpegConfig b.data)
    if cfg.1 ≠ budgetW ∨ cfg.2 ≠ budgetH then fail (.configReports cfg.1 cfg.2) else pure ()

end Vizra.Fixtures
