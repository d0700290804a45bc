import Vizra.Fixtures.Corpus
import Vizra.Fixtures.Decoders

/-!
# PNG fixtures (`internal/fixtures/png.go`)

The chunk writer, the chunk walker and the three verifiers. The builders of the images are left out.
-/

namespace Vizra.Fixtures

open Go Go.Run

def pngMagic : Bytes := [0x89, 0x50, 0x4E, 0x47, 0x0D, 0x0A, 0x1A, 0x0A]

/-- One chunk: length, type, data, and the checksum of type and data. -/
def pngChunk (D : Decoders) (typ data : Bytes) : Bytes :=
  putBE 4 data.length ++ typ ++ data ++ putBE 4 (D.checksumIEEE (typ ++ data)).toNat

structure PngHeader where
  w : Nat
  h : Nat
  bitDepth : UInt8
  colorType : UInt8
  idat : Bytes

/-- The state of the walk over the chunks. -/
structure PngScan where
  i : Nat
  seenIHDR : Bool
  h : PngHeader

/-- The chunk at an offset: its type, its data and the length it declares. -/
def pngChunkAt (D : Decoders) (b : Slice UInt8) (i : Nat) : Run FixtureError (Bytes × Slice UInt8 × Nat) := do
  let n ← (← b.slice i (i + 4)).beUint 4
  let typ ← b.slice (i + 4) (i + 8)
  if b.len < i + 12 + n then fail (.chunkPastEnd typ.data)
  else
    let data ← b.slice (i + 8) (i + 8 + n)
    let wantCRC ← (← b.slice (i + 8 + n) (i + 12 + n)).beUint 4
    let summed ← b.slice (i + 4) (i + 8 + n)
    if (D.checksumIEEE summed.data).toNat ≠ wantCRC then fail (.badCRC typ.data)
    else pure (typ.data, data, n)

/-- The fields of an `IHDR` chunk. -/
def readIHDR (h : PngHeader) (data : Slice UInt8) : Run FixtureError PngHeader := do
  let width ← (← data.slice 0 4).beUint 4
  let height ← (← data.slice 4 8).beUint 4
  let bitDepth ← data.index 8
  let colorType ← data.index 9
  pure { h with w := width, h := height, bitDepth, colorType }

/-- What the walk does with a chunk. -/
def readPNGChunk (s : PngScan) (typ : Bytes) (data : Slice UInt8) (n : Nat) :
    Run FixtureError (PngScan ⊕ PngHeader) :=
  if typ = ascii "IHDR" then do
    let h ← readIHDR s.h data
    pure (.inl ⟨s.i + (12 + n), true, h⟩)
  else if typ = ascii "IDAT" then
    pure (.inl ⟨s.i + (12 + n), s.seenIHDR, { s.h with idat := s.h.idat ++ data.data }⟩)
  else if typ = ascii "IEND" then
    if s.seenIHDR then pure (.inr s.h) else fail .iendBeforeIHDR
  else pure (.inl ⟨s.i + (12 + n), s.seenIHDR, s.h⟩)

def scanPNGStep (D : Decoders) (b : Slice UInt8) (s : PngScan) : Run FixtureError (PngScan ⊕ PngHeader) :=
  if s.i + 8 ≤ b.len then do
    let (typ, data, n) ← pngChunkAt D b s.i
    readPNGChunk s typ data n
  else fail .noIEND

theorem readPNGChunk_next {s t : PngScan} {typ : Bytes} {data : Slice UInt8} {n : Nat}
    (h : readPNGChunk s typ data n = .ok (.inl t)) : typ ≠ ascii "IEND" ∧ t.i = s.i + (12 + n) := by
  rw [readPNGChunk] at h
  split_ifs at h with hihdr hidat hiend hseen
  · obtain ⟨h', -, h⟩ := Report.bind_eq_ok.mp h
    cases h
    exact ⟨by rw [hihdr]; decide, rfl⟩
  · cases h
    exact ⟨by rw [hidat]; decide, rfl⟩
  · cases h
  · cases h
  · cases h
    exact ⟨hiend, rfl⟩

theorem scanPNGStep_next {D : Decoders} {b : Slice UInt8} {s t : PngScan} (h : scanPNGStep D b s = .ok (.inl t)) :
    s.i + 8 ≤ b.len ∧ ∃ typ data n, pngChunkAt D b s.i = .ok (typ, data, n) ∧
      readPNGChunk s typ data n = .ok (.inl t) := by
  rw [scanPNGStep] at h
  by_cases hlen : s.i + 8 ≤ b.len
  · rw [if_pos hlen] at h
    obtain ⟨⟨typ, data, n⟩, hchunk, h⟩ := Report.bind_eq_ok.mp h
    exact ⟨hlen, typ, data, n, hchunk, h⟩
  · rw [if_neg hlen] at h
    cases h

def scanPNGLoop (D : Decoders) (b : Slice UInt8) : Loop FixtureError PngScan PngHeader where
  step := scanPNGStep D b
  size s := b.len - s.i
  decreases h := by
    obtain ⟨hlen, typ, data, n, -, hread⟩ := scanPNGStep_next h
    have := (readPNGChunk_next hread).2
    omega

def scanPNG (D : Decoders) (b : Slice UInt8) : Run FixtureError PngHeader :=
  if b.len < 8 ∨ b.data.take 8 ≠ pngMagic then fail .notPNG
  else (scanPNGLoop D b).run ⟨8, false, ⟨0, 0, 0, 0, []⟩⟩

def verifyAlphaPNG (D : Decoders) (b : Slice UInt8) : Run FixtureError Unit := do
  let h ← scanPNG D b
  if h.colorType ≠ 6 ∨ h.bitDepth ≠ 8 then fail (.colourType h.colorType h.bitDepth)
  else
    let alphas ← decoded .decode (D.pngDecode b.data)
    let sawZero := alphas.any fun a => a == 0
    let sawOpaque := alphas.any fun a => a == 0xFFFF
    let sawPartial := alphas.any fun a => a != 0 && a != 0xFFFF
    if !sawZero || !sawPartial || !sawOpaque then fail (.alphaCoverage sawZero sawPartial sawOpaque)
    else pure ()

def verifyOversizedPNG (D : Decoders) (b : Slice UInt8) : Run FixtureError Unit := do
  let h ← scanPNG D b
  if (h.w : Int) ≠ oversizedDim ∨ (h.h : Int) ≠ oversizedDim then fail (.declares h.w h.h oversizedDim)
  else if h.w * h.h ≠ 900000000 then fail (.declaredPixels (h.w * h.h))
  else if b.len > 512 * 1024 then fail (.fileSize b.len)
  else
    let cfg ← decoded .configMustSucceed (D.pngConfig b.data)
    if cfg.1 ≠ oversizedDim ∨ cfg.2 ≠ oversizedDim then fail (.configReports cfg.1 cfg.2)
    else pure ()

def verifyBombPNG (D : Decoders) (b : Slice UInt8) : Run FixtureError Unit := do
  let h ← scanPNG D b
  if (h.w : Int) ≠ bombDim ∨ (h.h : Int) ≠ bombDim then fail (.declares h.w h.h bombDim)
  else if h.w * h.h > 20000000 then fail (.declaredPixels (h.w * h.h))
  else
    let n ← decoded .decode (D.inflate h.idat)
    let want := bombDim * (1 + bombDim * 4)
    if (n : Int) ≠ want then fail (.inflatesTo n want)
    else if n < 64 <<< 20 then fail (.rasterSize n)
    else if h.idat.length = 0 then crash -- the division of the next line
    else if n / h.idat.length < 500 then fail (.expansion (n / h.idat.length))
    else pure ()

end Vizra.Fixtures
