import Vizra.Fixtures.Decoders

/-!
# The MP4 fixture (`internal/fixtures/mp4.go`)

The box writer, the box walker and the verifier. The builder of the file is left out.
-/

namespace Vizra.Fixtures

open Go Go.Run

def mp4Width : Nat := 160

def mp4Height : Nat := 120

def mp4Frames : Nat := 12

/-- One box: its size, its type and its payload. -/
def box (typ payload : Bytes) : Bytes := putBE 4 (8 + payload.length) ++ typ ++ payload

structure Mp4Box where
  typ : Bytes
  payload : Slice UInt8

/-- The walk over the boxes: an offset and the boxes so far. -/
def scanBoxesStep (b : Slice UInt8) (s : Nat × List Mp4Box) : Run FixtureError ((Nat × List Mp4Box) ⊕ List Mp4Box) :=
  if s.1 + 8 ≤ b.len then do
    let size ← (← b.slice s.1 (s.1 + 4)).beUint 4
    let typ ← b.slice (s.1 + 4) (s.1 + 8)
    if size < 8 ∨ b.len < s.1 + size then fail (.boxSize typ.data size s.1)
    else
      let payload ← b.slice (s.1 + 8) (s.1 + size)
      pure (.inl (s.1 + size, s.2 ++ [⟨typ.data, payload⟩]))
  else if s.1 ≠ b.len then fail (.trailingBytes (b.len - s.1))
  else pure (.inr s.2)

/-- The size that a box at an offset declares. -/
def declaredSize (b : Slice UInt8) (i : Nat) : Nat := b.beAt i (i + 4)

/-- The box at an offset, where one fits. -/
def boxAt (b : Slice UInt8) (i : Nat) : Mp4Box :=
  ⟨(b.sub (i + 4) (i + 8)).data, b.sub (i + 8) (i + declaredSize b i)⟩

/-- No bound of the walk is out of range: a round is what it does to bytes that are there. -/
theorem scanBoxesStep_eq (b : Slice UInt8) (s : Nat × List Mp4Box) :
    scanBoxesStep b s =
      if s.1 + 8 ≤ b.len then
        if declaredSize b s.1 < 8 ∨ b.len < s.1 + declaredSize b s.1 then
          fail (.boxSize (boxAt b s.1).typ (declaredSize b s.1) s.1)
        else .ok (.inl (s.1 + declaredSize b s.1, s.2 ++ [boxAt b s.1]))
      else if s.1 ≠ b.len then fail (.trailingBytes (b.len - s.1))
      else .ok (.inr s.2) := by
  have hcap := b.len_le_cap
  rw [scanBoxesStep]
  by_cases hlen : s.1 + 8 ≤ b.len
  · have hdeclared : b.beAt s.1 (s.1 + 4) = declaredSize b s.1 := rfl
    rw [if_pos hlen, if_pos hlen, Slice.beUint_bind (by omega) (by omega) (by omega),
      Slice.slice_bind (by omega) (by omega), hdeclared]
    by_cases hsize : declaredSize b s.1 < 8 ∨ b.len < s.1 + declaredSize b s.1
    · rw [if_pos hsize, if_pos hsize]
      rfl
    · rw [if_neg hsize, if_neg hsize, Slice.slice_bind (by omega) (by omega)]
      rfl
  · rw [if_neg hlen, if_neg hlen]
    rfl

def scanBoxesLoop (b : Slice UInt8) : Loop FixtureError (Nat × List Mp4Box) (List Mp4Box) where
  step := scanBoxesStep b
  size s := b.len - s.1
  decreases {s t} h := by
    rw [scanBoxesStep_eq] at h
    split_ifs at h with hlen hsize
    · cases h
    · cases h
      dsimp only
      omega
    · cases h
    · cases h

def scanBoxes (b : Slice UInt8) : Run FixtureError (List Mp4Box) := (scanBoxesLoop b).run (0, [])

def findBox (boxes : List Mp4Box) (typ : Bytes) : Option Mp4Box := boxes.find? fun bx => bx.typ == typ

/-- The box at the end of a path of container boxes. -/
def descend (b : Slice UInt8) : List Bytes → Run FixtureError Mp4Box
  | [] => fail .emptyPath
  | want :: path => do
    let boxes ← scanBoxes b
    match findBox boxes want with
    | none => fail (.noBox want)
    | some bx => if path = [] then pure bx else descend bx.payload path

def mdiaPath (typ : String) : List Bytes := ["moov", "trak", "mdia", typ].map ascii

def stblPath (typ : String) : List Bytes := ["moov", "trak", "mdia", "minf", "stbl", typ].map ascii

/-! ## The verifier, check by check -/

def verifyBoxOrder (b : Slice UInt8) : Run FixtureError Unit := do
  let boxes ← scanBoxes b
  match boxes with
  | ftyp :: moov :: mdat :: _ =>
    if ftyp.typ ≠ ascii "ftyp" ∨ moov.typ ≠ ascii "moov" ∨ mdat.typ ≠ ascii "mdat" then
      fail (.boxOrder (boxes.map Mp4Box.typ))
    else
      let brand ← ftyp.payload.slice 0 4
      if brand.data ≠ ascii "isom" then fail (.majorBrand brand.data) else pure ()
  | _ => fail (.boxOrder (boxes.map Mp4Box.typ))

def verifyHandler (b : Slice UInt8) : Run FixtureError Unit := do
  let hdlr ← descend b (mdiaPath "hdlr")
  let got ← hdlr.payload.slice 8 12
  if got.data ≠ ascii "vide" then fail (.handlerType got.data) else pure ()

def verifySampleEntry (b : Slice UInt8) : Run FixtureError Unit := do
  let stsd ← descend b (stblPath "stsd")
  let entries ← scanBoxes (← stsd.payload.sliceFrom 8)
  match entries with
  | [entry] =>
    if entry.typ ≠ ascii "jpeg" then fail (.sampleEntry (entries.map Mp4Box.typ))
    else
      let se := entry.payload
      let w ← (← se.slice 24 26).beUint 2
      let h ← (← se.slice 26 28).beUint 2
      if w ≠ mp4Width ∨ h ≠ mp4Height then fail (.sampleEntrySize w h) else pure ()
  | _ => fail (.sampleEntry (entries.map Mp4Box.typ))

/-- The quotient is that of `float64`: two numbers of 32 bits whose quotient is not 0.9 or 1.1 differ from these by
more than it rounds. -/
def verifyDuration (b : Slice UInt8) : Run FixtureError Unit := do
  let mdhd ← descend b (mdiaPath "mdhd")
  let ts ← (← mdhd.payload.slice 12 16).beUint 4
  let dur ← (← mdhd.payload.slice 16 20).beUint 4
  if ts = 0 ∨ dur = 0 then fail (.noDuration ts dur)
  else if 10 * dur < 9 * ts ∨ 11 * ts < 10 * dur then fail (.duration ts dur)
  else pure ()

/-- The number of samples, with the box of their sizes. -/
def sampleSizes (b : Slice UInt8) : Run FixtureError (Slice UInt8) := do
  let stsz ← descend b (stblPath "stsz")
  let count ← (← stsz.payload.slice 8 12).beUint 4
  if count ≠ mp4Frames then fail (.sampleCount count) else pure stsz.payload

/-- The offset of the first sample. -/
def firstSample (b : Slice UInt8) : Run FixtureError Nat := do
  let stco ← descend b (stblPath "stco")
  let off ← (← stco.payload.slice 8 12).beUint 4
  if b.len < off + 8 then fail (.chunkOffset off)
  else if off < 4 then crash -- the lower bound off-8+4 is negative
  else
    let typ ← b.slice (off - 4) off
    if typ.data ≠ ascii "mdat" then fail (.chunkOffset off) else pure off

/-- The loop over the samples from number `i` on, of which there are `k`. -/
def verifySamples (D : Decoders) (b stsz : Slice UInt8) : Nat → Nat → Nat → Run FixtureError Unit
  | 0, _, _ => pure ()
  | k + 1, i, off => do
    let n ← (← stsz.slice (12 + 4 * i) (16 + 4 * i)).beUint 4
    if b.len < off + n then fail (.samplePastEnd i)
    else
      let sample ← b.slice off (off + n)
      decoded (.sampleDecode i) (D.jpegDecode sample.data)
      verifySamples D b stsz k (i + 1) (off + n)

def verifyMP4 (D : Decoders) (b : Slice UInt8) : Run FixtureError Unit := do
  verifyBoxOrder b
  verifyHandler b
  verifySampleEntry b
  verifyDuration b
  let stsz ← sampleSizes b
  let off ← firstSample b
  verifySamples D b stsz mp4Frames 0 off

end Vizra.Fixtures
