import Vizra.Fixtures.Decoders

/-!
# The animated WebP fixture (`internal/fixtures/webp.go`)

The bit writer and the bit reader of VP8L, frames of one colour, the RIFF container, the builder of the fixture and
its verifier. A `uint32` is a vector of 32 bits: a shift by more than its width leaves nothing of it.
-/

namespace Vizra.Fixtures

open Go Go.Run

/-! ## Bits -/

structure BitWriter where
  buf : Bytes
  cur : BitVec 32
  n : Nat

namespace BitWriter

def init : BitWriter := ⟨[], 0, 0⟩

/-- One round of `write`, for one bit in the lowest place. -/
def writeBit (w : BitWriter) (bit : BitVec 32) : BitWriter :=
  let cur := w.cur ||| bit <<< w.n
  if w.n + 1 = 8 then ⟨w.buf ++ [UInt8.ofNat cur.toNat], 0, 0⟩ else ⟨w.buf, cur, w.n + 1⟩

def write (w : BitWriter) (v : BitVec 32) (bits : Nat) : BitWriter :=
  (List.range bits).foldl (fun w i => w.writeBit (v >>> i &&& 1)) w

def bytes (w : BitWriter) : Bytes := if 0 < w.n then w.buf ++ [UInt8.ofNat w.cur.toNat] else w.buf

end BitWriter

structure BitReader where
  b : Slice UInt8
  pos : Nat
  err : Option FixtureError

namespace BitReader

/-- The loop of `read` from bit `i` on, of which `k` are left: the value, and whether the stream has ended. -/
def readFrom (r : BitReader) : Nat → Nat → BitVec 32 → Run FixtureError (BitVec 32 × Bool)
  | 0, _, v => pure (v, false)
  | k + 1, i, v =>
    let byteIdx := (r.pos + i) / 8
    if r.b.len ≤ byteIdx then pure (v, true)
    else do
      let c ← r.b.index byteIdx
      let bit := (BitVec.ofNat 32 c.toNat >>> ((r.pos + i) % 8)) &&& 1
      readFrom r k (i + 1) (v ||| bit <<< i)

def read (r : BitReader) (bits : Nat) : Run FixtureError (BitVec 32 × BitReader) := do
  let (v, ended) ← r.readFrom bits 0 0
  if ended then pure (v, { r with err := some .vp8lEnded }) else pure (v, { r with pos := r.pos + bits })

end BitReader

/-! ## A lossless frame of one colour -/

def vp8lSignature : UInt8 := 0x2F

/-- A code of one symbol, stored in 8 bits. -/
def BitWriter.simple (bw : BitWriter) (symbol : UInt8) : BitWriter :=
  (((bw.write 1 1).write 0 1).write 1 1).write (BitVec.ofNat 32 symbol.toNat) 8

def vp8lSolid (w h : Int) (c : NRGBA) : Except FixtureError Bytes :=
  if w < 1 ∨ h < 1 ∨ w > 1 <<< 14 ∨ h > 1 <<< 14 then .error (.vp8lDimensions w h)
  else
    let bw := (BitWriter.init.write (BitVec.ofInt 32 (w - 1)) 14).write (BitVec.ofInt 32 (h - 1)) 14
    let bw := if c.a < 0xFF then bw.write 1 1 else bw.write 0 1
    let bw := bw.write 0 3
    let bw := ((bw.write 0 1).write 0 1).write 0 1
    let bw := ((((bw.simple c.g).simple c.r).simple c.b).simple c.a).simple 0
    .ok (vp8lSignature :: bw.bytes)

/-- The loop over the five codes from number `i` on, of which `k` are left. -/
def readSymbols : Nat → Nat → BitReader → Run FixtureError (List (BitVec 32) × BitReader)
  | 0, _, r => pure ([], r)
  | k + 1, i, r => do
    let (isSimple, r) ← r.read 1
    if isSimple ≠ 1 then fail (.notSimpleCode i)
    else
      let (n, r) ← r.read 1
      if n ≠ 0 then fail (.symbolCount i (n + 1).toNat)
      else
        let (isByte, r) ← r.read 1
        if isByte ≠ 1 then fail (.notByteSymbol i)
        else
          let (sym, r) ← r.read 8
          let (syms, r) ← readSymbols k (i + 1) r
          pure (sym :: syms, r)

/-- The fields in front of the codes: width, height, and whether alpha is used. -/
def readVP8LHeader (r : BitReader) : Run FixtureError (Nat × Nat × Bool × BitReader) := do
  let (w, r) ← r.read 14
  let (h, r) ← r.read 14
  let (alphaUsed, r) ← r.read 1
  let (v, r) ← r.read 3
  if v ≠ 0 then fail (.vp8lVersion v.toNat)
  else
    let (transform, r) ← r.read 1
    if transform ≠ 0 then fail .vp8lTransform
    else
      let (cache, r) ← r.read 1
      if cache ≠ 0 then fail .vp8lColourCache
      else
        let (metaHuffman, r) ← r.read 1
        if metaHuffman ≠ 0 then fail .vp8lMetaHuffman
        else pure (w.toNat + 1, h.toNat + 1, alphaUsed == 1, r)

def symbolByte (sym : List (BitVec 32)) (i : Nat) : UInt8 := UInt8.ofNat (sym.getD i 0).toNat

def vp8lReadSolid (b : Slice UInt8) : Run FixtureError (Nat × Nat × NRGBA) := do
  if b.len < 6 then fail .notVP8L
  else
    let signature ← b.index 0
    if signature ≠ vp8lSignature then fail .notVP8L
    else
      let (w, h, alphaUsed, r) ← readVP8LHeader ⟨← b.sliceFrom 1, 0, none⟩
      let (sym, r) ← readSymbols 5 0 r
      match r.err with
      | some e => fail e
      | none =>
        let c : NRGBA := ⟨symbolByte sym 1, symbolByte sym 0, symbolByte sym 2, symbolByte sym 3⟩
        if alphaUsed ≠ decide (c.a < 0xFF) then fail (.alphaUsed alphaUsed c.a)
        else pure (w, h, c)

/-! ## The container -/

def riffChunk (fourCC payload : Bytes) : Bytes :=
  fourCC ++ putLE 4 payload.length ++ payload ++ if payload.length % 2 = 1 then [0] else []

def riffFile (body : Bytes) : Bytes := ascii "RIFF" ++ putLE 4 (4 + body.length) ++ ascii "WEBP" ++ body

def put24 (v : Nat) : Bytes := [UInt8.ofNat v, UInt8.ofNat (v >>> 8), UInt8.ofNat (v >>> 16)]

def vp8xAnimation : UInt8 := 0x02

def vp8xAlpha : UInt8 := 0x10

def animatedWebPFrames : List (NRGBA × Nat) :=
  [(⟨0x33, 0x66, 0x99, 0xFF⟩, 120), (⟨0xCC, 0x44, 0x22, 0x80⟩, 120), (⟨0x11, 0xAA, 0x55, 0x40⟩, 160)]

/-- The `ANMF` chunk of a frame. -/
def anmfChunk (dim : Nat) (f : NRGBA × Nat) : Except FixtureError Bytes := do
  let frame ← vp8lSolid dim dim f.1
  let anmf := put24 0 ++ put24 0 ++ put24 (dim - 1) ++ put24 (dim - 1) ++ put24 f.2 ++ [0]
  pure (riffChunk (ascii "ANMF") (anmf ++ riffChunk (ascii "VP8L") frame))

def buildAnimatedWebP : Except FixtureError Bytes := do
  let dim := 32
  let vp8x := [vp8xAnimation ||| vp8xAlpha, 0, 0, 0] ++ put24 (dim - 1) ++ put24 (dim - 1)
  let anim : Bytes := [0, 0, 0, 0] ++ putLE 2 0
  let frames ← animatedWebPFrames.mapM (anmfChunk dim)
  pure (riffFile (riffChunk (ascii "VP8X") vp8x ++ riffChunk (ascii "ANIM") anim ++ frames.flatten))

structure RiffChunkRef where
  fourCC : Bytes
  payload : Slice UInt8

/-- The walk over the chunks: an offset and the chunks so far. -/
def scanRIFFStep (b : Slice UInt8) (s : Nat × List RiffChunkRef) :
    Run FixtureError ((Nat × List RiffChunkRef) ⊕ List RiffChunkRef) :=
  if s.1 + 8 ≤ b.len then do
    let cc ← b.slice s.1 (s.1 + 4)
    let n ← (← b.slice (s.1 + 4) (s.1 + 8)).leUint 4
    if b.len < s.1 + 8 + n then fail (.chunkPastEnd cc.data)
    else
      let payload ← b.slice (s.1 + 8) (s.1 + 8 + n)
      pure (.inl (s.1 + (8 + n) + n % 2, s.2 ++ [⟨cc.data, payload⟩]))
  else pure (.inr s.2)

/-- The length that a chunk at an offset declares. -/
def declaredLength (b : Slice UInt8) (i : Nat) : Nat := b.leAt (i + 4) (i + 8)

/-- The chunk at an offset, where one fits. -/
def chunkAt (b : Slice UInt8) (i : Nat) : RiffChunkRef :=
  ⟨(b.sub i (i + 4)).data, b.sub (i + 8) (i + 8 + declaredLength b i)⟩

/-- No bound of the walk is out of range: a round is what it does to bytes that are there. -/
theorem scanRIFFStep_eq (b : Slice UInt8) (s : Nat × List RiffChunkRef) :
    scanRIFFStep b s =
      if s.1 + 8 ≤ b.len then
        if b.len < s.1 + 8 + declaredLength b s.1 then fail (.chunkPastEnd (chunkAt b s.1).fourCC)
        else .ok (.inl (s.1 + (8 + declaredLength b s.1) + declaredLength b s.1 % 2, s.2 ++ [chunkAt b s.1]))
      else .ok (.inr s.2) := by
  have hcap := b.len_le_cap
  rw [scanRIFFStep]
  by_cases hlen : s.1 + 8 ≤ b.len
  · have hdeclared : b.leAt (s.1 + 4) (s.1 + 8) = declaredLength b s.1 := rfl
    rw [if_pos hlen, if_pos hlen, Slice.slice_bind (by omega) (by omega),
      Slice.leUint_bind (by omega) (by omega) (by omega), hdeclared]
    by_cases hsize : b.len < s.1 + 8 + declaredLength b s.1
    · rw [if_pos hsize, if_pos hsize]
      rfl
    · rw [if_neg hsize, if_neg hsize, Slice.slice_bind (by omega) (by omega)]
      rfl
  · rw [if_neg hlen, if_neg hlen]
    rfl

def scanRIFFLoop (b : Slice UInt8) : Loop FixtureError (Nat × List RiffChunkRef) (List RiffChunkRef) where
  step := scanRIFFStep b
  size s := b.len - s.1
  decreases {s t} h := by
    rw [scanRIFFStep_eq] at h
    split_ifs at h with hlen hsize
    · cases h
    · cases h
      dsimp only
      omega
    · cases h

def scanRIFF (b : Slice UInt8) : Run FixtureError (List RiffChunkRef) := do
  if b.len < 12 then fail .notRIFF
  else
    let riff ← b.slice 0 4
    if riff.data ≠ ascii "RIFF" then fail .notRIFF
    else
      let webp ← b.slice 8 12
      if webp.data ≠ ascii "WEBP" then fail .notRIFF
      else
        let got ← (← b.slice 4 8).leUint 4
        if got ≠ b.len - 8 then fail (.riffSize got (b.len - 8))
        else (scanRIFFLoop b).run (12, [])

/-! ## The verifier -/

/-- The colour of a frame, whose number is `frames`. -/
def frameColour (c : RiffChunkRef) (frames : Nat) : Run FixtureError NRGBA := do
  if c.fourCC ≠ ascii "ANMF" then fail (.chunkAfterANIM c.fourCC)
  else if c.payload.len < 16 + 8 then fail .shortANMF
  else
    let d0 ← c.payload.index 12
    let d1 ← c.payload.index 13
    let d2 ← c.payload.index 14
    if (d0.toNat ||| d1.toNat <<< 8 ||| d2.toNat <<< 16) = 0 then fail (.zeroDuration frames)
    else
      let sub ← c.payload.sliceFrom 16
      let cc ← sub.slice 0 4
      if cc.data ≠ ascii "VP8L" then fail (.frameSubChunk frames cc.data)
      else
        let n ← (← sub.slice 4 8).leUint 4
        if sub.len < 8 + n then fail (.frameSubChunkPastEnd frames)
        else
          let (w, h, col) ← wrap (.frame frames) (vp8lReadSolid (← sub.slice 8 (8 + n)))
          if w ≠ 32 ∨ h ≠ 32 then fail (.frameSize frames w h) else pure col

/-- The loop over the chunks behind `ANIM`, with the number of frames so far. -/
def verifyFrames : List RiffChunkRef → Nat → Run FixtureError Unit
  | [], frames =>
    if frames ≠ animatedWebPFrames.length then fail (.frameCount frames animatedWebPFrames.length) else pure ()
  | c :: chunks, frames => do
    let col ← frameColour c frames
    match animatedWebPFrames[frames]? with
    | none => crash
    | some want => if col ≠ want.1 then fail (.frameColour frames col want.1) else verifyFrames chunks (frames + 1)

def verifyAnimatedWebP (b : Slice UInt8) : Run FixtureError Unit := do
  let chunks ← scanRIFF b
  match chunks with
  | vp8x :: anim :: anmf :: rest =>
    if vp8x.fourCC ≠ ascii "VP8X" then fail (.firstChunk vp8x.fourCC)
    else
      let flags ← vp8x.payload.index 0
      if flags &&& vp8xAnimation = 0 then fail .notAnimated
      else if flags &&& vp8xAlpha = 0 then fail .noAlphaFlag
      else if anim.fourCC ≠ ascii "ANIM" then fail (.secondChunk anim.fourCC)
      else
        let loop ← (← anim.payload.slice 4 6).leUint 2
        if loop ≠ 0 then fail (.loopCount loop) else verifyFrames (anmf :: rest) 0
  | _ => fail (.chunkCount chunks.length)

end Vizra.Fixtures
