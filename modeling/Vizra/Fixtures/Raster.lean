import Vizra.GoStd.Grid

/-!
# The synthetic scene (`internal/fixtures/raster.go`)

The generator of pseudo-random numbers and the three passes over a flat buffer. No error can occur; an index out of
range or a remainder by zero panics.
-/

namespace Vizra.Fixtures

open Go Go.Run

structure Lcg where
  s : UInt64

def Lcg.advance (s : UInt64) : UInt64 := s * 6364136223846793005 + 1442695040888963407

def newLCG (seed : UInt64) : Lcg := ⟨Lcg.advance seed⟩

def Lcg.next (l : Lcg) : Lcg := ⟨Lcg.advance l.s⟩

/-- A value below `max`. -/
def Lcg.n (l : Lcg) (max : Nat) : Run Empty (Nat × Lcg) :=
  if max = 0 then crash else .ok ((l.next.s.toNat >>> 33) % max, l.next)

def noiseLen : Nat := 4096

def noiseMask : Nat := noiseLen - 1

/-- The entries of the noise field that are still to be drawn; each is stored as an `int8`. -/
def drawNoise : Nat → Lcg → Run Empty (List Int × Lcg)
  | 0, r => pure ([], r)
  | k + 1, r => do
    let (v, r) ← r.n 17
    let (noise, r) ← drawNoise k r
    pure (Int.bmod ((v : Int) - 8) 256 :: noise, r)

structure Block where
  x0 : Nat
  y0 : Nat
  x1 : Nat
  y1 : Nat
  cr : Nat
  cg : Nat
  cb : Nat

def drawBlock (w h : Nat) (r : Lcg) : Run Empty (Block × Lcg) := do
  let (x0, r) ← r.n w
  let (y0, r) ← r.n h
  let (dw, r) ← r.n (w / 6 + 1)
  let (dh, r) ← r.n (h / 6 + 1)
  let bw := 1 + dw
  let bh := 1 + dh
  let x1 := if x0 + bw > w then w else x0 + bw
  let y1 := if y0 + bh > h then h else y0 + bh
  let (cr, r) ← r.n 256
  let (cg, r) ← r.n 256
  let (cb, r) ← r.n 256
  pure (⟨x0, y0, x1, y1, cr, cg, cb⟩, r)

def drawBlocks (w h : Nat) : Nat → Lcg → Run Empty (List Block × Lcg)
  | 0, r => pure ([], r)
  | k + 1, r => do
    let (b, r) ← drawBlock w h r
    let (blocks, r) ← drawBlocks w h k r
    pure (b :: blocks, r)

/-- A pixel of a row that starts at `row` and has the green `cg`. -/
def gradientPixel (w h row y : Nat) (cg : UInt8) (base : Bytes) (x : Nat) : Run Empty Bytes := do
  let i := row + x * 3
  let base ← store base i (UInt8.ofNat (40 + 200 * x / w))
  let base ← store base (i + 1) cg
  store base (i + 2) (UInt8.ofNat (60 + 150 * (x + y) / (w + h)))

def gradientPass (w h : Nat) (base : Bytes) : Run Empty Bytes :=
  forRange 0 h (fun base y =>
    let cg := UInt8.ofNat (30 + 180 * y / h)
    let row := y * w * 3
    forRange 0 w (gradientPixel w h row y cg) base) base

/-- `base[i] = uint8((int(base[i]) + c) / 2)`. -/
def average (base : Bytes) (i c : Nat) : Run Empty Bytes := do
  let v ← load base i
  store base i (UInt8.ofNat ((v.toNat + c) / 2))

def blockPixel (b : Block) (row : Nat) (base : Bytes) (x : Nat) : Run Empty Bytes := do
  let i := row + x * 3
  let base ← average base i b.cr
  let base ← average base (i + 1) b.cg
  average base (i + 2) b.cb

def blockPass (w : Nat) (base : Bytes) (b : Block) : Run Empty Bytes :=
  forRange b.y0 b.y1 (fun base y =>
    let row := y * w * 3
    forRange b.x0 b.x1 (blockPixel b row) base) base

def clamp8 (v : Int) : UInt8 := if v < 0 then 0 else if v > 255 then 255 else UInt8.ofNat v.toNat

def noiseAt (noise : List Int) (i : Nat) : Run Empty Int :=
  match noise[i]? with
  | some v => .ok v
  | none => crash

/-- The pixel at column `x`, with the walk through the noise field. -/
def noisePixel (base : Bytes) (noise : List Int) (row pixRow : Nat) (s : Bytes × Nat) (x : Nat) :
    Run Empty (Bytes × Nat) := do
  let i := row + x * 3
  let nz ← noiseAt noise s.2
  let ni := (s.2 + 17) &&& noiseMask
  let p := pixRow + x * 4
  let pix ← store s.1 p (clamp8 ((← load base i).toNat + nz))
  let pix ← store pix (p + 1) (clamp8 ((← load base (i + 1)).toNat + nz))
  let pix ← store pix (p + 2) (clamp8 ((← load base (i + 2)).toNat - nz))
  let pix ← store pix (p + 3) 255
  pure (pix, ni)

structure RGBA where
  pix : Bytes
  stride : Nat

def noisePass (w h stride : Nat) (base : Bytes) (noise : List Int) (pix : Bytes) : Run Empty Bytes :=
  forRange 0 h (fun pix y => do
    let row := y * w * 3
    let pixRow := y * stride
    let ni := (y * 31) &&& noiseMask
    let s ← forRange 0 w (noisePixel base noise row pixRow) (pix, ni)
    pure s.1) pix

def scene (w h : Nat) (seed : UInt64) : Run Empty RGBA := do
  let stride := 4 * w
  let pix := List.replicate (h * stride) 0
  let (noise, r) ← drawNoise noiseLen (newLCG seed)
  let (blocks, _) ← drawBlocks w h 24 r
  let base ← gradientPass w h (List.replicate (w * h * 3) 0)
  let base ← blocks.foldlM (blockPass w) base
  let pix ← noisePass w h stride base noise pix
  pure ⟨pix, stride⟩

/-- The bytes of a pixel. -/
def RGBA.at (img : RGBA) (x y : Nat) : List (Option UInt8) :=
  (List.range 4).map fun ch => img.pix[y * img.stride + x * 4 + ch]?

end Vizra.Fixtures
