import Mathlib.Data.List.DropRight
import Vizra.Fixtures.Mp4

/-!
# The AVIF and WebM fixtures (`internal/fixtures/codec.go`)

The verifiers of the two committed files, over the boxes of ISOBMFF and the elements of EBML.
-/

namespace Vizra.Fixtures

open Go Go.Run

/-! ## AVIF -/

/-- What the loop over the properties has seen: an AV1 configuration, width and height. -/
structure AvifProps where
  sawAV1C : Bool
  w : Nat
  h : Nat

def readProps : List Mp4Box → AvifProps → Run FixtureError AvifProps
  | [], s => pure s
  | p :: props, s =>
    if p.typ = ascii "av1C" then readProps props { s with sawAV1C := true }
    else if p.typ = ascii "ispe" ∧ 12 ≤ p.payload.len then do
      let w ← (← p.payload.slice 4 8).beUint 4
      let h ← (← p.payload.slice 8 12).beUint 4
      readProps props { s with w, h }
    else readProps props s

/-- The checks on the properties of the image. -/
def verifyProps (boxes : List Mp4Box) (metaPayload : Slice UInt8) : Run FixtureError Unit := do
  let ipco ← wrap .ipcoPath (descend (← metaPayload.sliceFrom 4) (["iprp", "ipco"].map ascii))
  let props ← scanBoxes ipco.payload
  let s ← readProps props ⟨false, 0, 0⟩
  if !s.sawAV1C then fail .noAV1C
  else if s.w ≠ 64 ∨ s.h ≠ 64 then fail (.ispe s.w s.h)
  else if (findBox boxes (ascii "mdat")).isNone then fail .noMdat
  else pure ()

def verifyAVIF (b : Slice UInt8) : Run FixtureError Unit := do
  let boxes ← scanBoxes b
  match boxes with
  | ftyp :: _ :: _ =>
    if ftyp.typ ≠ ascii "ftyp" then fail .noFtyp
    else
      let brand ← ftyp.payload.slice 0 4
      if brand.data ≠ ascii "avif" then fail (.avifBrand brand.data)
      else
        match findBox boxes (ascii "meta") with
        | none => fail .noMeta
        | some box => if box.payload.len < 4 then fail .shortMeta else verifyProps boxes box.payload
  | _ => fail .noFtyp

/-! ## EBML -/

structure EbmlReader where
  b : Slice UInt8
  pos : Nat

/-- The place of the highest bit that is set, as the number of bytes it stands for. -/
def vintLen (first : UInt8) : Nat := ((List.range 8).find? fun i => first.toNat &&& 0x80 >>> i != 0).elim 0 (· + 1)

/-- `v<<8 | uint64(c)`. -/
def shiftIn (v : Nat) (c : UInt8) : Nat := (v <<< 8 ||| c.toNat) % 2 ^ 64

/-- The bytes from `pos` on, one by one. -/
def readBytes (b : Slice UInt8) (pos : Nat) : Nat → Run FixtureError (List UInt8)
  | 0 => pure []
  | n + 1 => do
    let c ← b.index pos
    let cs ← readBytes b (pos + 1) n
    pure (c :: cs)

/-- An element size: the number, and whether it says that the size is unknown. -/
def readSize (b : Slice UInt8) (pos sn : Nat) : Run FixtureError (Nat × Bool) := do
  let first ← b.index pos
  let rest ← readBytes b (pos + 1) (sn - 1)
  let size := first.toNat &&& 0xFF >>> sn
  pure (rest.foldl shiftIn size, size == 0xFF >>> sn && rest.all fun c => c == 0xFF)

def EbmlReader.element (r : EbmlReader) : Run FixtureError (Nat × Slice UInt8 × EbmlReader) :=
  if r.b.len ≤ r.pos then fail .endOfStream
  else do
    let n := vintLen (← r.b.index r.pos)
    if n = 0 ∨ r.b.len < r.pos + n then fail .malformedId
    else
      let id := (← readBytes r.b r.pos n).foldl shiftIn 0
      let pos := r.pos + n
      if r.b.len ≤ pos then fail .truncatedSize
      else
        let sn := vintLen (← r.b.index pos)
        if sn = 0 ∨ r.b.len < pos + sn then fail .malformedSize
        else
          let (size, unknown) ← readSize r.b pos sn
          let pos := pos + sn
          if unknown ∨ r.b.len < pos + size then
            let payload ← r.b.sliceFrom pos
            pure (id, payload, ⟨r.b, r.b.len⟩)
          else
            let payload ← r.b.slice pos (pos + size)
            pure (id, payload, ⟨r.b, pos + size⟩)

/-- An element that is read lies behind the position, on which the reader then stands. -/
theorem EbmlReader.element_next {r r' : EbmlReader} {id : Nat} {payload : Slice UInt8}
    (h : r.element = .ok (id, payload, r')) : r'.b = r.b ∧ r.pos < r'.pos := by
  rw [EbmlReader.element] at h
  by_cases hlen : r.b.len ≤ r.pos
  · rw [if_pos hlen] at h
    cases h
  · rw [if_neg hlen] at h
    obtain ⟨first, -, h⟩ := Report.bind_eq_ok.mp h
    by_cases hn : vintLen first = 0 ∨ r.b.len < r.pos + vintLen first
    · rw [if_pos hn] at h
      cases h
    · rw [if_neg hn] at h
      obtain ⟨bytes, -, h⟩ := Report.bind_eq_ok.mp h
      by_cases hpos : r.b.len ≤ r.pos + vintLen first
      · rw [if_pos hpos] at h
        cases h
      · rw [if_neg hpos] at h
        obtain ⟨second, -, h⟩ := Report.bind_eq_ok.mp h
        by_cases hsn : vintLen second = 0 ∨ r.b.len < r.pos + vintLen first + vintLen second
        · rw [if_pos hsn] at h
          cases h
        · rw [if_neg hsn] at h
          obtain ⟨⟨size, unknown⟩, -, h⟩ := Report.bind_eq_ok.mp h
          dsimp only at h
          split_ifs at h
          · obtain ⟨tail, -, h⟩ := Report.bind_eq_ok.mp h
            cases h
            exact ⟨rfl, by dsimp only; omega⟩
          · obtain ⟨tail, -, h⟩ := Report.bind_eq_ok.mp h
            cases h
            exact ⟨rfl, by dsimp only; omega⟩

/-- A round of the search on one level, which an error ends. -/
def findStep (want : Nat) (r : EbmlReader) : Run FixtureError (EbmlReader ⊕ Option (Slice UInt8)) :=
  if r.pos < r.b.len then
    match r.element with
    | .error .panic => crash
    | .error (.error _) => pure (.inr none)
    | .ok (id, payload, r') => if id = want then pure (.inr (some payload)) else pure (.inl r')
  else pure (.inr none)

theorem findStep_next {want : Nat} {r r' : EbmlReader} (h : findStep want r = .ok (.inl r')) :
    r.pos < r.b.len ∧ r'.b = r.b ∧ r.pos < r'.pos := by
  rw [findStep] at h
  by_cases hlen : r.pos < r.b.len
  · rw [if_pos hlen] at h
    cases hel : r.element with
    | error e =>
      rw [hel] at h
      cases e with
      | error e => cases h
      | panic => cases h
    | ok p =>
      rw [hel] at h
      dsimp only at h
      split_ifs at h
      · cases h
      · cases h
        exact ⟨hlen, EbmlReader.element_next hel⟩
  · rw [if_neg hlen] at h
    cases h

def findLoop (want : Nat) : Loop FixtureError EbmlReader (Option (Slice UInt8)) where
  step := findStep want
  size r := r.b.len - r.pos
  decreases h := by
    obtain ⟨hlen, hb, hpos⟩ := findStep_next h
    rw [hb]
    omega

/-- The element at the end of a path of identifiers, the first of which is on level `i`. -/
def findFrom (cur : Slice UInt8) : Nat → List Nat → Run FixtureError (Slice UInt8)
  | _, [] => pure cur
  | i, want :: path => do
    match ← (findLoop want).run ⟨cur, 0⟩ with
    | none => fail (.noElement want i)
    | some found => findFrom found (i + 1) path

def findEBML (b : Slice UInt8) (path : List Nat) : Run FixtureError (Slice UInt8) := findFrom b 0 path

def ebmlHeader : Nat := 0x1A45DFA3

def ebmlDocType : Nat := 0x4282

def ebmlSegment : Nat := 0x18538067

def ebmlTracks : Nat := 0x1654AE6B

def ebmlEntry : Nat := 0xAE

def ebmlCodecID : Nat := 0x86

def ebmlTrackUID : Nat := 0x73C5

def ebmlCluster : Nat := 0x1F43B675

def ebmlSimpleBk : Nat := 0xA3

def ebmlVideo : Nat := 0xE0

def ebmlPixelW : Nat := 0xB0

def ebmlPixelH : Nat := 0xBA

def codecTrackUID : Bytes := [0x56, 0x49, 0x5A, 0x52, 0x41, 0x46, 0x49, 0x58]

def uintFromEBML (b : Slice UInt8) : Nat := b.data.foldl shiftIn 0

/-- `bytes.TrimRight(b, "\x00")`. -/
def trimZeroes (b : Slice UInt8) : Bytes := b.data.rdropWhile (· == 0)

def verifyWebM (b : Slice UInt8) : Run FixtureError Unit := do
  let hdr ← findEBML b [ebmlHeader]
  let dt ← findEBML hdr [ebmlDocType]
  if trimZeroes dt ≠ ascii "webm" then fail (.docType (trimZeroes dt))
  else
    let seg ← findEBML b [ebmlSegment]
    let entry ← findEBML seg [ebmlTracks, ebmlEntry]
    let codec ← findEBML entry [ebmlCodecID]
    if trimZeroes codec ≠ ascii "V_VP8" then fail (.codecID (trimZeroes codec))
    else
      let uid ← findEBML entry [ebmlTrackUID]
      if uid.data ≠ codecTrackUID then fail (.trackUID uid.data)
      else
        let video ← findEBML entry [ebmlVideo]
        let pw ← findEBML video [ebmlPixelW]
        let ph ← findEBML video [ebmlPixelH]
        if uintFromEBML pw ≠ 64 ∨ uintFromEBML ph ≠ 64 then
          fail (.pixelDimensions (uintFromEBML pw) (uintFromEBML ph))
        else
          let cluster ← wrap .noCluster (findEBML seg [ebmlCluster])
          let _ ← wrap .noSimpleBlock (findEBML cluster [ebmlSimpleBk])
          pure ()

end Vizra.Fixtures
