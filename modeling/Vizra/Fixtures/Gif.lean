import Vizra.Fixtures.Decoders

/-!
# The GIF and polyglot fixtures (`internal/fixtures/gif.go`)

The two verifiers. The builders are left out.
-/

namespace Vizra.Fixtures

open Go Go.Run

/-- `bytes.Index`. -/
def indexOf (b sep : Bytes) : Option Nat := (List.range (b.length + 1)).find? fun i => sep.isPrefixOf (b.drop i)

def verifyAnimatedGIF (D : Decoders) (b : Slice UInt8) : Run FixtureError Unit := do
  let g ← decoded .decode (D.gifDecodeAll b.data)
  if g.images.length ≠ 4 then fail (.frameCount g.images.length 4)
  else
    match g.delay.findIdx? fun d => d ≤ 0 with
    | some i => fail (.frameDelay i)
    | none =>
      if g.loopCount ≠ 0 then fail (.loopCount g.loopCount)
      else if (indexOf b.data (ascii "NETSCAPE2.0")).isNone then fail .noNetscape
      else
        match g.images with
        | [] => crash
        | first :: images => if images.all fun im => first == im then fail .identicalFrames else pure ()

def activeContent : List Bytes := ["<script", "onload=", "169.254.169.254"].map ascii

def verifyPolyglot (D : Decoders) (b : Slice UInt8) : Run FixtureError Unit :=
  if b.len < 6 then fail .notGIF89a
  else do
    let head ← b.slice 0 6
    if head.data ≠ ascii "GIF89a" then fail .notGIF89a
    else if D.detectContentType b.data ≠ ascii "image/gif" then fail (.contentType (D.detectContentType b.data))
    else
      decoded .gifPrefix (D.gifDecode b.data)
      match b.data.findIdx? fun c => c == 0x3B with
      | none => fail .noTrailer
      | some trailer =>
        let tail ← b.sliceFrom (trailer + 1)
        match indexOf tail.data (ascii "<?xml") with
        | none => fail .noXMLDeclaration
        | some x =>
          let doc ← tail.sliceFrom x
          let root ← decoded .notXML (D.xmlRoot doc.data)
          if root ≠ ascii "svg" then fail (.xmlRoot root)
          else
            match activeContent.find? fun want => (indexOf doc.data want).isNone with
            | some want => fail (.noActiveContent want)
            | none => pure ()

end Vizra.Fixtures
