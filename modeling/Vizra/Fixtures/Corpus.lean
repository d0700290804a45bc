import Vizra.GoStd.Bytes

/-!
# The fixture corpus (`internal/fixtures/fixtures.go`, `internal/fixtures/codec.go`)

The specifications of the twelve fixtures and the origins of the codec inputs. What describes a fixture in words
(purpose, assertions, licence) and the functions that build and verify its bytes are not part of a `Spec` here.
-/

namespace Vizra.Fixtures

open Go

def version : Bytes := ascii "1"

def tierNative : Bytes := ascii "native"

def tierCodec : Bytes := ascii "codec"

def decodeOK : Bytes := ascii "ok"

def decodeRejectTruncate : Bytes := ascii "reject:truncated"

def decodeRejectPixels : Bytes := ascii "reject:pixel-limit"

def decodeRejectExpand : Bytes := ascii "reject:byte-budget"

def decodeRejectType : Bytes := ascii "reject:type"

structure Spec where
  id : Bytes
  path : Bytes
  format : Bytes
  tier : Bytes
  adr009 : Int
  decode : Bytes
  width : Int
  height : Int
deriving DecidableEq

def oversizedDim : Int := 30000

def bombDim : Int := 4200

def budgetW : Int := 4000

def budgetH : Int := 3000

def adr009Count : Nat := 12

def corpus : List Spec :=
  [{ id := ascii "jpeg-exif-orientation6-gps", path := ascii "jpeg-exif-orientation6-gps.jpg",
     format := ascii "jpeg", tier := tierNative, adr009 := 1, decode := decodeOK, width := 64, height := 48 },
   { id := ascii "png-alpha", path := ascii "png-alpha.png",
     format := ascii "png", tier := tierNative, adr009 := 2, decode := decodeOK, width := 96, height := 96 },
   { id := ascii "jpeg-truncated", path := ascii "jpeg-truncated.jpg",
     format := ascii "jpeg", tier := tierNative, adr009 := 3, decode := decodeRejectTruncate, width := 64, height := 48 },
   { id := ascii "png-oversized-dimensions", path := ascii "png-oversized-dimensions.png",
     format := ascii "png", tier := tierNative, adr009 := 4, decode := decodeRejectPixels,
     width := oversizedDim, height := oversizedDim },
   { id := ascii "png-decoder-bomb", path := ascii "png-decoder-bomb.png",
     format := ascii "png", tier := tierNative, adr009 := 5, decode := decodeRejectExpand,
     width := bombDim, height := bombDim },
   { id := ascii "polyglot-gif-svg-active", path := ascii "polyglot-gif-svg-active.svg",
     format := ascii "polyglot", tier := tierNative, adr009 := 6, decode := decodeRejectType, width := 4, height := 4 },
   { id := ascii "gif-animated", path := ascii "gif-animated.gif",
     format := ascii "gif", tier := tierNative, adr009 := 7, decode := decodeOK, width := 64, height := 64 },
   { id := ascii "webp-animated", path := ascii "webp-animated.webp",
     format := ascii "webp", tier := tierNative, adr009 := 8, decode := decodeOK, width := 32, height := 32 },
   { id := ascii "avif-still", path := ascii "avif-still.avif",
     format := ascii "avif", tier := tierCodec, adr009 := 9, decode := decodeOK, width := 64, height := 64 },
   { id := ascii "jpeg-12mp-budget", path := ascii "jpeg-12mp-budget.jpg",
     format := ascii "jpeg", tier := tierNative, adr009 := 10, decode := decodeOK, width := budgetW, height := budgetH },
   { id := ascii "mp4-short", path := ascii "mp4-short.mp4",
     format := ascii "mp4", tier := tierNative, adr009 := 11, decode := decodeOK, width := 160, height := 120 },
   { id := ascii "webm-short", path := ascii "webm-short.webm",
     format := ascii "webm", tier := tierCodec, adr009 := 12, decode := decodeOK, width := 64, height := 64 }]

structure CodecOrigin where
  path : Bytes
  sha256 : Bytes
  bytes : Int
  tool : Bytes
  toolVersion : Bytes
  argv : List Bytes
deriving DecidableEq

/-- `CodecInputs`: digest and size are filled in from the files. -/
def codecInputs : List CodecOrigin :=
  [{ path := ascii "internal/fixtures/codec/source.png", sha256 := [], bytes := 0
     tool := ascii "vizra-core internal/fixtures", toolVersion := ascii "generator " ++ version
     argv := [ascii "scene(64,64,9)", ascii "png.Encoder\x7bCompressionLevel: BestCompression\x7d"] },
   { path := ascii "internal/fixtures/codec/avif-still.avif", sha256 := [], bytes := 0
     tool := ascii "libvips (heifsave, libheif/aom)", toolVersion := ascii "vips-8.18.2, libheif 1.21.2, darwin/arm64"
     argv := [ascii "vips", ascii "copy", ascii "codec/source.png",
       ascii "avif-still.avif[compression=av1,Q=60,effort=4,subsample-mode=off]"] },
   { path := ascii "internal/fixtures/codec/webm-short.webm", sha256 := [], bytes := 0
     tool := ascii "ffmpeg (libvpx VP8) + TrackUID normalisation", toolVersion := ascii "ffmpeg 8.1, darwin/arm64"
     argv := ["ffmpeg", "-nostdin", "-hide_banner", "-loglevel", "error", "-y", "-fflags", "+bitexact", "-flags:v",
       "+bitexact", "-loop", "1", "-i", "codec/source.png", "-t", "1", "-r", "12", "-c:v", "libvpx", "-b:v", "200k",
       "-threads", "1", "-deadline", "good", "-cpu-used", "4", "-f", "webm", "webm-short.webm"].map ascii }]

end Vizra.Fixtures
