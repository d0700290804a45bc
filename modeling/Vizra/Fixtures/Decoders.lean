import Vizra.GoStd.Slice

/-!
# What the fixture readers rest on (`internal/fixtures`)

The decoders of the standard library are functions of the bytes that they are given, and they return an error rather
than panic. Errors carry the values that their texts print.
-/

namespace Vizra.Fixtures

open Go

/-- An error of a decoder. -/
structure DecodeError where
  text : Bytes
  /-- whether it is `io.EOF` or `io.ErrUnexpectedEOF` -/
  isEOF : Bool
deriving DecidableEq

/-- What a verifier reads of `gif.DecodeAll`. -/
structure Gif where
  /-- the pixels of each frame -/
  images : List Bytes
  delay : List Int
  loopCount : Int

structure NRGBA where
  r : UInt8
  g : UInt8
  b : UInt8
  a : UInt8
deriving DecidableEq

structure Decoders where
  /-- `crc32.ChecksumIEEE` -/
  checksumIEEE : Bytes → UInt32
  /-- `png.Decode`, as the alpha of every pixel -/
  pngDecode : Bytes → Except DecodeError (List Nat)
  /-- `png.DecodeConfig`, as width and height -/
  pngConfig : Bytes → Except DecodeError (Int × Int)
  jpegDecode : Bytes → Except DecodeError Unit
  jpegConfig : Bytes → Except DecodeError (Int × Int)
  gifDecode : Bytes → Except DecodeError Unit
  gifDecodeAll : Bytes → Except DecodeError Gif
  /-- `zlib.NewReader` and a copy of what it reads, as the number of bytes -/
  inflate : Bytes → Except DecodeError Nat
  /-- a zlib stream has a header -/
  inflate_nil : ∃ e, inflate [] = .error e
  detectContentType : Bytes → Bytes
  /-- `xml.Unmarshal`, as the local name of the root -/
  xmlRoot : Bytes → Except DecodeError Bytes

inductive FixtureError where
  | decode (e : DecodeError)
  -- png.go
  | notPNG
  | chunkPastEnd (typ : Bytes)
  | badCRC (typ : Bytes)
  | iendBeforeIHDR
  | noIEND
  | colourType (colorType bitDepth : UInt8)
  | alphaCoverage (zero part opaq : Bool)
  | declares (w h : Nat) (want : Int)
  | declaredPixels (px : Nat)
  | fileSize (bytes : Nat)
  | configMustSucceed (e : DecodeError)
  | configReports (w h : Int)
  | inflatesTo (n want : Int)
  | rasterSize (n : Int)
  | expansion (ratio : Int)
  -- jpeg.go
  | noSOI
  | noMarker (i : Nat) (found : UInt8)
  | segmentPastEnd
  | notExif
  | notBigEndianTIFF
  | ifdOffset
  | ifdEntry
  | tagOrder (tag : Nat)
  | fieldType (typ : Nat)
  | valueOffset (tag : Nat)
  | noGPSPointer
  | gpsIFD (e : FixtureError)
  | noAPP1
  | storedDimensions (w h : Nat)
  | app1NotFirst
  | noOrientation
  | orientation (got : Nat)
  | noGPSTag (name : Bytes)
  | latitudeLength (got : Nat)
  | doesNotDecode (e : DecodeError)
  | sofCode (got : UInt8)
  | hasEOI
  | truncatedDecoded
  | notTruncation (e : DecodeError)
  | dimensions (w h : Nat) (wantW wantH : Int)
  | pixels (px : Nat)
  | components (n : Nat)
  | encodedSize (bytes : Nat)
  -- gif.go
  | frameCount (n want : Nat)
  | frameDelay (i : Nat)
  | loopCount (n : Int)
  | noNetscape
  | identicalFrames
  | notGIF89a
  | contentType (got : Bytes)
  | gifPrefix (e : DecodeError)
  | noTrailer
  | noXMLDeclaration
  | notXML (e : DecodeError)
  | xmlRoot (got : Bytes)
  | noActiveContent (want : Bytes)
  -- webp.go
  | vp8lDimensions (w h : Int)
  | vp8lEnded
  | notVP8L
  | vp8lVersion (v : Nat)
  | vp8lTransform
  | vp8lColourCache
  | vp8lMetaHuffman
  | notSimpleCode (i : Nat)
  | symbolCount (i n : Nat)
  | notByteSymbol (i : Nat)
  | alphaUsed (used : Bool) (a : UInt8)
  | notRIFF
  | riffSize (got want : Nat)
  | chunkCount (n : Nat)
  | firstChunk (cc : Bytes)
  | notAnimated
  | noAlphaFlag
  | secondChunk (cc : Bytes)
  | chunkAfterANIM (cc : Bytes)
  | shortANMF
  | zeroDuration (frame : Nat)
  | frameSubChunk (frame : Nat) (cc : Bytes)
  | frameSubChunkPastEnd (frame : Nat)
  | frame (i : Nat) (e : FixtureError)
  | frameSize (i : Nat) (w h : Nat)
  | frameColour (i : Nat) (got want : NRGBA)
  -- mp4.go
  | boxSize (typ : Bytes) (size offset : Nat)
  | trailingBytes (n : Nat)
  | noBox (typ : Bytes)
  | emptyPath
  | boxOrder (got : List Bytes)
  | majorBrand (got : Bytes)
  | handlerType (got : Bytes)
  | sampleEntry (got : List Bytes)
  | sampleEntrySize (w h : Nat)
  | noDuration (ts dur : Nat)
  | duration (ts dur : Nat)
  | sampleCount (n : Nat)
  | chunkOffset (off : Nat)
  | samplePastEnd (i : Nat)
  | sampleDecode (i : Nat) (e : DecodeError)
  -- codec.go
  | noFtyp
  | avifBrand (got : Bytes)
  | noMeta
  | shortMeta
  | ipcoPath (e : FixtureError)
  | noAV1C
  | ispe (w h : Nat)
  | noMdat
  | endOfStream
  | malformedId
  | truncatedSize
  | malformedSize
  | noElement (id level : Nat)
  | docType (got : Bytes)
  | codecID (got : Bytes)
  | trackUID (got : Bytes)
  | pixelDimensions (w h : Nat)
  | noCluster (e : FixtureError)
  | noSimpleBlock (e : FixtureError)
deriving DecidableEq

/-- What a decoder returns, where a call passes its error on as `wrap` says. -/
def decoded {α : Type} (wrap : DecodeError → FixtureError) (x : Except DecodeError α) : Run FixtureError α :=
  Run.lift (x.mapError wrap)

end Vizra.Fixtures
