import Vizra.Fixtures.Codec
import Vizra.Fixtures.Gif
import Vizra.Fixtures.Jpeg
import Vizra.Fixtures.Png
import Vizra.Fixtures.Webp

/-!
# `Verify` (`internal/fixtures/fixtures.go`)

Every fixture of the corpus is read from a directory and handed to its verifier. A problem is the id of the fixture
and what went wrong; the order of the problems by their texts is left out.
-/

namespace Vizra.Fixtures

open Go Go.Run

abbrev Verifier := Slice UInt8 → Run FixtureError Unit

/-- The verifiers of the corpus, in its order. -/
def verifyFns (D : Decoders) : List Verifier :=
  [verifyOrientationGPSJPEG D, verifyAlphaPNG D, verifyTruncatedJPEG D, verifyOversizedPNG D, verifyBombPNG D,
    verifyPolyglot D, verifyAnimatedGIF D, verifyAnimatedWebP, verifyAVIF, verifyBudgetJPEG D, verifyMP4 D, verifyWebM]

inductive VerifyProblem where
  | unreadable (id text : Bytes)
  | failed (id : Bytes) (e : FixtureError)

/-- The problem of one fixture, if it has one. -/
def verifyOne (read : Bytes → Except Bytes (Slice UInt8)) (s : Spec) (verifyFn : Verifier) :
    Run Empty (List VerifyProblem) :=
  match read s.path with
  | .error text => pure [.unreadable s.id text]
  | .ok b =>
    match verifyFn b with
    | .ok _ => pure []
    | .error (.error e) => pure [.failed s.id e]
    | .error .panic => crash

/-- The problems of all fixtures; none is success. -/
def verifyAll (read : Bytes → Except Bytes (Slice UInt8)) : List (Spec × Verifier) → Run Empty (List VerifyProblem)
  | [] => pure []
  | (s, verifyFn) :: rest => do
    let problems ← verifyOne read s verifyFn
    let others ← verifyAll read rest
    pure (problems ++ others)

def verify (D : Decoders) (read : Bytes → Except Bytes (Slice UInt8)) : Run Empty (List VerifyProblem) :=
  verifyAll read (corpus.zip (verifyFns D))

end Vizra.Fixtures
