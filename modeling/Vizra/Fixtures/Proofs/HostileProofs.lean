import Vizra.Fixtures.Proofs.ExifProofs
import Vizra.Fixtures.Proofs.Mp4Proofs
import Vizra.Fixtures.Proofs.PngProofs
import Vizra.Fixtures.Proofs.RiffProofs
import Vizra.Fixtures.Verify

/-!
# Which bytes crash a fixture reader

The readers of the package and the verifiers that `Verify` runs are followed to the places where they panic. Most of
them never do. The others do on files that hold a part shorter than what is read of it, or more frames than the
verifier expects.
-/

namespace Vizra.Fixtures

open Go Go.Run

/-! ## WebP -/

section Webp

variable {b : Slice UInt8}

/-- Behind the checks of the header, the walk is all that is left. -/
theorem scanRIFF_cases (b : Slice UInt8) : (∃ e, scanRIFF b = fail e) ∨ scanRIFF b = (scanRIFFLoop b).run (12, []) := by
  have hcap := b.len_le_cap
  rw [scanRIFF]
  by_cases hlen : b.len < 12
  · exact .inl ⟨_, if_pos hlen⟩
  rw [if_neg hlen, Slice.slice_bind (by omega) (by omega)]
  split_ifs with hriff
  · exact .inl ⟨_, rfl⟩
  rw [Slice.slice_bind (by omega) (by omega)]
  split_ifs with hwebp
  · exact .inl ⟨_, rfl⟩
  rw [Slice.leUint_bind (by omega) (by omega) (by omega)]
  split_ifs with hsize
  · exact .inl ⟨_, rfl⟩
  · exact .inr rfl

theorem not_panics_scanRIFF (b : Slice UInt8) : ¬ Panics (scanRIFF b) := by
  obtain ⟨e, he⟩ | hrun := scanRIFF_cases b
  · rw [he]
    exact not_panics_fail e
  rw [hrun]
  refine not_panics_walk (scanRIFFLoop_step b) fun i => not_panics_ite (fun _ => ?_) fun _ => not_panics_ok _
  exact not_panics_check fun _ => not_panics_ok _

theorem visitChunk_eq_some {i j : Nat} {c : RiffChunkRef} (h : visitChunk b i = .ok (some (j, c))) :
    i + 8 + declaredLength b i ≤ b.len ∧ j = i + (8 + declaredLength b i) + declaredLength b i % 2 ∧ c = chunkAt b i := by
  rw [visitChunk] at h
  split_ifs at h with hlen hsize
  · cases h
  · cases h
    exact ⟨by omega, rfl, rfl⟩
  · cases h

/-- A second chunk with a third one behind it has the header of that one behind its payload. -/
theorem cap_of_scanRIFF {x y z : RiffChunkRef} {l : List RiffChunkRef} (h : scanRIFF b = .ok (x :: y :: z :: l)) :
    8 ≤ y.payload.cap := by
  have hcap := b.len_le_cap
  obtain ⟨e, he⟩ | hrun := scanRIFF_cases b
  · rw [he] at h
    cases h
  rw [hrun, run_eq_ok_iff_visits (scanRIFFLoop_step b)] at h
  obtain _ | ⟨-, hrest⟩ := h
  obtain _ | ⟨hy, hrest⟩ := hrest
  obtain _ | ⟨hz, -⟩ := hrest
  obtain ⟨hfits, rfl, rfl⟩ := visitChunk_eq_some hy
  obtain ⟨hnext, -⟩ := visitChunk_eq_some hz
  have hpayload : ∀ i, i + 8 + declaredLength b i ≤ b.len → (chunkAt b i).payload.cap = b.cap - (i + 8) :=
    fun i hi => Slice.cap_sub (by omega) (by omega)
  rw [hpayload _ hfits]
  omega

theorem not_panics_readFrom (r : BitReader) (k i : Nat) (v : BitVec 32) : ¬ Panics (r.readFrom k i v) := by
  induction k generalizing i v with
  | zero => exact not_panics_pure _
  | succ k ih =>
    rw [BitReader.readFrom]
    refine not_panics_ite (fun _ => not_panics_pure _) fun hlen => ?_
    rw [Slice.index_bind (by omega)]
    exact ih _ _

theorem not_panics_read (r : BitReader) (bits : Nat) : ¬ Panics (r.read bits) := by
  refine not_panics_bind (not_panics_readFrom r bits 0 0) fun p _ => ?_
  exact not_panics_ite (fun _ => not_panics_pure _) fun _ => not_panics_pure _

theorem not_panics_readSymbols (k i : Nat) (r : BitReader) : ¬ Panics (readSymbols k i r) := by
  induction k generalizing i r with
  | zero => exact not_panics_pure _
  | succ k ih =>
    rw [readSymbols]
    refine not_panics_bind (not_panics_read _ _) fun p _ => not_panics_check fun _ => ?_
    refine not_panics_bind (not_panics_read _ _) fun p _ => not_panics_check fun _ => ?_
    refine not_panics_bind (not_panics_read _ _) fun p _ => not_panics_check fun _ => ?_
    refine not_panics_bind (not_panics_read _ _) fun p _ => ?_
    exact not_panics_bind (ih _ _) fun p _ => not_panics_pure _

theorem not_panics_readVP8LHeader (r : BitReader) : ¬ Panics (readVP8LHeader r) := by
  refine not_panics_bind (not_panics_read _ _) fun p _ => not_panics_bind (not_panics_read _ _) fun p _ => ?_
  refine not_panics_bind (not_panics_read _ _) fun p _ => not_panics_bind (not_panics_read _ _) fun p _ => ?_
  refine not_panics_check fun _ => not_panics_bind (not_panics_read _ _) fun p _ => ?_
  refine not_panics_check fun _ => not_panics_bind (not_panics_read _ _) fun p _ => ?_
  refine not_panics_check fun _ => not_panics_bind (not_panics_read _ _) fun p _ => ?_
  exact not_panics_check fun _ => not_panics_pure _

theorem not_panics_vp8lReadSolid (b : Slice UInt8) : ¬ Panics (vp8lReadSolid b) := by
  have hcap := b.len_le_cap
  rw [vp8lReadSolid]
  refine not_panics_check fun hlen => ?_
  rw [Slice.index_bind (by omega)]
  refine not_panics_check fun _ => ?_
  rw [Slice.sliceFrom, Slice.slice_bind (by omega) (by omega)]
  refine not_panics_bind (not_panics_readVP8LHeader _) fun p _ => not_panics_bind (not_panics_readSymbols _ _ _) fun q _ => ?_
  dsimp only
  cases q.2.err with
  | some e => exact not_panics_fail _
  | none => exact not_panics_check fun _ => not_panics_pure _

/-- What stands in a frame behind its header. -/
def frameSub (c : RiffChunkRef) : Slice UInt8 := c.payload.sub 16 c.payload.len

/-- The bitstream of a frame. -/
def frameData (c : RiffChunkRef) : Slice UInt8 := (frameSub c).sub 8 (8 + (frameSub c).leAt 4 8)

/-- A chunk that holds a frame, of some duration and with a bitstream. -/
def IsFrame (c : RiffChunkRef) : Prop :=
  c.fourCC = ascii "ANMF" ∧ 24 ≤ c.payload.len ∧
    ¬ ((c.payload.data.getD 12 0).toNat ||| (c.payload.data.getD 13 0).toNat <<< 8 |||
      (c.payload.data.getD 14 0).toNat <<< 16) = 0 ∧
    ((frameSub c).sub 0 4).data = ascii "VP8L" ∧ 8 + (frameSub c).leAt 4 8 ≤ (frameSub c).len

theorem panics_frameColour_bind {α : Type} {c : RiffChunkRef} {k : Nat} {f : NRGBA → Run FixtureError α} :
    Panics (frameColour c k >>= f) ↔
      IsFrame c ∧ ∃ col, vp8lReadSolid (frameData c) = .ok (32, 32, col) ∧ Panics (f col) := by
  have hcap := c.payload.len_le_cap
  rw [frameColour, panics_check_bind, not_not, panics_check_bind, Nat.not_lt, IsFrame, and_assoc, and_assoc]
  refine and_congr_right fun _ => and_congr_right fun hlen => ?_
  rw [Slice.index_bind_getD 0 (by omega), Slice.index_bind_getD 0 (by omega), Slice.index_bind_getD 0 (by omega),
    panics_check_bind, and_assoc]
  refine and_congr_right fun _ => ?_
  have hsub : (frameSub c).len = c.payload.len - 16 := Slice.len_sub (by omega)
  have hsubcap := (frameSub c).len_le_cap
  rw [Slice.sliceFrom, Slice.slice_bind (by omega) (by omega), ← frameSub, Slice.slice_bind (by omega) (by omega),
    panics_check_bind, not_not, and_assoc]
  refine and_congr_right fun _ => ?_
  rw [Slice.leUint_bind (by omega) (by omega) (by omega), panics_check_bind, Nat.not_lt]
  refine and_congr_right fun hn => ?_
  rw [Slice.slice_bind (by omega) (by omega), ← frameData, bind_assoc,
    panics_bind_of_not (by rw [panics_wrap]; exact not_panics_vp8lReadSolid _)]
  constructor
  · rintro ⟨⟨w, h, col⟩, hread, hpanic⟩
    dsimp only at hpanic
    rw [panics_check_bind, pure_bind, not_or, not_not, not_not] at hpanic
    obtain ⟨⟨rfl, rfl⟩, hpanic⟩ := hpanic
    exact ⟨col, wrap_eq_ok.mp hread, hpanic⟩
  · rintro ⟨col, hread, hpanic⟩
    exact ⟨(32, 32, col), wrap_eq_ok.mpr hread, hpanic⟩

/-- The chunks begin with frames of these colours, and one more frame follows. -/
def OneMoreFrame : List NRGBA → List RiffChunkRef → Prop
  | [], c :: _ => IsFrame c ∧ ∃ col, vp8lReadSolid (frameData c) = .ok (32, 32, col)
  | want :: wants, c :: cs =>
    IsFrame c ∧ vp8lReadSolid (frameData c) = .ok (32, 32, want) ∧ OneMoreFrame wants cs
  | _, [] => False

theorem panics_verifyFrames {cs : List RiffChunkRef} {k : Nat} :
    Panics (verifyFrames cs k) ↔ OneMoreFrame ((animatedWebPFrames.map Prod.fst).drop k) cs := by
  induction cs generalizing k with
  | nil =>
    rw [verifyFrames, OneMoreFrame]
    exact ⟨fun h => absurd h (not_panics_check fun _ => not_panics_pure _), nofun⟩
  | cons c cs ih =>
    rw [verifyFrames, panics_frameColour_bind]
    cases hwant : animatedWebPFrames[k]? with
    | none =>
      have hdrop : (animatedWebPFrames.map Prod.fst).drop k = [] := by
        rw [List.drop_eq_nil_iff, List.length_map]
        exact List.getElem?_eq_none_iff.mp hwant
      rw [hdrop, OneMoreFrame]
      exact and_congr_right fun _ => exists_congr fun col => and_iff_left panics_crash
    | some want =>
      have hdrop : (animatedWebPFrames.map Prod.fst).drop k = want.1 :: (animatedWebPFrames.map Prod.fst).drop (k + 1) := by
        obtain ⟨hlt, hget⟩ := List.getElem?_eq_some_iff.mp hwant
        rw [List.drop_eq_getElem_cons (by rw [List.length_map]; exact hlt), List.getElem_map, hget]
      rw [hdrop, OneMoreFrame, ← ih]
      refine and_congr_right fun _ => ?_
      dsimp only
      simp only [panics_check, not_not]
      constructor
      · rintro ⟨col, hcol, rfl, hpanic⟩
        exact ⟨hcol, hpanic⟩
      · rintro ⟨hcol, hpanic⟩
        exact ⟨want.1, hcol, rfl, hpanic⟩

/-- The first of at least three chunks is a `VP8X` chunk without a byte of flags; or the chunks are those of an
animation, and a frame follows that has no colour to be compared with. -/
def ShortOrLongWebP (b : Slice UInt8) : Prop :=
  ∃ vp8x anim anmf rest, scanRIFF b = .ok (vp8x :: anim :: anmf :: rest) ∧ vp8x.fourCC = ascii "VP8X" ∧
    (vp8x.payload.len ≤ 0 ∨ ∃ flags, vp8x.payload.data[0]? = some flags ∧ ¬ flags &&& vp8xAnimation = 0 ∧
      ¬ flags &&& vp8xAlpha = 0 ∧ anim.fourCC = ascii "ANIM" ∧ anim.payload.leAt 4 6 = 0 ∧
      OneMoreFrame (animatedWebPFrames.map Prod.fst) (anmf :: rest))

theorem panics_verifyAnimatedWebP : Panics (verifyAnimatedWebP b) ↔ ShortOrLongWebP b := by
  rw [verifyAnimatedWebP, panics_bind_of_not (not_panics_scanRIFF b)]
  constructor
  · rintro ⟨chunks, hchunks, hpanic⟩
    match chunks, hchunks, hpanic with
    | [], _, hpanic => exact absurd hpanic (not_panics_fail _)
    | [_], _, hpanic => exact absurd hpanic (not_panics_fail _)
    | [_, _], _, hpanic => exact absurd hpanic (not_panics_fail _)
    | vp8x :: anim :: anmf :: rest, hchunks, hpanic =>
      have hcap := cap_of_scanRIFF hchunks
      dsimp only at hpanic
      simp only [panics_check, not_not, Slice.panics_index_bind,
        Slice.leUint_bind (show 4 ≤ 6 by omega) (show 6 - 4 = 2 by omega) (show 6 ≤ anim.payload.cap by omega),
        panics_verifyFrames] at hpanic
      exact ⟨vp8x, anim, anmf, rest, hchunks, hpanic⟩
  · rintro ⟨vp8x, anim, anmf, rest, hchunks, hpanic⟩
    have hcap := cap_of_scanRIFF hchunks
    refine ⟨_, hchunks, ?_⟩
    dsimp only
    simp only [panics_check, not_not, Slice.panics_index_bind,
      Slice.leUint_bind (show 4 ≤ 6 by omega) (show 6 - 4 = 2 by omega) (show 6 ≤ anim.payload.cap by omega),
      panics_verifyFrames]
    exact hpanic

end Webp

/-! ## GIF -/

section Gif

variable {D : Decoders} {b : Slice UInt8}

theorem not_panics_verifyAnimatedGIF : ¬ Panics (verifyAnimatedGIF D b) := by
  refine not_panics_bind (not_panics_lift _) fun g _ => not_panics_check fun hfour => ?_
  cases g.delay.findIdx? fun d => d ≤ 0 with
  | some i => exact not_panics_fail _
  | none =>
    refine not_panics_check fun _ => not_panics_check fun _ => ?_
    cases himages : g.images with
    | nil =>
      rw [himages] at hfour
      exact absurd (fun h => nomatch h) hfour
    | cons first images => exact not_panics_check fun _ => not_panics_pure _

theorem indexOf_le {s sep : Bytes} {x : Nat} (h : indexOf s sep = some x) : x ≤ s.length := by
  have hmem := List.mem_of_find?_eq_some h
  rw [List.mem_range] at hmem
  omega

theorem not_panics_verifyPolyglot : ¬ Panics (verifyPolyglot D b) := by
  have hcap := b.len_le_cap
  rw [verifyPolyglot]
  refine not_panics_check fun hlen => ?_
  rw [Slice.slice_bind (by omega) (by omega)]
  refine not_panics_check fun _ => not_panics_check fun _ => ?_
  refine not_panics_bind (not_panics_lift _) fun _ _ => ?_
  cases htrailer : b.data.findIdx? fun c => c == 0x3B with
  | none => exact not_panics_fail _
  | some trailer =>
    have hlt : trailer < b.len := (List.findIdx?_eq_some_iff_findIdx_eq.mp htrailer).1
    dsimp only
    rw [Slice.sliceFrom, Slice.slice_bind (by omega) (by omega)]
    generalize b.sub (trailer + 1) b.len = tail
    have htail := tail.len_le_cap
    cases hx : indexOf tail.data (ascii "<?xml") with
    | none => exact not_panics_fail _
    | some x =>
      have hle := indexOf_le hx
      rw [Slice.length_data] at hle
      dsimp only
      rw [Slice.sliceFrom, Slice.slice_bind (by omega) (by omega)]
      refine not_panics_bind (not_panics_lift _) fun root _ => not_panics_check fun _ => ?_
      cases activeContent.find? fun want => (indexOf (tail.sub x tail.len).data want).isNone with
      | some want => exact not_panics_fail _
      | none => exact not_panics_pure _

end Gif

/-! ## All of them -/

section All

variable (D : Decoders) (b : Slice UInt8)

/-- Every reader, at every position of an EBML stream, and every verifier returns a result or an error. -/
def ReadersReturn : Prop :=
  ¬ Panics (scanPNG D b) ∧ ¬ Panics (scanJPEG b) ∧ ¬ Panics (parseEXIF b) ∧ ¬ Panics (scanRIFF b) ∧
    ¬ Panics (scanBoxes b) ∧ (∀ pos, ¬ Panics (EbmlReader.element ⟨b, pos⟩)) ∧
    ∀ verifyFn ∈ verifyFns D, ¬ Panics (verifyFn b)

/-- What crashes a reader: a short `IHDR` chunk, an offset of an EXIF structure that wraps around, a short orientation,
a `VP8X` chunk without flags or a fourth frame behind three right ones, and a short box of an MP4 file. -/
def Crashes : Prop :=
  ShortIHDR D b.data ∨ ExifWraps b ∨ ShortOrientation b ∨ ShortOrLongWebP b ∨ ShortMP4 D b

variable {D b}

theorem panics_verifyFns : (∃ verifyFn ∈ verifyFns D, Panics (verifyFn b)) ↔
    ShortIHDR D b.data ∨ ShortOrientation b ∨ ShortOrLongWebP b ∨ ShortMP4 D b := by
  simp only [verifyFns, List.exists_mem_cons_iff, List.not_mem_nil, false_and, exists_false, or_false,
    panics_verifyOrientationGPSJPEG, panics_verifyAlphaPNG, not_panics_verifyTruncatedJPEG, panics_verifyOversizedPNG,
    panics_verifyBombPNG, not_panics_verifyPolyglot, not_panics_verifyAnimatedGIF, panics_verifyAnimatedWebP,
    not_panics_verifyAVIF, not_panics_verifyBudgetJPEG, panics_verifyMP4, not_panics_verifyWebM, false_or]
  tauto

theorem panics_verifyOne {read : Bytes → Except Bytes (Slice UInt8)} {s : Spec} {verifyFn : Verifier} :
    Panics (verifyOne read s verifyFn) ↔ ∃ b, read s.path = .ok b ∧ Panics (verifyFn b) := by
  rw [verifyOne]
  cases read s.path with
  | error text => exact ⟨nofun, nofun⟩
  | ok b =>
    dsimp only
    constructor
    · intro h
      refine ⟨b, rfl, ?_⟩
      match hfn : verifyFn b, h with
      | .error .panic, _ => rfl
    · rintro ⟨b', hb, h⟩
      cases hb
      rw [show verifyFn b = .error .panic from h]
      exact panics_crash

/-- A run over the fixtures crashes exactly where a file crashes its verifier. -/
theorem panics_verifyAll {read : Bytes → Except Bytes (Slice UInt8)} {l : List (Spec × Verifier)} :
    Panics (verifyAll read l) ↔ ∃ p ∈ l, ∃ b, read p.1.path = .ok b ∧ Panics (p.2 b) := by
  induction l with
  | nil => exact ⟨nofun, nofun⟩
  | cons p l ih =>
    rw [verifyAll, List.exists_mem_cons_iff, ← panics_verifyOne, ← ih, panics_bind]
    simp only [panics_bind_pure]
    constructor
    · rintro (hone | ⟨problems, -, hrest⟩)
      · exact .inl hone
      · exact .inr hrest
    · rintro (hone | hrest)
      · exact .inl hone
      · by_cases hone : Panics (verifyOne read p.1 p.2)
        · exact .inl hone
        · obtain ⟨problems, hok⟩ := exists_ok_of_not_panics hone
          exact .inr ⟨problems, hok, hrest⟩

/-- `Verify` returns for a directory none of whose files crashes a reader. -/
theorem not_panics_verify {read : Bytes → Except Bytes (Slice UInt8)}
    (h : ∀ path b, read path = .ok b → ¬ Crashes D b) : ¬ Panics (verify D read) := by
  rw [verify, panics_verifyAll]
  rintro ⟨p, hp, b, hb, hpanic⟩
  have hcrash := panics_verifyFns.mp ⟨p.2, (List.of_mem_zip hp).2, hpanic⟩
  exact h _ b hb (hcrash.imp id .inr)

end All

end Vizra.Fixtures
