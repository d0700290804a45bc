import Vizra.Fixtures.Codec
import Vizra.Fixtures.Proofs.BoxProofs

/-!
# Where the readers of boxes and elements panic

The walks over boxes and over EBML elements stay inside the file. The MP4 verifier slices fixed fields out of the
payload of a box without looking at its length, so a box that is too close to the end of the array ends the program;
so does a chunk offset below four.
-/

namespace Vizra.Fixtures

open Go Go.Run

section Boxes

variable {b : Slice UInt8}

theorem not_panics_scanBoxes (b : Slice UInt8) : ¬ Panics (scanBoxes b) := by
  refine not_panics_walk (scanBoxesLoop_step b) fun i => not_panics_ite (fun _ => ?_) fun _ => ?_
  · exact not_panics_check fun _ => not_panics_ok _
  · exact not_panics_check fun _ => not_panics_ok _

theorem not_panics_descend (b : Slice UInt8) (path : List Bytes) : ¬ Panics (descend b path) := by
  induction path generalizing b with
  | nil => exact not_panics_fail _
  | cons want path ih =>
    rw [descend]
    refine not_panics_bind (not_panics_scanBoxes b) fun boxes _ => ?_
    cases findBox boxes want with
    | none => exact not_panics_fail _
    | some bx => exact not_panics_ite (fun _ => not_panics_pure _) fun _ => ih bx.payload

/-- A box with another one behind it has the header of that one behind its payload. -/
theorem cap_of_scanBoxes {x y : Mp4Box} {l : List Mp4Box} (h : scanBoxes b = .ok (x :: y :: l)) : 8 ≤ x.payload.cap := by
  have hcap := b.len_le_cap
  obtain _ | ⟨hx, hrest⟩ := scanBoxes_eq_ok.mp h
  obtain _ | ⟨hy, -⟩ := hrest
  obtain ⟨-, hsize, hend, rfl, rfl⟩ := visitBox_eq_some hx
  obtain ⟨hnext, -⟩ := visitBox_eq_some hy
  have hpayload : (boxAt b 0).payload.cap = b.cap - 8 := Slice.cap_sub (by omega) (by omega)
  omega

end Boxes

/-! ## AVIF -/

section Avif

theorem not_panics_readProps (props : List Mp4Box) (s : AvifProps) : ¬ Panics (readProps props s) := by
  induction props generalizing s with
  | nil => exact not_panics_pure _
  | cons p props ih =>
    have hcap := p.payload.len_le_cap
    rw [readProps]
    refine not_panics_ite (fun _ => ih _) fun _ => not_panics_ite (fun hispe => ?_) fun _ => ih _
    rw [Slice.beUint_bind (by omega) (by omega) (by omega), Slice.beUint_bind (by omega) (by omega) (by omega)]
    exact ih _

theorem not_panics_verifyAVIF (b : Slice UInt8) : ¬ Panics (verifyAVIF b) := by
  refine not_panics_bind (not_panics_scanBoxes b) fun boxes hboxes => ?_
  match boxes, hboxes with
  | [], _ => exact not_panics_fail _
  | [_], _ => exact not_panics_fail _
  | ftyp :: second :: rest, hboxes =>
    have hcap := cap_of_scanBoxes hboxes
    dsimp only
    refine not_panics_check fun _ => ?_
    rw [Slice.slice_bind (by omega) (by omega)]
    refine not_panics_check fun _ => ?_
    cases findBox (ftyp :: second :: rest) (ascii "meta") with
    | none => exact not_panics_fail _
    | some bx =>
      refine not_panics_check fun hfour => ?_
      have hle := bx.payload.len_le_cap
      rw [verifyProps, Slice.sliceFrom, Slice.slice_bind (by omega) (by omega)]
      refine not_panics_bind ?_ fun ipco _ => not_panics_bind (not_panics_scanBoxes _) fun props _ => ?_
      · rw [panics_wrap]
        exact not_panics_descend _ _
      · refine not_panics_bind (not_panics_readProps _ _) fun s _ => not_panics_check fun _ => ?_
        refine not_panics_check fun _ => ?_
        exact not_panics_check fun _ => not_panics_pure _

end Avif

/-! ## WebM -/

section Ebml

theorem readBytes_eq_ok {b : Slice UInt8} {pos n : Nat} (h : pos + n ≤ b.len) : ∃ cs, readBytes b pos n = .ok cs := by
  induction n generalizing pos with
  | zero => exact ⟨[], rfl⟩
  | succ n ih =>
    obtain ⟨cs, hcs⟩ := @ih (pos + 1) (by omega)
    rw [readBytes, Slice.index_bind (by omega), hcs]
    exact ⟨_, rfl⟩

theorem not_panics_element (r : EbmlReader) : ¬ Panics r.element := by
  have hcap := r.b.len_le_cap
  rw [EbmlReader.element]
  refine not_panics_check fun hpos => ?_
  rw [Slice.index_bind (by omega)]
  generalize vintLen _ = n
  refine not_panics_check fun hn => ?_
  obtain ⟨cs, hcs⟩ := @readBytes_eq_ok r.b r.pos n (by omega)
  rw [hcs]
  refine not_panics_check fun hsize => ?_
  rw [Slice.index_bind (by omega)]
  generalize vintLen _ = sn
  refine not_panics_check fun hsn => ?_
  obtain ⟨rest, hrest⟩ := @readBytes_eq_ok r.b (r.pos + n + 1) (sn - 1) (by omega)
  rw [readSize, Slice.index_bind (by omega), hrest]
  refine not_panics_ite (fun _ => ?_) fun hend => ?_
  · rw [Slice.sliceFrom, Slice.slice_bind (by omega) (by omega)]
    exact not_panics_pure _
  · rw [not_or] at hend
    rw [Slice.slice_bind (by omega) (by omega)]
    exact not_panics_pure _

theorem not_panics_findFrom (cur : Slice UInt8) (i : Nat) (path : List Nat) : ¬ Panics (findFrom cur i path) := by
  induction path generalizing cur i with
  | nil => exact not_panics_pure _
  | cons want path ih =>
    rw [findFrom]
    refine not_panics_bind (fun hpanic => ?_) fun found _ => ?_
    · obtain ⟨r, -, hpanic⟩ := Loop.panics_run_iff.mp hpanic
      have hstep : ¬ Panics (findStep want r) := by
        rw [findStep]
        refine not_panics_ite (fun _ => ?_) fun _ => not_panics_pure _
        cases hel : r.element with
        | error e =>
          cases e with
          | error e => exact not_panics_pure _
          | panic => exact absurd hel (not_panics_element r)
        | ok p => exact not_panics_ite (fun _ => not_panics_pure _) fun _ => not_panics_pure _
      exact hstep hpanic
    · cases found with
      | none => exact not_panics_fail _
      | some found => exact ih found (i + 1)

theorem not_panics_findEBML (b : Slice UInt8) (path : List Nat) : ¬ Panics (findEBML b path) :=
  not_panics_findFrom b 0 path

theorem not_panics_verifyWebM (b : Slice UInt8) : ¬ Panics (verifyWebM b) := by
  refine not_panics_bind (not_panics_findEBML _ _) fun hdr _ => not_panics_bind (not_panics_findEBML _ _) fun dt _ => ?_
  refine not_panics_check fun _ => ?_
  refine not_panics_bind (not_panics_findEBML _ _) fun seg _ => not_panics_bind (not_panics_findEBML _ _) fun entry _ => ?_
  refine not_panics_bind (not_panics_findEBML _ _) fun codec _ => not_panics_check fun _ => ?_
  refine not_panics_bind (not_panics_findEBML _ _) fun uid _ => not_panics_check fun _ => ?_
  refine not_panics_bind (not_panics_findEBML _ _) fun video _ => not_panics_bind (not_panics_findEBML _ _) fun pw _ => ?_
  refine not_panics_bind (not_panics_findEBML _ _) fun ph _ => not_panics_check fun _ => ?_
  refine not_panics_bind ?_ fun cluster _ => not_panics_bind ?_ fun _ _ => not_panics_pure _
  · rw [panics_wrap]
    exact not_panics_findEBML _ _
  · rw [panics_wrap]
    exact not_panics_findEBML _ _

end Ebml

/-! ## MP4 -/

section Mp4

variable {D : Decoders} {b : Slice UInt8} {α : Type}

theorem panics_descend_bind {path : List Bytes} {f : Mp4Box → Run FixtureError α} :
    Panics (descend b path >>= f) ↔ ∃ bx, descend b path = .ok bx ∧ Panics (f bx) :=
  panics_bind_of_not (not_panics_descend b path)

/-- The file begins with the boxes of an `isom` file, and `Q`. -/
def BoxOrderAnd (b : Slice UInt8) (Q : Prop) : Prop :=
  ∃ ftyp moov mdat rest, scanBoxes b = .ok (ftyp :: moov :: mdat :: rest) ∧
    ¬ (ftyp.typ ≠ ascii "ftyp" ∨ moov.typ ≠ ascii "moov" ∨ mdat.typ ≠ ascii "mdat") ∧
    (ftyp.payload.sub 0 4).data = ascii "isom" ∧ Q

theorem panics_verifyBoxOrder_bind {f : Unit → Run FixtureError α} :
    Panics (verifyBoxOrder b >>= f) ↔ BoxOrderAnd b (Panics (f ())) := by
  rw [verifyBoxOrder, bind_assoc, panics_bind_of_not (not_panics_scanBoxes b)]
  constructor
  · rintro ⟨boxes, hboxes, hpanic⟩
    match boxes, hboxes, hpanic with
    | [], _, hpanic => exact absurd hpanic (not_panics_fail _)
    | [_], _, hpanic => exact absurd hpanic (not_panics_fail _)
    | [_, _], _, hpanic => exact absurd hpanic (not_panics_fail _)
    | ftyp :: moov :: mdat :: rest, hboxes, hpanic =>
      have hcap := cap_of_scanBoxes hboxes
      dsimp only at hpanic
      rw [panics_check_bind, Slice.slice_bind (by omega) (by omega), panics_check_bind, not_not, pure_bind] at hpanic
      exact ⟨ftyp, moov, mdat, rest, hboxes, hpanic⟩
  · rintro ⟨ftyp, moov, mdat, rest, hboxes, hpanic⟩
    have hcap := cap_of_scanBoxes hboxes
    refine ⟨_, hboxes, ?_⟩
    dsimp only
    rw [panics_check_bind, Slice.slice_bind (by omega) (by omega), panics_check_bind, not_not, pure_bind]
    exact hpanic

/-- The handler box has fewer than 12 bytes to the end of the array; or it is one for video, and `Q`. -/
def HandlerShortOr (b : Slice UInt8) (Q : Prop) : Prop :=
  ∃ hdlr, descend b (mdiaPath "hdlr") = .ok hdlr ∧
    (hdlr.payload.cap < 12 ∨ 12 ≤ hdlr.payload.cap ∧ (hdlr.payload.sub 8 12).data = ascii "vide" ∧ Q)

theorem panics_verifyHandler_bind {f : Unit → Run FixtureError α} :
    Panics (verifyHandler b >>= f) ↔ HandlerShortOr b (Panics (f ())) := by
  simp only [verifyHandler, bind_assoc]
  refine panics_descend_bind.trans (exists_congr fun hdlr => and_congr_right fun _ => ?_)
  rw [Slice.panics_slice_bind (by omega), panics_check_bind, not_not, pure_bind]

/-- The sample description is shorter than its header, or its one entry has fewer than 28 bytes to the end of the
array; or that entry is one of the size of the film, and `Q`. -/
def SampleEntryShortOr (b : Slice UInt8) (Q : Prop) : Prop :=
  ∃ stsd, descend b (stblPath "stsd") = .ok stsd ∧ (stsd.payload.len < 8 ∨ 8 ≤ stsd.payload.len ∧
    ∃ entry, scanBoxes (stsd.payload.sub 8 stsd.payload.len) = .ok [entry] ∧ entry.typ = ascii "jpeg" ∧
      (entry.payload.cap < 28 ∨ 28 ≤ entry.payload.cap ∧
        ¬ (entry.payload.beAt 24 26 ≠ mp4Width ∨ entry.payload.beAt 26 28 ≠ mp4Height) ∧ Q))

theorem panics_verifySampleEntry_bind {f : Unit → Run FixtureError α} :
    Panics (verifySampleEntry b >>= f) ↔ SampleEntryShortOr b (Panics (f ())) := by
  rw [verifySampleEntry, bind_assoc]
  refine panics_descend_bind.trans (exists_congr fun stsd => and_congr_right fun _ => ?_)
  have hcap := stsd.payload.len_le_cap
  by_cases hlen : stsd.payload.len < 8
  · rw [bind_assoc, panics_bind, Slice.sliceFrom, Slice.panics_slice]
    exact ⟨fun _ => .inl hlen, fun _ => .inl (.inl hlen)⟩
  rw [Slice.sliceFrom, Slice.slice_bind (by omega) (by omega), bind_assoc,
    panics_bind_of_not (not_panics_scanBoxes _)]
  constructor
  · rintro ⟨entries, hentries, hpanic⟩
    match entries, hentries, hpanic with
    | [], _, hpanic => exact absurd hpanic (not_panics_fail _)
    | _ :: _ :: _, _, hpanic => exact absurd hpanic (not_panics_fail _)
    | [entry], hentries, hpanic =>
      dsimp only at hpanic
      rw [panics_check_bind, not_not] at hpanic
      simp only [bind_assoc] at hpanic
      rw [Slice.panics_beUint_bind (by omega) (by omega), Slice.panics_beUint_bind (by omega) (by omega),
        short_or (by omega), panics_check_bind, pure_bind] at hpanic
      exact .inr ⟨by omega, entry, hentries, hpanic⟩
  · intro hor
    obtain ⟨-, entry, hentry, hpanic⟩ := hor.resolve_left hlen
    refine ⟨[entry], hentry, ?_⟩
    dsimp only
    rw [panics_check_bind, not_not]
    simp only [bind_assoc]
    rw [Slice.panics_beUint_bind (by omega) (by omega), Slice.panics_beUint_bind (by omega) (by omega),
      short_or (by omega), panics_check_bind, pure_bind]
    exact hpanic

/-- The media header has fewer than 20 bytes to the end of the array; or its duration is about a second, and `Q`. -/
def DurationShortOr (b : Slice UInt8) (Q : Prop) : Prop :=
  ∃ mdhd, descend b (mdiaPath "mdhd") = .ok mdhd ∧ (mdhd.payload.cap < 20 ∨ 20 ≤ mdhd.payload.cap ∧
    ¬ (mdhd.payload.beAt 12 16 = 0 ∨ mdhd.payload.beAt 16 20 = 0) ∧
    ¬ (10 * mdhd.payload.beAt 16 20 < 9 * mdhd.payload.beAt 12 16 ∨
      11 * mdhd.payload.beAt 12 16 < 10 * mdhd.payload.beAt 16 20) ∧ Q)

theorem panics_verifyDuration_bind {f : Unit → Run FixtureError α} :
    Panics (verifyDuration b >>= f) ↔ DurationShortOr b (Panics (f ())) := by
  simp only [verifyDuration, bind_assoc]
  refine panics_descend_bind.trans (exists_congr fun mdhd => and_congr_right fun _ => ?_)
  rw [Slice.panics_beUint_bind (by omega) (by omega), Slice.panics_beUint_bind (by omega) (by omega),
    short_or (by omega), panics_check_bind, panics_check_bind, pure_bind]

/-- The box of the sample sizes has fewer than 12 bytes to the end of the array; or it counts the frames of the film,
and `Q` of it. -/
def SizesShortOr (b : Slice UInt8) (Q : Slice UInt8 → Prop) : Prop :=
  ∃ stsz, descend b (stblPath "stsz") = .ok stsz ∧
    (stsz.payload.cap < 12 ∨ 12 ≤ stsz.payload.cap ∧ stsz.payload.beAt 8 12 = mp4Frames ∧ Q stsz.payload)

theorem panics_sampleSizes_bind {f : Slice UInt8 → Run FixtureError α} :
    Panics (sampleSizes b >>= f) ↔ SizesShortOr b fun stsz => Panics (f stsz) := by
  simp only [sampleSizes, bind_assoc]
  refine panics_descend_bind.trans (exists_congr fun stsz => and_congr_right fun _ => ?_)
  rw [Slice.panics_beUint_bind (by omega) (by omega), panics_check_bind, not_not, pure_bind]

/-- The box of the chunk offset has fewer than 12 bytes to the end of the array; or its offset lies in the file, and is
below four, or behind the type `mdat` and `Q` of it. -/
def OffsetShortOr (b : Slice UInt8) (Q : Nat → Prop) : Prop :=
  ∃ stco, descend b (stblPath "stco") = .ok stco ∧
    (stco.payload.cap < 12 ∨ 12 ≤ stco.payload.cap ∧ stco.payload.beAt 8 12 + 8 ≤ b.len ∧
      (stco.payload.beAt 8 12 < 4 ∨ 4 ≤ stco.payload.beAt 8 12 ∧
        (b.sub (stco.payload.beAt 8 12 - 4) (stco.payload.beAt 8 12)).data = ascii "mdat" ∧ Q (stco.payload.beAt 8 12)))

theorem panics_firstSample_bind {f : Nat → Run FixtureError α} :
    Panics (firstSample b >>= f) ↔ OffsetShortOr b fun off => Panics (f off) := by
  have hcap := b.len_le_cap
  simp only [firstSample, bind_assoc]
  refine panics_descend_bind.trans (exists_congr fun stco => and_congr_right fun _ => ?_)
  rw [Slice.panics_beUint_bind (by omega) (by omega)]
  generalize stco.payload.beAt 8 12 = off
  refine or_congr_right (and_congr_right fun _ => ?_)
  rw [panics_check_bind, Nat.not_lt]
  refine and_congr_right fun hlen => ?_
  by_cases hfour : off < 4
  · rw [if_pos hfour]
    exact ⟨fun _ => .inl hfour, fun _ => panics_crash⟩
  · rw [if_neg hfour, bind_assoc, Slice.slice_bind (by omega) (by omega), panics_check_bind, not_not, pure_bind]
    exact ⟨fun h => .inr ⟨by omega, h⟩, fun h => (h.resolve_left hfour).2⟩

theorem panics_decoded_bind {β : Type} {wrap : DecodeError → FixtureError} {x : Except DecodeError β}
    {f : β → Run FixtureError α} : Panics (decoded wrap x >>= f) ↔ ∃ a, x = .ok a ∧ Panics (f a) := by
  cases x with
  | error e => exact ⟨nofun, nofun⟩
  | ok a =>
    constructor
    · intro h
      exact ⟨a, rfl, h⟩
    · rintro ⟨a', ha, h⟩
      rw [← Except.ok.inj ha] at h
      exact h

/-- The offset of a sample behind those before it, whose sizes are in the table. -/
def sampleStart (stsz : Slice UInt8) (off : Nat) : Nat → Nat
  | 0 => off
  | j + 1 => sampleStart stsz off j + stsz.beAt (12 + 4 * j) (16 + 4 * j)

/-- A sample lies in the file and is an image. -/
def SampleDecodes (D : Decoders) (b stsz : Slice UInt8) (off j : Nat) : Prop :=
  sampleStart stsz off (j + 1) ≤ b.len ∧
    ∃ image, D.jpegDecode (b.sub (sampleStart stsz off j) (sampleStart stsz off (j + 1))).data = .ok image

/-- The table of sizes ends before the entry of a sample, and the samples before it decode. -/
def ShortTable (D : Decoders) (b stsz : Slice UInt8) (off : Nat) : Prop :=
  ∃ k < mp4Frames, (∀ j < k, SampleDecodes D b stsz off j) ∧ stsz.cap < 16 + 4 * k

theorem panics_verifySamples {stsz : Slice UInt8} {off n i : Nat} :
    Panics (verifySamples D b stsz n i (sampleStart stsz off i)) ↔
      ∃ k, i ≤ k ∧ k < i + n ∧ (∀ j, i ≤ j → j < k → SampleDecodes D b stsz off j) ∧ stsz.cap < 16 + 4 * k := by
  have hcap := b.len_le_cap
  induction n generalizing i with
  | zero => exact ⟨fun h => absurd h (not_panics_pure _), fun ⟨k, hle, hlt, _⟩ => absurd hlt (by omega)⟩
  | succ n ih =>
    rw [verifySamples, Slice.panics_beUint_bind (by omega) (by omega), panics_check, Nat.not_lt]
    constructor
    · rintro (hlt | ⟨hfits, hend, hpanic⟩)
      · exact ⟨i, le_refl i, by omega, fun j hle hlt => absurd hlt (by omega), hlt⟩
      · rw [Slice.slice_bind (by omega) (by omega), panics_decoded_bind] at hpanic
        obtain ⟨image, hdecode, hpanic⟩ := hpanic
        obtain ⟨k, hle, hlt, hall, hshort⟩ := ih.mp hpanic
        refine ⟨k, by omega, by omega, fun j hij hjk => ?_, hshort⟩
        rcases Nat.eq_or_lt_of_le hij with rfl | hij
        · exact ⟨hend, image, hdecode⟩
        · exact hall j hij hjk
    · rintro ⟨k, hle, hlt, hall, hshort⟩
      by_cases hfits : stsz.cap < 16 + 4 * i
      · exact .inl hfits
      · have hne : i ≠ k := by
          rintro rfl
          exact hfits hshort
        obtain ⟨hend, image, hdecode⟩ := hall i (le_refl i) (by omega)
        rw [sampleStart] at hend hdecode
        refine .inr ⟨by omega, hend, ?_⟩
        rw [Slice.slice_bind (by omega) (by omega), panics_decoded_bind]
        refine ⟨image, hdecode, ih.mpr ⟨k, by omega, by omega, fun j hij => hall j (by omega), hshort⟩⟩

/-- A part of an MP4 file is shorter than what is read of it, and the parts before it are as they should be. -/
def ShortMP4 (D : Decoders) (b : Slice UInt8) : Prop :=
  BoxOrderAnd b <| HandlerShortOr b <| SampleEntryShortOr b <| DurationShortOr b <| SizesShortOr b fun stsz =>
    OffsetShortOr b fun off => ShortTable D b stsz off

theorem panics_verifyMP4 : Panics (verifyMP4 D b) ↔ ShortMP4 D b := by
  have htable : ∀ stsz off, Panics (verifySamples D b stsz mp4Frames 0 off) ↔ ShortTable D b stsz off := by
    intro stsz off
    have h := @panics_verifySamples D b stsz off mp4Frames 0
    rw [sampleStart] at h
    rw [h, ShortTable]
    simp only [Nat.zero_le, true_and, Nat.zero_add, true_implies]
  rw [verifyMP4, ShortMP4, panics_verifyBoxOrder_bind, panics_verifyHandler_bind, panics_verifySampleEntry_bind,
    panics_verifyDuration_bind, panics_sampleSizes_bind]
  simp only [panics_firstSample_bind, htable]

end Mp4

end Vizra.Fixtures
