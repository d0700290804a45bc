import Vizra.Fixtures.Png

/-!
# Where the PNG reader panics

The walk over the chunks checks the length of a chunk against the file and its checksum. It does not check that an
`IHDR` chunk is as long as the fields that it reads from it, so a short one ends the program.
-/

namespace Vizra.Fixtures

open Go Go.Run

variable {D : Decoders} {b : Slice UInt8} {i : Nat}

/-- The bytes of a list of chunks. -/
def pngChunks (D : Decoders) (l : List (Bytes × Bytes)) : Bytes := l.flatMap fun c => pngChunk D c.1 c.2

/-- A file with an `IHDR` chunk too short for its fields, behind chunks that the walk passes. -/
def ShortIHDR (D : Decoders) (b : Bytes) : Prop :=
  ∃ chunks data rest, b = pngMagic ++ pngChunks D chunks ++ pngChunk D (ascii "IHDR") data ++ rest ∧
    data.length < 10 ∧ ∀ c ∈ chunks, c.1.length = 4 ∧ c.1 ≠ ascii "IEND" ∧ c.2.length < 2 ^ 32

theorem length_pngChunk {typ data : Bytes} (h : typ.length = 4) : (pngChunk D typ data).length = 12 + data.length := by
  simp only [pngChunk, List.length_append, length_putBE, h]
  omega

/-! ## One chunk -/

/-- The length that a chunk at an offset declares. -/
def pngLength (b : Slice UInt8) (i : Nat) : Nat := b.beAt i (i + 4)

theorem pngChunkAt_eq (h : i + 8 ≤ b.len) :
    pngChunkAt D b i =
      if b.len < i + 12 + pngLength b i then fail (.chunkPastEnd (b.sub (i + 4) (i + 8)).data)
      else if (D.checksumIEEE (b.sub (i + 4) (i + 8 + pngLength b i)).data).toNat ≠
          b.beAt (i + 8 + pngLength b i) (i + 12 + pngLength b i) then
        fail (.badCRC (b.sub (i + 4) (i + 8)).data)
      else .ok ((b.sub (i + 4) (i + 8)).data, b.sub (i + 8) (i + 8 + pngLength b i), pngLength b i) := by
  have hcap := b.len_le_cap
  rw [pngChunkAt, Slice.beUint_bind (by omega) (by omega) (by omega), Slice.slice_bind (by omega) (by omega)]
  by_cases hend : b.len < i + 12 + b.beAt i (i + 4)
  · rw [if_pos hend, pngLength, if_pos hend]
  · rw [if_neg hend, pngLength, if_neg hend, Slice.slice_bind (by omega) (by omega),
      Slice.beUint_bind (by omega) (by omega) (by omega), Slice.slice_bind (by omega) (by omega)]
    rfl

theorem not_panics_pngChunkAt (h : i + 8 ≤ b.len) : ¬ Panics (pngChunkAt D b i) := by
  rw [pngChunkAt_eq h]
  refine not_panics_check fun _ => ?_
  exact not_panics_check fun _ => not_panics_ok _

theorem at_pngChunk_iff {typ data : Bytes} (htyp : typ.length = 4) (hsize : data.length < 2 ^ 32)
    (hfits : i + 12 + data.length ≤ b.len) :
    b.At i (pngChunk D typ data) ↔ ((pngLength b i = data.length ∧ (b.sub (i + 4) (i + 8)).data = typ) ∧
      (b.sub (i + 8) (i + 8 + data.length)).data = data) ∧
      b.beAt (i + 8 + data.length) (i + 12 + data.length) = (D.checksumIEEE (typ ++ data)).toNat := by
  rw [pngChunk, Slice.At.append_iff, Slice.At.append_iff, Slice.At.append_iff]
  simp only [List.length_append, length_putBE, htyp]
  rw [Slice.At.putBE_iff rfl (by omega) (by omega), Slice.At.iff_sub (show i + 8 = _ by omega) (by omega),
    Slice.At.iff_sub (show i + 8 + data.length = _ by omega) (by omega),
    show i + (4 + 4 + data.length) = i + 8 + data.length by omega,
    Slice.At.putBE_iff (show i + 12 + data.length = _ by omega) hfits (D.checksumIEEE (typ ++ data)).toNat_lt]
  rfl

/-- A chunk that stands at an offset is read there. -/
theorem pngChunkAt_of_at {typ data : Bytes} (htyp : typ.length = 4) (hdata : data.length < 2 ^ 32)
    (h : b.At i (pngChunk D typ data)) :
    i + 12 + data.length ≤ b.len ∧ ∃ s : Slice UInt8, pngChunkAt D b i = .ok (typ, s, data.length) ∧ s.data = data := by
  have hle := h.fits (by rw [length_pngChunk htyp]; omega)
  rw [length_pngChunk htyp] at hle
  obtain ⟨⟨⟨hlength, htype⟩, hpayload⟩, hsum⟩ := (at_pngChunk_iff htyp hdata (by omega)).mp h
  refine ⟨by omega, b.sub (i + 8) (i + 8 + data.length), ?_, hpayload⟩
  rw [pngChunkAt_eq (by omega), hlength, if_neg (by omega), hsum,
    Slice.data_sub_append (show i + 4 ≤ i + 8 by omega) (by omega), htype, hpayload, if_neg (not_not_intro rfl)]

/-- A chunk that is read stands at the offset. -/
theorem at_of_pngChunkAt (h : i + 8 ≤ b.len) {typ : Bytes} {s : Slice UInt8} {n : Nat}
    (hchunk : pngChunkAt D b i = .ok (typ, s, n)) :
    typ.length = 4 ∧ s.data.length = n ∧ n < 2 ^ 32 ∧ i + 12 + n ≤ b.len ∧ b.At i (pngChunk D typ s.data) := by
  have hcap := b.len_le_cap
  rw [pngChunkAt_eq h] at hchunk
  split_ifs at hchunk with hend hsum
  · cases hchunk
  · cases hchunk
  · cases hchunk
    have htyp : (b.sub (i + 4) (i + 8)).data.length = 4 := (Slice.len_sub (by omega)).trans (by omega)
    have hdata : (b.sub (i + 8) (i + 8 + pngLength b i)).data.length = pngLength b i :=
      (Slice.len_sub (by omega)).trans (by omega)
    have hbound : pngLength b i < 256 ^ 4 := Slice.beAt_lt (by omega) (by omega)
    refine ⟨htyp, hdata, hbound, by omega, (at_pngChunk_iff htyp (by omega) (by omega)).mpr ?_⟩
    rw [hdata, ← Slice.data_sub_append (by omega) (by omega)]
    exact ⟨⟨⟨rfl, rfl⟩, rfl⟩, (not_not.mp hsum).symm⟩

theorem readIHDR_eq_ok {data : Slice UInt8} (h : PngHeader) (hten : 10 ≤ data.len) : ∃ h', readIHDR h data = .ok h' := by
  have hcap := data.len_le_cap
  rw [readIHDR, Slice.beUint_bind (by omega) (by omega) (by omega), Slice.beUint_bind (by omega) (by omega) (by omega),
    Slice.index_bind (by omega), Slice.index_bind (by omega)]
  exact ⟨_, rfl⟩

theorem panics_readIHDR {h : PngHeader} {data : Slice UInt8} : Panics (readIHDR h data) ↔ data.len < 10 := by
  constructor
  · intro hpanic
    by_contra hten
    obtain ⟨h', hh'⟩ := readIHDR_eq_ok h (Nat.le_of_not_lt hten)
    rw [hh'] at hpanic
    exact not_panics_ok _ hpanic
  · intro hlt
    rw [readIHDR, Slice.panics_beUint_bind (by omega) (by omega), Slice.panics_beUint_bind (by omega) (by omega),
      short_or (by omega), Slice.panics_index_bind]
    simp only [panics_bind_pure, Slice.panics_index]
    by_cases h8 : data.cap < 8
    · exact .inl h8
    refine .inr ⟨by omega, ?_⟩
    by_cases h9 : data.len ≤ 8
    · exact .inl h9
    · exact .inr ⟨_, List.getElem?_eq_getElem (Nat.lt_of_not_le h9), by omega⟩

/-! ## The walk -/

theorem panics_readPNGChunk {s : PngScan} {typ : Bytes} {data : Slice UInt8} {n : Nat} :
    Panics (readPNGChunk s typ data n) ↔ typ = ascii "IHDR" ∧ data.len < 10 := by
  rw [readPNGChunk, panics_ite, panics_bind_pure, panics_readIHDR]
  refine or_iff_left fun h => not_panics_ite (fun _ => not_panics_pure _) (fun _ => ?_) h.2
  refine not_panics_ite (fun _ => ?_) fun _ => not_panics_pure _
  exact not_panics_ite (fun _ => not_panics_pure _) fun _ => not_panics_fail _

theorem panics_scanPNGStep {s : PngScan} : Panics (scanPNGStep D b s) ↔
    s.i + 8 ≤ b.len ∧ ∃ data n, pngChunkAt D b s.i = .ok (ascii "IHDR", data, n) ∧ data.len < 10 := by
  rw [scanPNGStep, panics_ite, or_iff_left fun h => not_panics_fail _ h.2]
  refine and_congr_right fun hlen => (panics_bind_of_not (not_panics_pngChunkAt hlen)).trans ?_
  constructor
  · rintro ⟨⟨typ, data, n⟩, hchunk, hread⟩
    obtain ⟨rfl, hlt⟩ := panics_readPNGChunk.mp hread
    exact ⟨data, n, hchunk, hlt⟩
  · rintro ⟨data, n, hchunk, hlt⟩
    exact ⟨_, hchunk, panics_readPNGChunk.mpr ⟨rfl, hlt⟩⟩

/-- A chunk that is not the last one and does not panic leaves the walk behind it. -/
theorem readPNGChunk_goes {s : PngScan} {typ : Bytes} {data : Slice UInt8} {n : Nat} (hend : typ ≠ ascii "IEND")
    (hsafe : ¬ Panics (readPNGChunk s typ data n)) :
    ∃ t : PngScan, readPNGChunk s typ data n = .ok (.inl t) ∧ t.i = s.i + (12 + n) := by
  rw [panics_readPNGChunk, not_and, Nat.not_lt] at hsafe
  rw [readPNGChunk]
  split_ifs with hihdr hidat
  · obtain ⟨h, hread⟩ := readIHDR_eq_ok s.h (hsafe hihdr)
    rw [hread]
    exact ⟨_, rfl, rfl⟩
  · exact ⟨_, rfl, rfl⟩
  · exact ⟨_, rfl, rfl⟩

theorem panics_run_of_chunks {chunks : List (Bytes × Bytes)} {data rest : Bytes} {s : PngScan}
    (hchunks : ∀ c ∈ chunks, c.1.length = 4 ∧ c.1 ≠ ascii "IEND" ∧ c.2.length < 2 ^ 32) (hdata : data.length < 10)
    (h : b.data.drop s.i = pngChunks D chunks ++ pngChunk D (ascii "IHDR") data ++ rest) :
    Panics ((scanPNGLoop D b).run s) := by
  induction chunks generalizing s with
  | nil =>
    have hat : b.At s.i (pngChunk D (ascii "IHDR") data) := ⟨rest, h.symm⟩
    obtain ⟨hle, sl, hchunk, hsl⟩ := pngChunkAt_of_at rfl (by omega) hat
    refine Loop.panics_run_iff.mpr ⟨s, .refl, panics_scanPNGStep.mpr ⟨by omega, sl, _, hchunk, ?_⟩⟩
    rw [← Slice.length_data, hsl]
    exact hdata
  | cons c chunks ih =>
    obtain ⟨⟨hfour, hend, hsize⟩, hrest⟩ := List.forall_mem_cons.mp hchunks
    have hcons : pngChunks D (c :: chunks) = pngChunk D c.1 c.2 ++ pngChunks D chunks := rfl
    rw [hcons, List.append_assoc, List.append_assoc] at h
    obtain ⟨hle, sl, hchunk, hsl⟩ := pngChunkAt_of_at hfour hsize ⟨_, h.symm⟩
    have hstep : (scanPNGLoop D b).step s = readPNGChunk s c.1 sl c.2.length := by
      show scanPNGStep D b s = _
      rw [scanPNGStep, if_pos (by omega), hchunk]
      rfl
    by_cases hpanic : Panics (readPNGChunk s c.1 sl c.2.length)
    · rw [← hstep] at hpanic
      exact Loop.panics_run_iff.mpr ⟨s, .refl, hpanic⟩
    · obtain ⟨t, ht, hti⟩ := readPNGChunk_goes hend hpanic
      rw [Loop.run_of_next (hstep.trans ht)]
      refine ih hrest ?_
      rw [hti, ← List.drop_drop, h, ← length_pngChunk hfour, List.drop_left, List.append_assoc]

theorem panics_scanPNG : Panics (scanPNG D b) ↔ ShortIHDR D b.data := by
  rw [scanPNG, panics_check]
  constructor
  · rintro ⟨hmagic, hpanic⟩
    obtain ⟨t, hgoes, hpanic⟩ := Loop.panics_run_iff.mp hpanic
    obtain ⟨hlen, data, n, hchunk, hlt⟩ := panics_scanPNGStep.mp hpanic
    have hmagic' : 8 ≤ b.len ∧ b.data.take 8 = pngMagic := by
      rw [not_or, not_lt, not_not] at hmagic
      exact hmagic
    -- what the walk has passed are chunks
    have hinv : t.i ≤ b.len ∧ ∃ chunks, b.data.take t.i = pngMagic ++ pngChunks D chunks ∧
        ∀ c ∈ chunks, c.1.length = 4 ∧ c.1 ≠ ascii "IEND" ∧ c.2.length < 2 ^ 32 := by
      refine hgoes.invariant (P := fun s => s.i ≤ b.len ∧ ∃ chunks, b.data.take s.i = pngMagic ++ pngChunks D chunks ∧
        ∀ c ∈ chunks, c.1.length = 4 ∧ c.1 ≠ ascii "IEND" ∧ c.2.length < 2 ^ 32)
        ⟨hmagic'.1, [], hmagic'.2.trans (List.append_nil _).symm, nofun⟩ ?_
      rintro u v ⟨hle, chunks, htake, hchunks⟩ hstep
      obtain ⟨hlen, typ, sl, n, hchunk, hread⟩ := scanPNGStep_next hstep
      obtain ⟨hend, hi⟩ := readPNGChunk_next hread
      obtain ⟨hfour, hsize, hbound, hfits, ⟨rest, hat⟩⟩ := at_of_pngChunkAt hlen hchunk
      refine ⟨by omega, chunks ++ [(typ, sl.data)], ?_, ?_⟩
      · have htwelve : (pngChunk D typ sl.data).length = 12 + n := by rw [length_pngChunk hfour, hsize]
        rw [hi, List.take_add, htake, ← hat, ← htwelve, List.take_left, pngChunks, pngChunks, List.flatMap_append,
          List.flatMap_singleton, List.append_assoc]
      · intro c hc
        rcases List.mem_append.mp hc with hc | hc
        · exact hchunks c hc
        · rw [List.mem_singleton.mp hc]
          exact ⟨hfour, hend, hsize.trans_lt hbound⟩
    obtain ⟨hle, chunks, htake, hchunks⟩ := hinv
    obtain ⟨-, -, -, -, ⟨rest, hat⟩⟩ := at_of_pngChunkAt hlen hchunk
    refine ⟨chunks, data.data, rest, ?_, hlt, hchunks⟩
    rw [← htake, List.append_assoc, hat, List.take_append_drop]
  · rintro ⟨chunks, data, rest, hb, hdata, hchunks⟩
    have hdrop : b.data.drop 8 = pngChunks D chunks ++ pngChunk D (ascii "IHDR") data ++ rest := by
      rw [hb, List.append_assoc, List.append_assoc, List.append_assoc (pngChunks D chunks)]
      exact List.drop_left' rfl
    have htake : b.data.take 8 = pngMagic := by
      rw [hb, List.append_assoc, List.append_assoc]
      exact List.take_left' rfl
    have hlen : ¬ b.len < 8 := by
      have hlength := congrArg List.length htake
      rw [List.length_take, Slice.length_data, show pngMagic.length = 8 from rfl] at hlength
      omega
    refine ⟨?_, panics_run_of_chunks hchunks hdata hdrop⟩
    rw [not_or, not_not]
    exact ⟨hlen, htake⟩

/-! ## The verifiers -/

theorem not_panics_decoded {α : Type} {wrap : DecodeError → FixtureError} {x : Except DecodeError α} :
    ¬ Panics (decoded wrap x) := not_panics_lift _

/-- A verifier that goes on from the header without a panic panics where the reader does. -/
theorem panics_scanPNG_bind {f : PngHeader → Run FixtureError Unit} (hf : ∀ h, ¬ Panics (f h)) :
    Panics (scanPNG D b >>= f) ↔ ShortIHDR D b.data := by
  rw [panics_bind, panics_scanPNG]
  exact ⟨fun h => h.elim id fun ⟨h, _, hpanic⟩ => absurd hpanic (hf h), .inl⟩

theorem panics_verifyAlphaPNG : Panics (verifyAlphaPNG D b) ↔ ShortIHDR D b.data := by
  refine panics_scanPNG_bind fun h => not_panics_check fun _ => ?_
  refine not_panics_bind not_panics_decoded fun alphas _ => ?_
  exact not_panics_check fun _ => not_panics_pure _

theorem panics_verifyOversizedPNG : Panics (verifyOversizedPNG D b) ↔ ShortIHDR D b.data := by
  refine panics_scanPNG_bind fun h => not_panics_check fun _ => ?_
  refine not_panics_check fun _ => ?_
  refine not_panics_check fun _ => ?_
  refine not_panics_bind not_panics_decoded fun cfg _ => ?_
  exact not_panics_check fun _ => not_panics_pure _

theorem panics_verifyBombPNG : Panics (verifyBombPNG D b) ↔ ShortIHDR D b.data := by
  refine panics_scanPNG_bind fun h => not_panics_check fun _ => ?_
  refine not_panics_check fun _ => ?_
  refine not_panics_bind not_panics_decoded fun n hn => ?_
  refine not_panics_check fun _ => ?_
  refine not_panics_check fun _ => ?_
  refine not_panics_ite (fun hempty => ?_) fun _ => ?_
  · -- an empty stream does not inflate, so the division is never reached with it
    obtain ⟨e, he⟩ := D.inflate_nil
    rw [List.length_eq_zero_iff.mp hempty, he] at hn
    cases hn
  · exact not_panics_check fun _ => not_panics_pure _

end Vizra.Fixtures
