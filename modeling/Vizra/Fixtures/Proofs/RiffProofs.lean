import Vizra.Fixtures.Webp

/-!
# The chunk walker reads what the chunk writer writes

A chunk of odd length is followed by a byte that belongs to no payload. The writer of a chunk, the size of the
container and the stride of the walk all count it.
-/

namespace Vizra.Fixtures

open Go Go.Run

/-- What a chunk says: its id and its payload. -/
def RiffChunkRef.contents (c : RiffChunkRef) : Bytes × Bytes := (c.fourCC, c.payload.data)

/-- The bytes of a list of chunks. -/
def riffChunks (l : List (Bytes × Bytes)) : Bytes := l.flatMap fun p => riffChunk p.1 p.2

theorem length_riffChunk {fourCC payload : Bytes} (h : fourCC.length = 4) :
    (riffChunk fourCC payload).length = 8 + payload.length + payload.length % 2 := by
  simp only [riffChunk, List.length_append, length_putLE, h]
  split_ifs with hodd
  · rw [hodd, List.length_singleton]
  · rw [List.length_nil]
    omega

theorem length_riffFile (body : Bytes) : (riffFile body).length = 12 + body.length := by
  have hriff : (ascii "RIFF").length = 4 := rfl
  have hwebp : (ascii "WEBP").length = 4 := rfl
  simp only [riffFile, List.length_append, length_putLE, hriff, hwebp]

variable {b : Slice UInt8} {i : Nat}

/-- A chunk that stands at an offset is the chunk that the walk reads there. -/
theorem declaredLength_of_at {p : Bytes × Bytes} (hid : p.1.length = 4) (hsize : p.2.length < 2 ^ 32)
    (h : b.At i (riffChunk p.1 p.2)) (hle : i + (riffChunk p.1 p.2).length ≤ b.len) :
    declaredLength b i = p.2.length ∧ (chunkAt b i).contents = p := by
  rw [length_riffChunk hid] at hle
  rw [riffChunk, Slice.At.append_iff, Slice.At.append_iff, Slice.At.append_iff, List.length_append, length_putLE,
    hid, Slice.At.iff_sub (show i + 4 = _ by omega) (by omega),
    Slice.At.putLE_iff (show i + 8 = _ by omega) (by omega) (by omega),
    Slice.At.iff_sub (show i + 8 + p.2.length = _ by omega) (by omega)] at h
  obtain ⟨⟨⟨hcc, hdeclared⟩, hpayload⟩, -⟩ := h
  refine ⟨hdeclared, ?_⟩
  rw [RiffChunkRef.contents, chunkAt, show declaredLength b i = p.2.length from hdeclared, hcc]
  exact congrArg (Prod.mk p.1) hpayload

/-- What a round of the walk does at an offset. -/
def visitChunk (b : Slice UInt8) (i : Nat) : Run FixtureError (Option (Nat × RiffChunkRef)) :=
  if i + 8 ≤ b.len then
    if b.len < i + 8 + declaredLength b i then fail (.chunkPastEnd (chunkAt b i).fourCC)
    else .ok (some (i + (8 + declaredLength b i) + declaredLength b i % 2, chunkAt b i))
  else .ok none

theorem scanRIFFLoop_step (b : Slice UInt8) (s : Nat × List RiffChunkRef) :
    (scanRIFFLoop b).step s = collect (visitChunk b) s := by
  show scanRIFFStep b s = _
  rw [scanRIFFStep_eq, collect, visitChunk]
  split_ifs
  all_goals rfl

theorem visits_of_chunks {l : List (Bytes × Bytes)} (hid : ∀ p ∈ l, p.1.length = 4) (hlen : b.len < 2 ^ 32)
    (hi : i ≤ b.len) (h : b.data.drop i = riffChunks l) :
    ∃ cs, Visits (visitChunk b) i cs ∧ cs.map RiffChunkRef.contents = l := by
  induction l generalizing i with
  | nil =>
    have hend : b.len ≤ i := List.drop_eq_nil_iff.mp h
    refine ⟨[], .stop ?_, rfl⟩
    rw [visitChunk, if_neg (by omega)]
  | cons p l ih =>
    have hp := hid p List.mem_cons_self
    have hat : b.At i (riffChunk p.1 p.2) := ⟨riffChunks l, h.symm⟩
    have hlength := @length_riffChunk p.1 p.2 hp
    have hle := hat.fits (by omega)
    obtain ⟨hsize, hcontents⟩ := declaredLength_of_at hp (by omega) hat hle
    have hrest : b.data.drop (i + (8 + declaredLength b i) + declaredLength b i % 2) = riffChunks l := by
      rw [hsize, Nat.add_assoc i, ← hlength, ← List.drop_drop, h]
      exact List.drop_left
    obtain ⟨cs, hcs, hmap⟩ := ih (fun q hq => hid q (List.mem_cons_of_mem _ hq)) (by omega) hrest
    refine ⟨chunkAt b i :: cs, .item ?_ hcs, ?_⟩
    · rw [visitChunk, if_pos (by omega), if_neg (by omega)]
    · rw [List.map_cons, hcontents, hmap]

/-- The header of a container is accepted, and the walk starts behind it. -/
theorem scanRIFF_riffFile {body : Bytes} (hb : b.data = riffFile body) (hsize : b.len < 2 ^ 32) :
    scanRIFF b = (scanRIFFLoop b).run (12, []) := by
  have hcap := b.len_le_cap
  have hlen : b.len = 12 + body.length := by rw [← length_riffFile, ← hb, Slice.length_data]
  have hat : b.At 0 (riffFile body) := by
    rw [Slice.At, hb]
    exact List.prefix_refl _
  rw [riffFile, Slice.At.append_iff, Slice.At.append_iff, Slice.At.append_iff] at hat
  obtain ⟨⟨⟨hriff, hput⟩, hwebp⟩, -⟩ := hat
  have hriff' : (b.sub 0 4).data = ascii "RIFF" := (Slice.At.iff_sub rfl (show 4 ≤ b.len by omega)).mp hriff
  have hwebp' : (b.sub 8 12).data = ascii "WEBP" := (Slice.At.iff_sub rfl (show 12 ≤ b.len by omega)).mp hwebp
  have hread : b.leAt 4 8 = 4 + body.length := (Slice.At.putLE_iff rfl (show 8 ≤ b.len by omega) (by omega)).mp hput
  rw [scanRIFF, if_neg (by omega), Slice.slice_bind (by omega) (by omega), hriff', if_neg (not_not_intro rfl),
    Slice.slice_bind (by omega) (by omega), hwebp', if_neg (not_not_intro rfl),
    Slice.leUint_bind (by omega) (by omega) (by omega), hread, if_neg (not_not_intro (by omega))]

/-- A container of any chunks, of odd lengths too, is read back chunk by chunk. -/
theorem scanRIFF_riffChunks (l : List (Bytes × Bytes)) (spare : Bytes) (hid : ∀ p ∈ l, p.1.length = 4)
    (hsize : (riffFile (riffChunks l)).length < 2 ^ 32) :
    ∃ out, scanRIFF ⟨riffFile (riffChunks l), spare⟩ = .ok out ∧ out.map RiffChunkRef.contents = l := by
  have hlen := length_riffFile (riffChunks l)
  have hstart : scanRIFF ⟨riffFile (riffChunks l), spare⟩ = (scanRIFFLoop _).run (12, []) :=
    scanRIFF_riffFile rfl hsize
  rw [hstart]
  simp only [run_eq_ok_iff_visits (scanRIFFLoop_step _)]
  apply visits_of_chunks hid
  · exact hsize
  · show 12 ≤ (riffFile (riffChunks l)).length
    omega
  · exact List.drop_left' rfl

theorem scanRIFF_riffChunks_odd :
    ∃ out, scanRIFF ⟨riffFile (riffChunks [(ascii "ICCP", [1, 2, 3]), (ascii "EXIF", [])]), []⟩ = .ok out ∧
      out.map RiffChunkRef.contents = [(ascii "ICCP", [1, 2, 3]), (ascii "EXIF", [])] := by
  apply scanRIFF_riffChunks
  · intro p hp
    rcases List.mem_pair.mp hp with rfl | rfl
    · rfl
    · rfl
  · show 32 < 2 ^ 32
    omega

end Vizra.Fixtures
