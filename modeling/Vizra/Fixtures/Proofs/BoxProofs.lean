import Vizra.Fixtures.Mp4

/-!
# The box walker reads what the box writer writes, and nothing else

One round of the walk takes exactly one box off the bytes in front of it. A walk that ends without an error has taken
the whole slice apart into boxes.
-/

namespace Vizra.Fixtures

open Go Go.Run

/-- What a box says: its type and its payload. -/
def Mp4Box.contents (bx : Mp4Box) : Bytes × Bytes := (bx.typ, bx.payload.data)

/-- The bytes of a list of boxes. -/
def boxes (l : List (Bytes × Bytes)) : Bytes := l.flatMap fun p => box p.1 p.2

/-- A type of four bytes, and a size that its field can hold. -/
def FitsBox (p : Bytes × Bytes) : Prop := p.1.length = 4 ∧ (box p.1 p.2).length < 2 ^ 32

theorem length_box {typ payload : Bytes} (h : typ.length = 4) : (box typ payload).length = 8 + payload.length := by
  rw [box, List.length_append, List.length_append, length_putBE, h]

section Walk

variable {b : Slice UInt8} {i : Nat}

theorem at_box_iff {typ payload : Bytes} (htyp : typ.length = 4) (hsize : 8 + payload.length < 2 ^ 32)
    (hfits : i + (8 + payload.length) ≤ b.len) :
    b.At i (box typ payload) ↔ declaredSize b i = 8 + payload.length ∧ (b.sub (i + 4) (i + 8)).data = typ ∧
      (b.sub (i + 8) (i + (8 + payload.length))).data = payload := by
  rw [box, Slice.At.append_iff, Slice.At.append_iff, List.length_append, length_putBE, htyp,
    Slice.At.putBE_iff rfl (by omega) (by omega), Slice.At.iff_sub (show i + 8 = _ by omega) (by omega),
    Slice.At.iff_sub (show i + (8 + payload.length) = _ by omega) hfits, and_assoc]
  rfl

/-- A box that stands at an offset is the box that the walk reads there. -/
theorem declaredSize_of_at {p : Bytes × Bytes} (hp : FitsBox p) (h : b.At i (box p.1 p.2)) :
    declaredSize b i = 8 + p.2.length ∧ i + (8 + p.2.length) ≤ b.len ∧ (boxAt b i).contents = p := by
  obtain ⟨htyp, hsize⟩ := hp
  rw [length_box htyp] at hsize
  have hle := h.fits (by rw [length_box htyp]; omega)
  rw [length_box htyp] at hle
  obtain ⟨hdeclared, htype, hpayload⟩ := (at_box_iff htyp hsize hle).mp h
  refine ⟨hdeclared, hle, ?_⟩
  rw [Mp4Box.contents, boxAt, hdeclared, htype, hpayload]

/-- Where the walk finds a box, the bytes of that box stand. -/
theorem at_of_declaredSize (hlo : 8 ≤ declaredSize b i) (hhi : i + declaredSize b i ≤ b.len) :
    FitsBox (boxAt b i).contents ∧ b.At i (box (boxAt b i).typ (boxAt b i).payload.data) ∧
      (box (boxAt b i).typ (boxAt b i).payload.data).length = declaredSize b i := by
  have hcap := b.len_le_cap
  have htyp : (boxAt b i).typ.length = 4 := (Slice.len_sub (by omega)).trans (by omega)
  have hpayload : 8 + (boxAt b i).payload.data.length = declaredSize b i := by
    have hsub : (boxAt b i).payload.data.length = i + declaredSize b i - (i + 8) := Slice.len_sub (by omega)
    omega
  have hlength := @length_box _ (boxAt b i).payload.data htyp
  have hbound : declaredSize b i < 256 ^ 4 := Slice.beAt_lt (by omega) (by omega)
  have hat : b.At i (box (boxAt b i).typ (boxAt b i).payload.data) := by
    refine (at_box_iff htyp (by omega) (by omega)).mpr ⟨hpayload.symm, rfl, ?_⟩
    rw [hpayload]
    rfl
  exact ⟨⟨htyp, by dsimp only [Mp4Box.contents]; omega⟩, hat, by omega⟩

/-- What a round of the walk does at an offset. -/
def visitBox (b : Slice UInt8) (i : Nat) : Run FixtureError (Option (Nat × Mp4Box)) :=
  if i + 8 ≤ b.len then
    if declaredSize b i < 8 ∨ b.len < i + declaredSize b i then fail (.boxSize (boxAt b i).typ (declaredSize b i) i)
    else .ok (some (i + declaredSize b i, boxAt b i))
  else if i ≠ b.len then fail (.trailingBytes (b.len - i))
  else .ok none

theorem scanBoxesLoop_step (b : Slice UInt8) (s : Nat × List Mp4Box) :
    (scanBoxesLoop b).step s = collect (visitBox b) s := by
  show scanBoxesStep b s = _
  rw [scanBoxesStep_eq, collect, visitBox]
  split_ifs
  all_goals rfl

theorem scanBoxes_eq_ok {out : List Mp4Box} : scanBoxes b = .ok out ↔ Visits (visitBox b) 0 out :=
  run_eq_ok_iff_visits (scanBoxesLoop_step b)

theorem visitBox_eq_some {j : Nat} {bx : Mp4Box} (h : visitBox b i = .ok (some (j, bx))) :
    i + 8 ≤ b.len ∧ 8 ≤ declaredSize b i ∧ i + declaredSize b i ≤ b.len ∧ j = i + declaredSize b i ∧ bx = boxAt b i := by
  rw [visitBox] at h
  split_ifs at h with hlen hsize hend
  · cases h
  · cases h
    exact ⟨hlen, by omega, by omega, rfl, rfl⟩
  · cases h
  · cases h

theorem visitBox_eq_none (h : visitBox b i = .ok none) : i = b.len := by
  rw [visitBox] at h
  split_ifs at h with hlen hsize hend
  · cases h
  · cases h
  · cases h
  · exact not_not.mp hend

theorem visits_of_boxes {l : List (Bytes × Bytes)} (hl : ∀ p ∈ l, FitsBox p) (hi : i ≤ b.len)
    (h : b.data.drop i = boxes l) : ∃ bs, Visits (visitBox b) i bs ∧ bs.map Mp4Box.contents = l := by
  induction l generalizing i with
  | nil =>
    have hend : b.len ≤ i := List.drop_eq_nil_iff.mp h
    refine ⟨[], .stop ?_, rfl⟩
    rw [visitBox, if_neg (by omega), if_neg (by omega)]
  | cons p l ih =>
    have hp := hl p List.mem_cons_self
    have hat : b.At i (box p.1 p.2) := ⟨boxes l, h.symm⟩
    obtain ⟨hsize, hle, hcontents⟩ := declaredSize_of_at hp hat
    have hrest : b.data.drop (i + declaredSize b i) = boxes l := by
      rw [← List.drop_drop, h, hsize, ← length_box hp.1]
      exact List.drop_left
    obtain ⟨bs, hbs, hmap⟩ := ih (fun q hq => hl q (List.mem_cons_of_mem _ hq)) (by omega) hrest
    refine ⟨boxAt b i :: bs, .item ?_ hbs, ?_⟩
    · rw [visitBox, if_pos (by omega), if_neg (by omega)]
    · rw [List.map_cons, hcontents, hmap]

theorem boxes_of_visits {bs : List Mp4Box} (h : Visits (visitBox b) i bs) :
    (∀ bx ∈ bs, FitsBox bx.contents) ∧ b.data.drop i = boxes (bs.map Mp4Box.contents) := by
  induction h with
  | stop h =>
    refine ⟨nofun, List.drop_eq_nil_of_le ?_⟩
    rw [Slice.length_data, visitBox_eq_none h]
  | @item i j bx bs h _ ih =>
    obtain ⟨hlen, hlo, hhi, rfl, rfl⟩ := visitBox_eq_some h
    obtain ⟨hfits, hdrop⟩ := ih
    obtain ⟨hfit, ⟨rest, hrest⟩, hlength⟩ := at_of_declaredSize hlo hhi
    refine ⟨List.forall_mem_cons.mpr ⟨hfit, hfits⟩, ?_⟩
    have hsplit : rest = boxes (bs.map Mp4Box.contents) := by
      rw [← hdrop, ← List.drop_drop, ← hrest, ← hlength, List.drop_left]
    rw [← hrest, hsplit]
    rfl

end Walk

/-- `scanBoxes` returns the boxes `l` exactly when `l` is a list of boxes that fit and the slice is their bytes. -/
theorem scanBoxes_iff_boxes (b : Slice UInt8) (l : List (Bytes × Bytes)) :
    (∃ out, scanBoxes b = .ok out ∧ out.map Mp4Box.contents = l) ↔ (∀ p ∈ l, FitsBox p) ∧ b.data = boxes l := by
  constructor
  · rintro ⟨out, hout, rfl⟩
    obtain ⟨hfits, hdata⟩ := boxes_of_visits (scanBoxes_eq_ok.mp hout)
    exact ⟨List.forall_mem_map.mpr hfits, hdata⟩
  · rintro ⟨hl, hdata⟩
    obtain ⟨bs, hbs, hmap⟩ := @visits_of_boxes b 0 l hl (Nat.zero_le _) hdata
    exact ⟨bs, scanBoxes_eq_ok.mpr hbs, hmap⟩

end Vizra.Fixtures
