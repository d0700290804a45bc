import Mathlib.Logic.Function.Iterate
import Mathlib.Order.MinMax
import Vizra.Fixtures.Raster

/-!
# The three passes paint the naive scene

The naive scene computes each pixel by itself, in unbounded integers: a gradient, averaged in order with each seeded
block that covers the pixel, and an entry of the noise field on top. After each pass the buffer shows what the naive
scene has computed so far, so that no store is out of range and no conversion to a byte loses anything.
-/

namespace Vizra.Fixtures

open Go Go.Run

/-! ## The naive scene -/

/-- Number `k` that the generator gives, below `max`. -/
def drawn (seed : UInt64) (k max : Nat) : Nat := ((Lcg.advance^[k + 2] seed).toNat >>> 33) % max

structure SeededBlock where
  left : Nat
  top : Nat
  width : Nat
  height : Nat
  colour : Nat → Nat

def SeededBlock.Covers (b : SeededBlock) (x y : Nat) : Prop :=
  b.left ≤ x ∧ x < b.left + b.width ∧ b.top ≤ y ∧ y < b.top + b.height

instance (b : SeededBlock) (x y : Nat) : Decidable (b.Covers x y) := inferInstanceAs (Decidable (_ ∧ _))

/-- The block drawn from number `k` of the generator on. -/
def seededBlockFrom (w h : Nat) (seed : UInt64) (k : Nat) : SeededBlock where
  left := drawn seed k w
  top := drawn seed (k + 1) h
  width := 1 + drawn seed (k + 2) (w / 6 + 1)
  height := 1 + drawn seed (k + 3) (h / 6 + 1)
  colour ch := drawn seed (k + 4 + ch) 256

/-- Block `j`: the noise field is drawn first, and a block takes seven numbers. -/
def seededBlock (w h : Nat) (seed : UInt64) (j : Nat) : SeededBlock := seededBlockFrom w h seed (4096 + 7 * j)

def seededNoise (seed : UInt64) (i : Nat) : Int := drawn seed i 17 - 8

/-- The gradient in red (0), green (1) and blue (2). -/
def gradient (w h x y : Nat) : Nat → Int
  | 0 => 40 + 200 * x / w
  | 1 => 30 + 180 * y / h
  | _ => 60 + 150 * (x + y) / (w + h)

/-- The gradient averaged with the first `m` blocks. -/
def blended (w h : Nat) (seed : UInt64) (m x y ch : Nat) : Int :=
  (List.range m).foldl (fun v j =>
    if (seededBlock w h seed j).Covers x y then (v + (seededBlock w h seed j).colour ch) / 2 else v)
    (gradient w h x y ch)

def clampByte (v : Int) : Int := max 0 (min 255 v)

def naiveNoise (seed : UInt64) (x y : Nat) : Int := seededNoise seed ((31 * y + 17 * x) % 4096)

/-- A colour with noise, clamped: red, green, blue and alpha. -/
def withNoise (nz : Int) (c : Nat → Int) : Nat → Int
  | 0 => clampByte (c 0 + nz)
  | 1 => clampByte (c 1 + nz)
  | 2 => clampByte (c 2 - nz)
  | _ => 255

/-- The naive pixel, channel by channel. -/
def naivePixel (w h : Nat) (seed : UInt64) (x y : Nat) : Nat → Int :=
  withNoise (naiveNoise seed x y) (blended w h seed 24 x y)

/-! ## The draws -/

def lcgAt (seed : UInt64) (k : Nat) : Lcg := ⟨Lcg.advance^[k + 1] seed⟩

section Draws

variable {w h : Nat} {seed : UInt64}

theorem drawn_lt {k max : Nat} (h : 0 < max) : drawn seed k max < max := Nat.mod_lt _ h

theorem n_lcgAt (k : Nat) {max : Nat} (h : 0 < max) :
    (lcgAt seed k).n max = .ok (drawn seed k max, lcgAt seed (k + 1)) := by
  have hnext : (lcgAt seed k).next = lcgAt seed (k + 1) := by
    rw [lcgAt, lcgAt, Lcg.next, Function.iterate_succ_apply' Lcg.advance (k + 1)]
  rw [Lcg.n, if_neg (by omega), hnext]
  rfl

theorem drawNoise_lcgAt (m k : Nat) :
    drawNoise m (lcgAt seed k) = .ok ((List.range' k m).map (seededNoise seed), lcgAt seed (k + m)) := by
  induction m generalizing k with
  | zero => rfl
  | succ m ih =>
    have hlt : drawn seed k 17 < 17 := drawn_lt (by omega)
    have hint8 : Int.bmod ((drawn seed k 17 : Int) - 8) 256 = seededNoise seed k :=
      Int.bmod_eq_of_le (by omega) (by omega)
    simp only [drawNoise, n_lcgAt k (show 0 < 17 by omega), ih (k + 1), hint8, bind, Except.bind]
    rw [List.range'_succ, List.map_cons, show k + (m + 1) = k + 1 + m by omega]
    rfl

/-- A block as the code keeps it, cut off at the edges of the image. -/
def SeededBlock.clipped (b : SeededBlock) (w h : Nat) : Block :=
  { x0 := b.left, y0 := b.top,
    x1 := if b.left + b.width > w then w else b.left + b.width,
    y1 := if b.top + b.height > h then h else b.top + b.height,
    cr := b.colour 0, cg := b.colour 1, cb := b.colour 2 }

theorem drawBlock_of_draws {r0 r1 r2 r3 r4 r5 r6 r7 : Lcg} {x0 y0 dw dh cr cg cb : Nat} (h0 : r0.n w = .ok (x0, r1))
    (h1 : r1.n h = .ok (y0, r2)) (h2 : r2.n (w / 6 + 1) = .ok (dw, r3)) (h3 : r3.n (h / 6 + 1) = .ok (dh, r4))
    (h4 : r4.n 256 = .ok (cr, r5)) (h5 : r5.n 256 = .ok (cg, r6)) (h6 : r6.n 256 = .ok (cb, r7)) :
    drawBlock w h r0 = .ok (⟨x0, y0, if x0 + (1 + dw) > w then w else x0 + (1 + dw),
      if y0 + (1 + dh) > h then h else y0 + (1 + dh), cr, cg, cb⟩, r7) := by
  refine Report.bind_eq_ok.mpr ⟨_, h0, ?_⟩
  refine Report.bind_eq_ok.mpr ⟨_, h1, ?_⟩
  refine Report.bind_eq_ok.mpr ⟨_, h2, ?_⟩
  refine Report.bind_eq_ok.mpr ⟨_, h3, ?_⟩
  refine Report.bind_eq_ok.mpr ⟨_, h4, ?_⟩
  refine Report.bind_eq_ok.mpr ⟨_, h5, ?_⟩
  exact Report.bind_eq_ok.mpr ⟨_, h6, rfl⟩

theorem drawBlock_lcgAt (hw : 0 < w) (hh : 0 < h) (k : Nat) :
    drawBlock w h (lcgAt seed k) = .ok ((seededBlockFrom w h seed k).clipped w h, lcgAt seed (k + 7)) :=
  drawBlock_of_draws (n_lcgAt k hw) (n_lcgAt (k + 1) hh) (n_lcgAt (k + 2) (Nat.succ_pos _))
    (n_lcgAt (k + 3) (Nat.succ_pos _)) (n_lcgAt (k + 4) (by omega)) (n_lcgAt (k + 5) (by omega))
    (n_lcgAt (k + 6) (by omega))

theorem drawBlocks_lcgAt (hw : 0 < w) (hh : 0 < h) (m k : Nat) :
    ∃ r, drawBlocks w h m (lcgAt seed k) =
      .ok ((List.range m).map fun j => (seededBlockFrom w h seed (k + 7 * j)).clipped w h, r) := by
  induction m generalizing k with
  | zero => exact ⟨_, rfl⟩
  | succ m ih =>
    obtain ⟨r, hr⟩ := ih (k + 7)
    refine ⟨r, ?_⟩
    simp only [drawBlocks, drawBlock_lcgAt hw hh, hr, bind, Except.bind]
    rw [List.range_succ_eq_map, List.map_cons, List.map_map]
    have hshift : (fun j => (seededBlockFrom w h seed (k + 7 + 7 * j)).clipped w h) =
        (fun j => (seededBlockFrom w h seed (k + 7 * j)).clipped w h) ∘ Nat.succ := by
      funext j
      show _ = (seededBlockFrom w h seed (k + 7 * (j + 1))).clipped w h
      rw [show k + 7 + 7 * j = k + 7 * (j + 1) by omega]
    rw [hshift]
    rfl

end Draws

/-! ## The passes -/

section Passes

variable {w h : Nat} {buf : Bytes} {f : Nat → Nat → Nat → Int}

theorem toNat_ofNat_of_le {n : Nat} (h : n ≤ 255) : ((UInt8.ofNat n).toNat : Int) = n := by
  rw [UInt8.toNat_ofNat', Nat.mod_eq_of_lt (by omega)]

/-- `c * n / m` is at most `c` for `n` below `m`. -/
theorem mul_div_le {c n m : Nat} (h : n ≤ m) : c * n / m ≤ c := by
  rcases Nat.eq_zero_or_pos m with rfl | hm
  · rw [Nat.div_zero]
    exact Nat.zero_le c
  · rw [Nat.div_le_iff_le_mul_add_pred hm]
    have := Nat.mul_le_mul_left c h
    rw [Nat.mul_comm m c]
    omega

theorem index_eq_cell (w k x y ch : Nat) : y * w * k + x * k + ch = cell w k x y ch := by
  rw [cell, Nat.add_mul]

/-- Three operations, each of which changes one channel of a pixel, change the pixel. -/
theorem update3 {x y : Nat} {u : Nat → Int → Int} {o : Nat → Bytes → Run Empty Bytes}
    (ho : ∀ ch < 3, ∀ buf f, Shows w h 3 buf f → ∃ buf', o ch buf = .ok buf' ∧
      Shows w h 3 buf' fun x' y' ch' => if x' = x ∧ y' = y ∧ ch' = ch then u ch (f x y ch) else f x' y' ch')
    (hs : Shows w h 3 buf f) :
    ∃ buf', (o 0 buf >>= fun buf => o 1 buf >>= fun buf => o 2 buf) = .ok buf' ∧
      Shows w h 3 buf' fun x' y' ch => if x' = x ∧ y' = y then u ch (f x y ch) else f x' y' ch := by
  obtain ⟨b0, hb0, hs0⟩ := ho 0 (by omega) buf f hs
  obtain ⟨b1, hb1, hs1⟩ := ho 1 (by omega) b0 _ hs0
  obtain ⟨b2, hb2, hs2⟩ := ho 2 (by omega) b1 _ hs1
  refine ⟨b2, Report.bind_eq_ok.mpr ⟨b0, hb0, Report.bind_eq_ok.mpr ⟨b1, hb1, hb2⟩⟩, hs2.congr ?_⟩
  intro x' y' ch _ _ hch
  by_cases hsame : x' = x ∧ y' = y
  · obtain ⟨rfl, rfl⟩ := hsame
    rcases (show ch = 0 ∨ ch = 1 ∨ ch = 2 by omega) with rfl | rfl | rfl
    · simp
    · simp
    · simp
  · rw [if_neg hsame, if_neg (by tauto), if_neg (by tauto), if_neg (by tauto)]

/-- The colours of the gradient as bytes. -/
def gradientByte (w h x y : Nat) : Nat → UInt8
  | 0 => UInt8.ofNat (40 + 200 * x / w)
  | 1 => UInt8.ofNat (30 + 180 * y / h)
  | _ => UInt8.ofNat (60 + 150 * (x + y) / (w + h))

theorem toNat_gradientByte {x y : Nat} (hx : x < w) (hy : y < h) (ch : Nat) :
    ((gradientByte w h x y ch).toNat : Int) = gradient w h x y ch := by
  match ch with
  | 0 =>
    have hle : 200 * x / w ≤ 200 := mul_div_le (by omega)
    rw [gradientByte, toNat_ofNat_of_le (by omega), gradient]
    push_cast
    rfl
  | 1 =>
    have hle : 180 * y / h ≤ 180 := mul_div_le (by omega)
    rw [gradientByte, toNat_ofNat_of_le (by omega), gradient]
    push_cast
    rfl
  | ch + 2 =>
    have hle : 150 * (x + y) / (w + h) ≤ 150 := mul_div_le (by omega)
    show ((UInt8.ofNat (60 + 150 * (x + y) / (w + h))).toNat : Int) = 60 + 150 * (x + y) / (w + h)
    rw [toNat_ofNat_of_le (by omega)]
    push_cast
    rfl

theorem gradientPass_shows : ∃ base, gradientPass w h (List.replicate (w * h * 3) 0) = .ok base ∧
    Shows w h 3 base (gradient w h) := by
  have hinit := Shows.replicate w h 3
  rw [Nat.mul_comm h w] at hinit
  have hpixel : ∀ x y buf f, 0 ≤ x → x < w → 0 ≤ y → y < h → Shows w h 3 buf f →
      ∃ buf', gradientPixel w h (y * w * 3) y (UInt8.ofNat (30 + 180 * y / h)) buf x = .ok buf' ∧
        Shows w h 3 buf' fun x' y' ch => if x' = x ∧ y' = y then gradient w h x y ch else f x' y' ch := by
    intro x y buf f _ hx _ hy hs
    refine @update3 w h buf f x y (fun ch _ => gradient w h x y ch)
      (fun ch buf => store buf (y * w * 3 + x * 3 + ch) (gradientByte w h x y ch)) ?_ hs
    intro ch hch buf f hs
    rw [index_eq_cell, ← toNat_gradientByte hx hy]
    exact hs.store_eq hx hy hch _
  obtain ⟨base, hbase, hshow⟩ := @Shows.pass Empty w h 3 _ _ (fun x y _ ch => gradient w h x y ch)
    (fun base y x => gradientPixel w h (y * w * 3) y (UInt8.ofNat (30 + 180 * y / h)) base x) 0 w 0 h
    (Nat.zero_le w) (Nat.zero_le h) hinit hpixel
  refine ⟨base, hbase, hshow.congr fun x y ch hx hy _ => ?_⟩
  exact if_pos ⟨Nat.zero_le x, hx, Nat.zero_le y, hy⟩

theorem average_shows (hs : Shows w h 3 buf f) {x y ch c : Nat} (hx : x < w) (hy : y < h) (hch : ch < 3)
    (hc : c < 256) :
    ∃ buf', average buf (y * w * 3 + x * 3 + ch) c = .ok buf' ∧
      Shows w h 3 buf' fun x' y' ch' => if x' = x ∧ y' = y ∧ ch' = ch then (f x y ch + c) / 2 else f x' y' ch' := by
  rw [index_eq_cell]
  obtain ⟨v, hv, hval⟩ := @Shows.load_eq Empty _ _ _ _ _ _ _ _ hs hx hy hch
  obtain ⟨buf', hstore, hshow⟩ := hs.store_eq hx hy hch (UInt8.ofNat ((v.toNat + c) / 2))
  refine ⟨buf', Report.bind_eq_ok.mpr ⟨v, hv, hstore⟩, ?_⟩
  have hlt : v.toNat < 256 := v.toNat_lt
  rw [toNat_ofNat_of_le (by omega)] at hshow
  rw [← hval]
  exact_mod_cast hshow

theorem blockPass_shows (hw : 0 < w) (hh : 0 < h) {seed : UInt64} {k : Nat} (hs : Shows w h 3 buf f) :
    ∃ buf', blockPass w buf ((seededBlockFrom w h seed k).clipped w h) = .ok buf' ∧ Shows w h 3 buf' fun x y ch =>
      if (seededBlockFrom w h seed k).Covers x y then (f x y ch + (seededBlockFrom w h seed k).colour ch) / 2
      else f x y ch := by
  have hleft : (seededBlockFrom w h seed k).left < w := drawn_lt hw
  have htop : (seededBlockFrom w h seed k).top < h := drawn_lt hh
  have hcolour : ∀ ch, (seededBlockFrom w h seed k).colour ch < 256 := fun ch => drawn_lt (by omega)
  generalize seededBlockFrom w h seed k = b at hleft htop hcolour
  have hx1 : b.left ≤ (b.clipped w h).x1 ∧ (b.clipped w h).x1 ≤ w ∧
      ∀ x < w, x < (b.clipped w h).x1 ↔ x < b.left + b.width := by
    rw [SeededBlock.clipped]
    dsimp only
    split_ifs
    · exact ⟨by omega, by omega, by omega⟩
    · exact ⟨by omega, by omega, by omega⟩
  have hy1 : b.top ≤ (b.clipped w h).y1 ∧ (b.clipped w h).y1 ≤ h ∧
      ∀ y < h, y < (b.clipped w h).y1 ↔ y < b.top + b.height := by
    rw [SeededBlock.clipped]
    dsimp only
    split_ifs
    · exact ⟨by omega, by omega, by omega⟩
    · exact ⟨by omega, by omega, by omega⟩
  have hpixel : ∀ x y buf f, b.left ≤ x → x < (b.clipped w h).x1 → b.top ≤ y → y < (b.clipped w h).y1 →
      Shows w h 3 buf f → ∃ buf', blockPixel (b.clipped w h) (y * w * 3) buf x = .ok buf' ∧
        Shows w h 3 buf' fun x' y' ch => if x' = x ∧ y' = y then (f x y ch + b.colour ch) / 2 else f x' y' ch := by
    intro x y buf f _ hx _ hy hs
    refine @update3 w h buf f x y (fun ch v => (v + b.colour ch) / 2)
      (fun ch buf => average buf (y * w * 3 + x * 3 + ch) (b.colour ch)) ?_ hs
    intro ch hch buf f hs
    exact average_shows hs (by omega) (by omega) hch (hcolour ch)
  obtain ⟨buf', hbuf', hshow⟩ := @Shows.pass Empty w h 3 _ _ (fun x y v ch => (v ch + b.colour ch) / 2)
    (fun base y x => blockPixel (b.clipped w h) (y * w * 3) base x) b.left (b.clipped w h).x1 b.top
    (b.clipped w h).y1 hx1.1 hy1.1 hs hpixel
  refine ⟨buf', hbuf', hshow.congr fun x y ch hx hy _ => ?_⟩
  have hiff : b.left ≤ x ∧ x < (b.clipped w h).x1 ∧ b.top ≤ y ∧ y < (b.clipped w h).y1 ↔ b.Covers x y := by
    rw [hx1.2.2 x hx, hy1.2.2 y hy, SeededBlock.Covers]
  exact if_congr hiff rfl rfl

theorem blocks_show (hw : 0 < w) (hh : 0 < h) {seed : UInt64} {base : Bytes}
    (hs : Shows w h 3 base (gradient w h)) (m : Nat) :
    ∃ base', ((List.range m).map fun j => (seededBlock w h seed j).clipped w h).foldlM (blockPass w) base = .ok base' ∧
      Shows w h 3 base' (blended w h seed m) := by
  induction m with
  | zero => exact ⟨base, rfl, hs⟩
  | succ m ih =>
    obtain ⟨b, hb, hshow⟩ := ih
    obtain ⟨b', hb', hshow'⟩ := @blockPass_shows w h b _ hw hh seed (4096 + 7 * m) hshow
    refine ⟨b', ?_, hshow'.congr fun x y ch _ _ _ => ?_⟩
    · rw [List.range_succ, List.map_append, List.foldlM_append]
      exact Report.bind_eq_ok.mpr ⟨b, hb, Report.bind_eq_ok.mpr ⟨b', hb', rfl⟩⟩
    · rw [blended, blended, List.range_succ, List.foldl_append]
      rfl

/-! ## The noise -/

theorem toNat_clamp8 (v : Int) : ((clamp8 v).toNat : Int) = clampByte v := by
  rw [clamp8, clampByte]
  split_ifs with hneg hbig
  · rw [min_eq_right (by omega), max_eq_left (by omega)]
    rfl
  · rw [min_eq_left (by omega), max_eq_right (by omega)]
    rfl
  · rw [min_eq_right (by omega), max_eq_right (by omega), toNat_ofNat_of_le (by omega)]
    omega

theorem and_noiseMask (n : Nat) : n &&& noiseMask = n % 4096 := Nat.and_two_pow_sub_one_eq_mod n 12

theorem noisePixel_shows {seed : UInt64} {noise : List Int} (hnoise : noise = (List.range' 0 noiseLen).map (seededNoise seed))
    {base : Bytes} (hbase : Shows w h 3 base f) {pix : Bytes} {g : Nat → Nat → Nat → Int} (hpix : Shows w h 4 pix g)
    {x y : Nat} (hx : x < w) (hy : y < h) :
    ∃ pix', noisePixel base noise (y * w * 3) (y * (4 * w)) (pix, (31 * y + 17 * x) % 4096) x =
        .ok (pix', (31 * y + 17 * (x + 1)) % 4096) ∧
      Shows w h 4 pix' fun x' y' ch => if x' = x ∧ y' = y then withNoise (naiveNoise seed x y) (f x y) ch else g x' y' ch := by
  have hentry : noiseAt noise ((31 * y + 17 * x) % 4096) = .ok (naiveNoise seed x y) := by
    have hlt : (31 * y + 17 * x) % 4096 < noiseLen := Nat.mod_lt _ (by decide)
    rw [noiseAt, hnoise, List.getElem?_map, List.getElem?_range' hlt]
    simp only [Option.map_some, Nat.zero_add, Nat.one_mul]
    rfl
  have hstride : ∀ ch, y * (4 * w) + x * 4 + ch = cell w 4 x y ch := by
    intro ch
    rw [← index_eq_cell, Nat.mul_comm 4 w, Nat.mul_assoc]
  have hwalk : ((31 * y + 17 * x) % 4096 + 17) &&& noiseMask = (31 * y + 17 * (x + 1)) % 4096 := by
    rw [and_noiseMask]
    omega
  obtain ⟨v0, hv0, hval0⟩ := @Shows.load_eq Empty _ _ _ _ _ _ _ _ hbase hx hy (show 0 < 3 by omega)
  obtain ⟨v1, hv1, hval1⟩ := @Shows.load_eq Empty _ _ _ _ _ _ _ _ hbase hx hy (show 1 < 3 by omega)
  obtain ⟨v2, hv2, hval2⟩ := @Shows.load_eq Empty _ _ _ _ _ _ _ _ hbase hx hy (show 2 < 3 by omega)
  rw [← index_eq_cell] at hv0 hv1 hv2
  obtain ⟨p0, hp0, hs0⟩ := @Shows.store_eq Empty _ _ _ _ _ _ _ _ hpix hx hy (show 0 < 4 by omega)
    (clamp8 (v0.toNat + naiveNoise seed x y))
  obtain ⟨p1, hp1, hs1⟩ := @Shows.store_eq Empty _ _ _ _ _ _ _ _ hs0 hx hy (show 1 < 4 by omega)
    (clamp8 (v1.toNat + naiveNoise seed x y))
  obtain ⟨p2, hp2, hs2⟩ := @Shows.store_eq Empty _ _ _ _ _ _ _ _ hs1 hx hy (show 2 < 4 by omega)
    (clamp8 (v2.toNat - naiveNoise seed x y))
  obtain ⟨p3, hp3, hs3⟩ := @Shows.store_eq Empty _ _ _ _ _ _ _ _ hs2 hx hy (show 3 < 4 by omega) 255
  rw [← hstride] at hp0 hp1 hp2 hp3
  refine ⟨p3, ?_, hs3.congr ?_⟩
  · rw [← hwalk]
    refine Report.bind_eq_ok.mpr ⟨_, hentry, ?_⟩
    refine Report.bind_eq_ok.mpr ⟨_, hv0, Report.bind_eq_ok.mpr ⟨_, hp0, ?_⟩⟩
    refine Report.bind_eq_ok.mpr ⟨_, hv1, Report.bind_eq_ok.mpr ⟨_, hp1, ?_⟩⟩
    refine Report.bind_eq_ok.mpr ⟨_, hv2, Report.bind_eq_ok.mpr ⟨_, hp2, ?_⟩⟩
    exact Report.bind_eq_ok.mpr ⟨_, hp3, rfl⟩
  · intro x' y' ch _ _ hch
    by_cases hsame : x' = x ∧ y' = y
    · obtain ⟨rfl, rfl⟩ := hsame
      rcases (show ch = 0 ∨ ch = 1 ∨ ch = 2 ∨ ch = 3 by omega) with rfl | rfl | rfl | rfl
      · simp [withNoise, toNat_clamp8, hval0]
      · simp [withNoise, toNat_clamp8, hval1]
      · simp [withNoise, toNat_clamp8, hval2]
      · simp [withNoise]
    · rw [if_neg hsame, if_neg (by tauto), if_neg (by tauto), if_neg (by tauto), if_neg (by tauto)]

theorem noisePass_shows {seed : UInt64} {noise : List Int}
    (hnoise : noise = (List.range' 0 noiseLen).map (seededNoise seed)) {base : Bytes} (hbase : Shows w h 3 base f) :
    ∃ pix, noisePass w h (4 * w) base noise (List.replicate (h * (4 * w)) 0) = .ok pix ∧
      Shows w h 4 pix fun x y => withNoise (naiveNoise seed x y) (f x y) := by
  have hinit := Shows.replicate w h 4
  rw [show h * w * 4 = h * (4 * w) by rw [Nat.mul_comm 4 w, Nat.mul_assoc]] at hinit
  have hpass : ∃ pix, noisePass w h (4 * w) base noise (List.replicate (h * (4 * w)) 0) = .ok pix ∧
      Shows w h 4 pix fun x' y' ch => if y' < h then withNoise (naiveNoise seed x' y') (f x' y') ch else 0 := by
    apply forRange_rule (I := fun y pix => Shows w h 4 pix fun x' y' ch =>
      if y' < y then withNoise (naiveNoise seed x' y') (f x' y') ch else 0) (Nat.zero_le h)
    · exact hinit.congr fun x' y' ch _ _ _ => (if_neg (Nat.not_lt_zero y')).symm
    · intro y pix _ hy hpix
      -- along a row the walk is at `31 * y + 17 * x`
      have hrow : ∃ s, forRange 0 w (noisePixel base noise (y * w * 3) (y * (4 * w))) (pix, (y * 31) &&& noiseMask) = .ok s ∧
          s.2 = (31 * y + 17 * w) % 4096 ∧ Shows w h 4 s.1 fun x' y' ch =>
            if y' < y ∨ y' = y ∧ x' < w then withNoise (naiveNoise seed x' y') (f x' y') ch else 0 := by
        apply forRange_rule (I := fun x (s : Bytes × Nat) => s.2 = (31 * y + 17 * x) % 4096 ∧ Shows w h 4 s.1 fun x' y' ch =>
          if y' < y ∨ y' = y ∧ x' < x then withNoise (naiveNoise seed x' y') (f x' y') ch else 0) (Nat.zero_le w)
        · refine ⟨?_, hpix.congr fun x' y' ch _ _ _ => if_congr (by omega) rfl rfl⟩
          rw [and_noiseMask, Nat.mul_comm y 31, Nat.mul_zero, Nat.add_zero]
        · rintro x ⟨pix, ni⟩ _ hx ⟨hni, hpix⟩
          dsimp only at hni hpix
          subst hni
          obtain ⟨pix', hok, hshow⟩ := noisePixel_shows hnoise hbase hpix hx hy
          refine ⟨_, hok, rfl, hshow.congr fun x' y' ch _ _ _ => ?_⟩
          by_cases hsame : x' = x ∧ y' = y
          · obtain ⟨rfl, rfl⟩ := hsame
            rw [if_pos ⟨rfl, rfl⟩, if_pos (by omega)]
          · rw [if_neg hsame]
            exact if_congr (by omega) rfl rfl
      obtain ⟨s, hs, -, hshow⟩ := hrow
      refine ⟨s.1, Report.bind_eq_ok.mpr ⟨s, hs, rfl⟩, hshow.congr fun x' y' ch hx' _ _ => ?_⟩
      exact if_congr (by omega) rfl rfl
  obtain ⟨pix, hpix, hshow⟩ := hpass
  exact ⟨pix, hpix, hshow.congr fun x y ch _ hy _ => if_pos hy⟩

end Passes

/-! ## The scene -/

theorem gradient_range {w h x y : Nat} (hx : x < w) (hy : y < h) (ch : Nat) :
    0 ≤ gradient w h x y ch ∧ gradient w h x y ch ≤ 255 := by
  have hlt : (gradientByte w h x y ch).toNat < 256 := (gradientByte w h x y ch).toNat_lt
  rw [← toNat_gradientByte hx hy]
  omega

theorem blended_range {w h x y : Nat} (hx : x < w) (hy : y < h) (seed : UInt64) (m ch : Nat) :
    0 ≤ blended w h seed m x y ch ∧ blended w h seed m x y ch ≤ 255 := by
  induction m with
  | zero => exact gradient_range hx hy ch
  | succ m ih =>
    have hcolour : (seededBlock w h seed m).colour ch < 256 := drawn_lt (by omega)
    have hsucc : blended w h seed (m + 1) x y ch =
        if (seededBlock w h seed m).Covers x y then
          (blended w h seed m x y ch + (seededBlock w h seed m).colour ch) / 2
        else blended w h seed m x y ch := by
      rw [blended, List.range_succ, List.foldl_append]
      rfl
    rw [hsucc]
    split_ifs
    · omega
    · exact ih

/-- The scene is painted without an index out of range, every pixel is that of the naive scene, and no colour on the
way there leaves the range of a byte. -/
theorem scene_eq_naive (w h : Nat) (seed : UInt64) (hw : 1 ≤ w) (hh : 1 ≤ h) :
    ∃ img, scene w h seed = .ok img ∧ img.stride = 4 * w ∧ img.pix.length = 4 * w * h ∧
      ∀ x y, x < w → y < h →
        (img.at x y).map (Option.map fun c => (c.toNat : Int)) =
          [some (naivePixel w h seed x y 0), some (naivePixel w h seed x y 1), some (naivePixel w h seed x y 2),
            some 255] ∧
        ∀ m ch, 0 ≤ blended w h seed m x y ch ∧ blended w h seed m x y ch ≤ 255 := by
  obtain ⟨r, hblocks⟩ := @drawBlocks_lcgAt w h seed hw hh 24 noiseLen
  obtain ⟨base, hbase, hgradient⟩ := @gradientPass_shows w h
  obtain ⟨base', hbase', hblended⟩ := @blocks_show w h hw hh seed base hgradient 24
  obtain ⟨pix, hpix, hshow⟩ := @noisePass_shows w h _ seed _ rfl base' hblended
  refine ⟨⟨pix, 4 * w⟩, ?_, rfl, ?_, ?_⟩
  · refine Report.bind_eq_ok.mpr ⟨_, drawNoise_lcgAt noiseLen 0, ?_⟩
    refine Report.bind_eq_ok.mpr ⟨_, hblocks, ?_⟩
    refine Report.bind_eq_ok.mpr ⟨_, hbase, ?_⟩
    refine Report.bind_eq_ok.mpr ⟨_, hbase', ?_⟩
    exact Report.bind_eq_ok.mpr ⟨_, hpix, rfl⟩
  · rw [hshow.length, Nat.mul_comm, Nat.mul_comm h w, Nat.mul_assoc]
  · intro x y hx hy
    refine ⟨?_, fun m ch => blended_range hx hy seed m ch⟩
    have hchannel : ∀ ch < 4, (pix[y * (4 * w) + x * 4 + ch]?).map (fun c => (c.toNat : Int)) =
        some (naivePixel w h seed x y ch) := by
      intro ch hch
      obtain ⟨c, hc, hval⟩ := hshow.value hx hy hch
      rw [← index_eq_cell, Nat.mul_assoc, Nat.mul_comm w 4] at hc
      rw [hc, Option.map_some, hval]
      rfl
    have h0 := hchannel 0 (by omega)
    have h1 := hchannel 1 (by omega)
    have h2 := hchannel 2 (by omega)
    have h3 := hchannel 3 (by omega)
    show [_, _, _, _] = _
    rw [h0, h1, h2, h3]
    rfl

theorem scene_eq_naive_tiny : ∃ img, scene 1 1 7 = .ok img ∧ (img.at 0 0).map (Option.map fun c => (c.toNat : Int)) =
    [some (naivePixel 1 1 7 0 0 0), some (naivePixel 1 1 7 0 0 1), some (naivePixel 1 1 7 0 0 2), some 255] := by
  obtain ⟨img, hok, -, -, hpix⟩ := scene_eq_naive 1 1 7 (by omega) (by omega)
  exact ⟨img, hok, (hpix 0 0 (by omega) (by omega)).1⟩

end Vizra.Fixtures
