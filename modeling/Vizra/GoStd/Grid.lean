import Vizra.GoStd.Bytes
import Vizra.GoStd.Run

/-!
# Grids in flat buffers

A grid of `w` columns, `h` rows and `k` channels lies row by row in a buffer of bytes. What the buffer shows is a
number for each column, row and channel; a store changes it in one place, and a pass over a rectangle changes it in
that rectangle.
-/

namespace Go

open Run

variable {ε : Type}

/-- `buf[i]`. -/
def load (buf : Bytes) (i : Nat) : Run ε UInt8 :=
  match buf[i]? with
  | some c => .ok c
  | none => crash

/-- `buf[i] = c`. -/
def store (buf : Bytes) (i : Nat) (c : UInt8) : Run ε Bytes := if i < buf.length then .ok (buf.set i c) else crash

/-- The place of a channel of a pixel. -/
def cell (w k x y ch : Nat) : Nat := (y * w + x) * k + ch

section Cell

variable {w h k x y ch x' y' ch' : Nat}

theorem mul_add_inj {q q' r r' m : Nat} (hr : r < m) (hr' : r' < m) (h : q * m + r = q' * m + r') :
    q = q' ∧ r = r' := by
  have hdiv := congrArg (· / m) h
  have hmod := congrArg (· % m) h
  simp only [Nat.mul_add_mod_self_right, Nat.mod_eq_of_lt hr, Nat.mod_eq_of_lt hr'] at hmod
  simp only [Nat.mul_comm _ m, Nat.mul_add_div (Nat.zero_lt_of_lt hr), Nat.div_eq_of_lt hr, Nat.div_eq_of_lt hr',
    Nat.add_zero] at hdiv
  exact ⟨hdiv, hmod⟩

theorem cell_inj (hx : x < w) (hch : ch < k) (hx' : x' < w) (hch' : ch' < k)
    (h : cell w k x y ch = cell w k x' y' ch') : x = x' ∧ y = y' ∧ ch = ch' := by
  obtain ⟨hq, hc⟩ := mul_add_inj hch hch' h
  obtain ⟨hy, hx⟩ := mul_add_inj hx hx' hq
  exact ⟨hx, hy, hc⟩

theorem mul_add_lt {q r m n : Nat} (hq : q < n) (hr : r < m) : q * m + r < n * m := by
  have h := Nat.mul_le_mul_right m (Nat.succ_le_of_lt hq)
  rw [Nat.succ_mul] at h
  omega

theorem cell_lt (hx : x < w) (hy : y < h) (hch : ch < k) : cell w k x y ch < h * w * k :=
  mul_add_lt (mul_add_lt hy hx) hch

end Cell

/-- The numbers that a buffer shows. -/
structure Shows (w h k : Nat) (buf : Bytes) (f : Nat → Nat → Nat → Int) : Prop where
  length : buf.length = h * w * k
  value {x y ch : Nat} : x < w → y < h → ch < k → ∃ c : UInt8, buf[cell w k x y ch]? = some c ∧ (c.toNat : Int) = f x y ch

namespace Shows

variable {w h k : Nat} {buf : Bytes} {f g : Nat → Nat → Nat → Int} {x y ch : Nat}

theorem congr (hs : Shows w h k buf f) (hfg : ∀ x y ch, x < w → y < h → ch < k → f x y ch = g x y ch) :
    Shows w h k buf g := by
  refine ⟨hs.length, fun {x y ch} hx hy hch => ?_⟩
  obtain ⟨c, hc, hval⟩ := hs.value hx hy hch
  exact ⟨c, hc, hval.trans (hfg x y ch hx hy hch)⟩

theorem replicate (w h k : Nat) : Shows w h k (List.replicate (h * w * k) 0) fun _ _ _ => 0 := by
  refine ⟨List.length_replicate, fun hx hy hch => ⟨0, ?_, rfl⟩⟩
  exact List.getElem?_replicate_of_lt (cell_lt hx hy hch)

theorem load_eq (hs : Shows w h k buf f) (hx : x < w) (hy : y < h) (hch : ch < k) :
    ∃ c : UInt8, (load buf (cell w k x y ch) : Run ε UInt8) = .ok c ∧ (c.toNat : Int) = f x y ch := by
  obtain ⟨c, hc, hval⟩ := hs.value hx hy hch
  exact ⟨c, by rw [load, hc], hval⟩

theorem store_eq (hs : Shows w h k buf f) (hx : x < w) (hy : y < h) (hch : ch < k) (c : UInt8) :
    ∃ buf', (store buf (cell w k x y ch) c : Run ε Bytes) = .ok buf' ∧
      Shows w h k buf' fun x' y' ch' => if x' = x ∧ y' = y ∧ ch' = ch then (c.toNat : Int) else f x' y' ch' := by
  have hlt : cell w k x y ch < buf.length := by
    rw [hs.length]
    exact cell_lt hx hy hch
  refine ⟨buf.set (cell w k x y ch) c, if_pos hlt, ?_, fun {x' y' ch'} hx' hy' hch' => ?_⟩
  · rw [List.length_set, hs.length]
  · by_cases hsame : x' = x ∧ y' = y ∧ ch' = ch
    · obtain ⟨rfl, rfl, rfl⟩ := hsame
      exact ⟨c, List.getElem?_set_self hlt, by rw [if_pos ⟨rfl, rfl, rfl⟩]⟩
    · have hne : cell w k x y ch ≠ cell w k x' y' ch' := by
        intro heq
        obtain ⟨rfl, rfl, rfl⟩ := cell_inj hx hch hx' hch' heq
        exact hsame ⟨rfl, rfl, rfl⟩
      rw [if_neg hsame, List.getElem?_set_ne hne]
      exact hs.value hx' hy' hch'

/-- A pass over a rectangle that changes every pixel once, by what it showed before. -/
theorem pass {G : Nat → Nat → (Nat → Int) → Nat → Int} {body : Bytes → Nat → Nat → Run ε Bytes} {x0 x1 y0 y1 : Nat}
    (hx : x0 ≤ x1) (hy : y0 ≤ y1) (hs : Shows w h k buf f)
    (hbody : ∀ x y buf f, x0 ≤ x → x < x1 → y0 ≤ y → y < y1 → Shows w h k buf f → ∃ buf', body buf y x = .ok buf' ∧
      Shows w h k buf' fun x' y' ch => if x' = x ∧ y' = y then G x y (f x y) ch else f x' y' ch) :
    ∃ buf', forRange y0 y1 (fun buf y => forRange x0 x1 (fun buf x => body buf y x) buf) buf = .ok buf' ∧
      Shows w h k buf' fun x y ch => if x0 ≤ x ∧ x < x1 ∧ y0 ≤ y ∧ y < y1 then G x y (f x y) ch else f x y ch := by
  -- the rows before `y` are done, and of row `y` the columns before `x`
  have hrow : ∀ y buf, y0 ≤ y → y < y1 →
      (Shows w h k buf fun x' y' ch =>
        if x0 ≤ x' ∧ x' < x1 ∧ y0 ≤ y' ∧ y' < y then G x' y' (f x' y') ch else f x' y' ch) →
      ∃ buf', forRange x0 x1 (fun buf x => body buf y x) buf = .ok buf' ∧ Shows w h k buf' fun x' y' ch =>
        if x0 ≤ x' ∧ x' < x1 ∧ y0 ≤ y' ∧ y' < y + 1 then G x' y' (f x' y') ch else f x' y' ch := by
    intro y buf hlo hhi hbuf
    have hcols : ∃ buf', forRange x0 x1 (fun buf x => body buf y x) buf = .ok buf' ∧ Shows w h k buf' fun x' y' ch =>
        if x0 ≤ x' ∧ y0 ≤ y' ∧ (y' < y ∧ x' < x1 ∨ y' = y ∧ x' < x1) then G x' y' (f x' y') ch else f x' y' ch := by
      apply forRange_rule (I := fun x buf => Shows w h k buf fun x' y' ch =>
        if x0 ≤ x' ∧ y0 ≤ y' ∧ (y' < y ∧ x' < x1 ∨ y' = y ∧ x' < x) then G x' y' (f x' y') ch else f x' y' ch) hx
      · apply hbuf.congr
        intro x' y' ch _ _ _
        exact if_congr (by omega) rfl rfl
      · intro x buf hxlo hxhi hbuf
        obtain ⟨buf', hok, hshow⟩ := hbody x y buf _ hxlo hxhi hlo hhi hbuf
        refine ⟨buf', hok, hshow.congr fun x' y' ch _ _ _ => ?_⟩
        by_cases hsame : x' = x ∧ y' = y
        · obtain ⟨rfl, rfl⟩ := hsame
          rw [if_pos ⟨rfl, rfl⟩, if_pos (by omega)]
          congr 1
          funext ch'
          exact if_neg (by omega)
        · rw [if_neg hsame]
          exact if_congr (by omega) rfl rfl
    obtain ⟨buf', hok, hshow⟩ := hcols
    refine ⟨buf', hok, hshow.congr fun x' y' ch _ _ _ => ?_⟩
    exact if_congr (by omega) rfl rfl
  apply forRange_rule (I := fun y buf => Shows w h k buf fun x' y' ch =>
    if x0 ≤ x' ∧ x' < x1 ∧ y0 ≤ y' ∧ y' < y then G x' y' (f x' y') ch else f x' y' ch) hy
  · apply hs.congr
    intro x' y' ch _ _ _
    exact (if_neg (by omega)).symm
  · intro y buf hlo hhi hbuf
    exact hrow y buf hlo hhi hbuf

end Shows

end Go
