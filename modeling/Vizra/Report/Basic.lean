import Mathlib.Data.List.Forall2

/-!
# Checks that report failures

A check ends in an error, or it returns what it found wrong. A program of checks runs one after the other and
passes when none of them found anything.
-/

namespace Report

section Except

variable {ε α β : Type}

theorem bind_eq_ok {x : Except ε α} {f : α → Except ε β} {r : β} :
    (x >>= f) = .ok r ↔ ∃ a, x = .ok a ∧ f a = .ok r := by
  cases x with
  | error e => exact ⟨nofun, nofun⟩
  | ok a =>
    constructor
    · intro h
      exact ⟨a, rfl, h⟩
    · rintro ⟨a', ha, h⟩
      rw [← Except.ok.inj ha] at h
      exact h

theorem fmap_eq_ok {x : Except ε α} {f : α → β} {r : β} : f <$> x = .ok r ↔ ∃ a, x = .ok a ∧ f a = r := by
  cases x with
  | error e => exact ⟨nofun, nofun⟩
  | ok a =>
    constructor
    · intro h
      exact ⟨a, rfl, Except.ok.inj h⟩
    · rintro ⟨a', ha, rfl⟩
      rw [← Except.ok.inj ha]
      rfl

theorem mapError_eq_ok {ε' : Type} {f : ε → ε'} {x : Except ε α} {a : α} : x.mapError f = .ok a ↔ x = .ok a := by
  cases x with
  | error e => exact ⟨nofun, nofun⟩
  | ok a' => exact ⟨fun h => congrArg _ (Except.ok.inj h), fun h => congrArg _ (Except.ok.inj h)⟩

theorem forall₂_exists_right {R : α → β → Prop} {l : List α} {l' : List β} (h : List.Forall₂ R l l') {b : β}
    (hb : b ∈ l') : ∃ a ∈ l, R a b := by
  induction h with
  | nil => cases hb
  | cons hR _ ih =>
    rcases List.mem_cons.mp hb with rfl | hb
    · exact ⟨_, List.mem_cons_self, hR⟩
    · obtain ⟨a, ha, hab⟩ := ih hb
      exact ⟨a, List.mem_cons_of_mem _ ha, hab⟩

theorem forall₂_exists_left {R : α → β → Prop} {l : List α} {l' : List β} (h : List.Forall₂ R l l') {a : α}
    (ha : a ∈ l) : ∃ b ∈ l', R a b := by
  obtain ⟨b, hb, hR⟩ := forall₂_exists_right h.flip ha
  exact ⟨b, hb, hR⟩

theorem mapM_eq_ok {f : α → Except ε β} {xs : List α} {ys : List β} :
    xs.mapM f = .ok ys ↔ List.Forall₂ (fun x y => f x = .ok y) xs ys := by
  induction xs generalizing ys with
  | nil =>
    rw [List.mapM_nil, List.forall₂_nil_left_iff]
    exact ⟨fun h => (Except.ok.inj h).symm, fun h => congrArg _ h.symm⟩
  | cons x xs ih =>
    rw [List.mapM_cons, bind_eq_ok, List.forall₂_cons_left_iff]
    constructor
    · rintro ⟨y, hy, h⟩
      obtain ⟨rest, hrest, h⟩ := bind_eq_ok.mp h
      exact ⟨y, rest, hy, ih.mp hrest, (Except.ok.inj h).symm⟩
    · rintro ⟨y, rest, hy, hrest, rfl⟩
      exact ⟨y, hy, bind_eq_ok.mpr ⟨rest, ih.mpr hrest, rfl⟩⟩

theorem mapM_append_cons_eq_ok {f : α → Except ε β} {xs : List α} {x : α} {xs' : List α} {ys : List β} :
    (xs ++ x :: xs').mapM f = .ok ys ↔
      ∃ as b bs, xs.mapM f = .ok as ∧ f x = .ok b ∧ xs'.mapM f = .ok bs ∧ ys = as ++ b :: bs := by
  rw [List.mapM_append, bind_eq_ok]
  constructor
  · rintro ⟨as, has, h⟩
    obtain ⟨rest, hrest, h⟩ := bind_eq_ok.mp h
    rw [List.mapM_cons] at hrest
    obtain ⟨b, hb, hrest⟩ := bind_eq_ok.mp hrest
    obtain ⟨bs, hbs, hrest⟩ := bind_eq_ok.mp hrest
    obtain rfl := Except.ok.inj hrest
    exact ⟨as, b, bs, has, hb, hbs, (Except.ok.inj h).symm⟩
  · rintro ⟨as, b, bs, has, hb, hbs, rfl⟩
    refine ⟨as, has, bind_eq_ok.mpr ⟨b :: bs, ?_, rfl⟩⟩
    rw [List.mapM_cons]
    exact bind_eq_ok.mpr ⟨b, hb, bind_eq_ok.mpr ⟨bs, hbs, rfl⟩⟩

end Except

variable {ε φ α : Type}

/-- One check after the other, with all that they found. -/
def all : List (Except ε (List φ)) → Except ε (List φ)
  | [] => pure []
  | c :: cs => do
    let found ← c
    let rest ← all cs
    pure (found ++ rest)

/-- The same check for each element. -/
def each (xs : List α) (f : α → Except ε (List φ)) : Except ε (List φ) := all (xs.map f)

/-- A check that cannot end in an error. -/
def found (fs : List φ) : Except ε (List φ) := pure fs

/-- The failure that is reported when a condition holds. -/
def failIf (c : Bool) (f : φ) : List φ := if c then [f] else []

@[simp]
theorem failIf_eq_nil {c : Bool} {f : φ} : failIf c f = [] ↔ c = false := by
  cases c <;> simp [failIf]

@[simp]
theorem found_passes {fs : List φ} : (found fs : Except ε (List φ)) = .ok [] ↔ fs = [] :=
  ⟨fun h => Except.ok.inj h, fun h => congrArg _ h⟩

@[simp]
theorem map_passes {ψ : Type} {f : φ → ψ} {c : Except ε (List φ)} : c.map (List.map f) = .ok [] ↔ c = .ok [] := by
  cases c with
  | error e => exact ⟨nofun, nofun⟩
  | ok fs => simp [Except.map]

theorem all_passes {cs : List (Except ε (List φ))} : all cs = .ok [] ↔ ∀ c ∈ cs, c = .ok [] := by
  induction cs with
  | nil => exact ⟨fun _ => nofun, fun _ => rfl⟩
  | cons c cs ih =>
    rw [List.forall_mem_cons, ← ih, all, bind_eq_ok]
    constructor
    · rintro ⟨fs, hfs, h⟩
      obtain ⟨rest, hrest, h⟩ := bind_eq_ok.mp h
      obtain ⟨rfl, rfl⟩ := List.append_eq_nil_iff.mp (Except.ok.inj h)
      exact ⟨hfs, hrest⟩
    · rintro ⟨hc, hcs⟩
      exact ⟨[], hc, bind_eq_ok.mpr ⟨[], hcs, rfl⟩⟩

theorem each_passes {xs : List α} {f : α → Except ε (List φ)} : each xs f = .ok [] ↔ ∀ x ∈ xs, f x = .ok [] := by
  rw [each, all_passes, List.forall_mem_map]

end Report
