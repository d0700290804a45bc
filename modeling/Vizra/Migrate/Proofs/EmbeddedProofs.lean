import Mathlib.Data.List.Perm.Basic
import Mathlib.Data.List.Sort
import Mathlib.Order.Lattice
import Vizra.Migrate.Embedded
import Vizra.Report.Basic

/-!
# The embedded version is the length of a gapless sequence

`embeddedVersion_iff`: the versions of the migrations are 1 to n, each of them once, exactly when n is returned.
-/

namespace Vizra.Migrate

/-- The integer before the first underscore of a name. -/
def integerPrefix (name : String) : Option Int := (Go.before name '_').bind Go.decimal

/-- The integers 1 to n. -/
def oneTo (n : Nat) : List Int := (List.range' 1 n).map Int.ofNat

/-- The migrations among the names have the versions 1 to n, each of them once. -/
def Numbered (names : List String) (n : Int) : Prop :=
  ∃ vs, (names.filter isUp).mapM integerPrefix = some vs ∧ vs.Perm (oneTo n.toNat)

/-! ## One name -/

theorem decimal_empty : Go.decimal "" = none := rfl

theorem version_eq_ok {name : String} {v : Int} :
    version name = .ok v ↔ integerPrefix name = some v ∧ -2 ^ 63 ≤ v ∧ v < 2 ^ 63 := by
  unfold version integerPrefix
  cases hbefore : Go.before name '_' with
  | none => simp
  | some text =>
    by_cases htext : text = ""
    · subst htext
      rw [Option.bind_some, decimal_empty]
      exact ⟨nofun, fun h => nomatch h.1⟩
    · rw [Option.filter_some, if_pos (by simpa using htext), Option.bind_some, ← Go.parseInt64_eq_some]
      simp only []
      cases Go.parseInt64 text with
      | none => exact ⟨nofun, nofun⟩
      | some w => simp only [Except.ok.injEq, Option.some.injEq]

/-! ## The loop over the names -/

theorem readNames_eq_ok {max : Int} {seen : List Int} {names : List String} {r : Int × List Int} :
    readNames max seen names = .ok r ↔
      ∃ vs, List.Forall₂ (fun name v => version name = .ok v) (names.filter isUp) vs ∧ vs.Nodup ∧
        (∀ v ∈ vs, v ∉ seen) ∧ r = (vs.foldl Max.max max, seen ++ vs) := by
  induction names generalizing max seen with
  | nil =>
    rw [readNames, List.filter_nil]
    constructor
    · intro h
      refine ⟨[], .nil, List.nodup_nil, nofun, ?_⟩
      rw [← Except.ok.inj h, List.foldl_nil, List.append_nil]
    · rintro ⟨vs, hvs, -, -, rfl⟩
      rw [List.forall₂_nil_left_iff.mp hvs, List.foldl_nil, List.append_nil]
  | cons name names ih =>
    rw [readNames]
    by_cases hup : isUp name = true
    · rw [if_pos hup, List.filter_cons_of_pos hup]
      cases hv : version name with
      | error e =>
        refine ⟨nofun, ?_⟩
        rintro ⟨vs, hvs, -⟩
        obtain ⟨v, vs', hv', -⟩ := List.forall₂_cons_left_iff.mp hvs
        rw [hv] at hv'
        exact nomatch hv'
      | ok v =>
        simp only []
        by_cases hseen : v ∈ seen
        · rw [if_pos hseen]
          refine ⟨nofun, ?_⟩
          rintro ⟨vs, hvs, -, hnew, -⟩
          obtain ⟨w, vs', hw, -, rfl⟩ := List.forall₂_cons_left_iff.mp hvs
          rw [hv] at hw
          rw [Except.ok.inj hw] at hseen
          exact absurd hseen (hnew w List.mem_cons_self)
        · have hmax : (if v > max then v else max) = Max.max max v := by
            rw [Int.max_def]
            split <;> split <;> omega
          rw [if_neg hseen, ih, hmax]
          constructor
          · rintro ⟨vs, hvs, hnodup, hnew, rfl⟩
            refine ⟨v :: vs, .cons hv hvs, List.nodup_cons.mpr ⟨?_, hnodup⟩, ?_, ?_⟩
            · intro hmem
              exact hnew v hmem (List.mem_append_right _ List.mem_cons_self)
            · intro w hw
              rcases List.mem_cons.mp hw with rfl | hw
              · exact hseen
              · exact fun hmem => hnew w hw (List.mem_append_left _ hmem)
            · rw [List.foldl_cons, List.append_assoc, List.singleton_append]
          · rintro ⟨vs, hvs, hnodup, hnew, rfl⟩
            obtain ⟨w, vs', hw, hvs', rfl⟩ := List.forall₂_cons_left_iff.mp hvs
            rw [hv] at hw
            obtain rfl := Except.ok.inj hw
            rw [List.nodup_cons] at hnodup
            refine ⟨vs', hvs', hnodup.2, ?_, ?_⟩
            · intro u hu hmem
              rcases List.mem_append.mp hmem with hmem | hmem
              · exact hnew u (List.mem_cons_of_mem _ hu) hmem
              · rw [List.mem_singleton.mp hmem] at hu
                exact hnodup.1 hu
            · rw [List.foldl_cons, List.append_assoc, List.singleton_append]
    · rw [if_neg hup, List.filter_cons_of_neg hup]
      exact ih

/-! ## The check for gaps -/

theorem firstGap_eq_none {i : Nat} {versions : List Int} :
    firstGap i versions = none ↔ versions = (List.range' i versions.length).map Int.ofNat := by
  induction versions generalizing i with
  | nil => simp [firstGap]
  | cons v versions ih =>
    rw [firstGap, List.length_cons, List.range'_succ, List.map_cons, List.cons.injEq, ← ih]
    by_cases hv : v = i
    · simp [hv]
    · simp [hv]

theorem oneTo_pairwise (n : Nat) : (oneTo n).Pairwise (· ≤ ·) := by
  rw [oneTo, List.pairwise_map]
  refine (List.pairwise_lt_range' (n := n)).imp ?_
  intro a b hab
  exact Int.ofNat_le.mpr (Nat.le_of_lt hab)

theorem foldl_max_oneTo (n : Nat) : (oneTo n).foldl max 0 = n := by
  induction n with
  | zero => rfl
  | succ n ih =>
    rw [oneTo, List.range'_concat, List.map_append, List.foldl_append]
    rw [oneTo] at ih
    rw [ih, List.map_singleton, List.foldl_cons, List.foldl_nil]
    simp only [Int.ofNat_eq_natCast]
    omega

theorem length_oneTo (n : Nat) : (oneTo n).length = n := by
  rw [oneTo, List.length_map, List.length_range']

/-- The versions pass the check for gaps when they are 1 to their number, in any order. -/
theorem firstGap_sorted {vs : List Int} :
    firstGap 1 (vs.mergeSort fun v w => v ≤ w) = none ↔ vs.Perm (oneTo vs.length) := by
  have hperm := List.mergeSort_perm vs fun v w => decide (v ≤ w)
  rw [firstGap_eq_none, hperm.length_eq]
  constructor
  · intro h
    rw [h] at hperm
    exact hperm.symm
  · intro h
    have hsorted : (vs.mergeSort fun v w => decide (v ≤ w)).Pairwise (· ≤ ·) := List.pairwise_mergeSort' _ _
    exact (hperm.trans h).eq_of_pairwise (fun a b _ _ hab hba => le_antisymm hab hba) hsorted (oneTo_pairwise _)

/-! ## The version -/

theorem mapM_integerPrefix {names : List String} {vs : List Int} :
    names.mapM integerPrefix = some vs ↔ List.Forall₂ (fun name v => integerPrefix name = some v) names vs := by
  induction names generalizing vs with
  | nil => simp [eq_comm]
  | cons name names ih =>
    rw [List.mapM_cons, List.forall₂_cons_left_iff]
    simp only [Option.bind_eq_bind, Option.bind_eq_some_iff, Option.pure_def, Option.some.injEq, ih]
    constructor
    · rintro ⟨v, hv, vs', hvs', rfl⟩
      exact ⟨v, vs', hv, hvs', rfl⟩
    · rintro ⟨v, vs', hv, hvs', rfl⟩
      exact ⟨v, hv, vs', hvs', rfl⟩

/-- What the two passes over the versions leave. -/
theorem embeddedVersion_eq_ok {names : List String} {n : Int} :
    embeddedVersion names = .ok n ↔
      ∃ vs, List.Forall₂ (fun name v => version name = .ok v) (names.filter isUp) vs ∧ vs.Nodup ∧
        vs.foldl max 0 = n ∧ n ≠ 0 ∧ vs.Perm (oneTo vs.length) := by
  unfold embeddedVersion
  constructor
  · intro h
    cases hread : readNames 0 [] names with
    | error e =>
      rw [hread] at h
      exact nomatch h
    | ok r =>
      obtain ⟨vs, hvs, hnodup, -, rfl⟩ := readNames_eq_ok.mp hread
      rw [hread] at h
      simp only [List.nil_append] at h
      split at h
      · exact nomatch h
      · rename_i hmax
        split at h
        · exact nomatch h
        · rename_i hgap
          obtain rfl := Except.ok.inj h
          exact ⟨vs, hvs, hnodup, rfl, hmax, firstGap_sorted.mp hgap⟩
  · rintro ⟨vs, hvs, hnodup, rfl, hne, hperm⟩
    rw [readNames_eq_ok.mpr ⟨vs, hvs, hnodup, fun _ _ => List.not_mem_nil, rfl⟩]
    simp only [List.nil_append]
    rw [if_neg hne, firstGap_sorted.mpr hperm]

theorem oneTo_nodup (n : Nat) : (oneTo n).Nodup := by
  have hrange : (List.range' 1 n).Nodup := List.nodup_range'
  rw [oneTo]
  exact hrange.map fun _ _ h => Int.ofNat.inj h

theorem mem_oneTo {n : Nat} {v : Int} : v ∈ oneTo n ↔ 1 ≤ v ∧ v ≤ n := by
  rw [oneTo, List.mem_map]
  constructor
  · rintro ⟨i, hi, rfl⟩
    rw [List.mem_range'_1] at hi
    simp only [Int.ofNat_eq_natCast]
    omega
  · rintro ⟨hpos, hle⟩
    refine ⟨v.toNat, ?_, ?_⟩
    · rw [List.mem_range'_1]
      omega
    · simp only [Int.ofNat_eq_natCast]
      omega

/-- The version is `n` when the migrations are numbered 1 to `n`, and in every other case there is none. -/
theorem embeddedVersion_iff (names : List String) :
    (∀ n, embeddedVersion names = .ok n ↔ 1 ≤ n ∧ n < 2 ^ 63 ∧ Numbered names n) ∧
      ((¬ ∃ n, 1 ≤ n ∧ n < 2 ^ 63 ∧ Numbered names n) → ∃ e, embeddedVersion names = .error e) := by
  have hiff : ∀ n, embeddedVersion names = .ok n ↔ 1 ≤ n ∧ n < 2 ^ 63 ∧ Numbered names n := by
    intro n
    rw [embeddedVersion_eq_ok]
    constructor
    · rintro ⟨vs, hvs, -, hmax, hne, hperm⟩
      rw [hperm.foldl_eq, foldl_max_oneTo] at hmax
      subst hmax
      have hmem : (vs.length : Int) ∈ vs := by
        rw [hperm.mem_iff, mem_oneTo]
        omega
      obtain ⟨name, -, hname⟩ := Report.forall₂_exists_right hvs hmem
      refine ⟨by omega, (version_eq_ok.mp hname).2.2, vs, ?_, ?_⟩
      · exact mapM_integerPrefix.mpr (hvs.imp fun _ _ h => (version_eq_ok.mp h).1)
      · rw [Int.toNat_natCast]
        exact hperm
    · rintro ⟨hpos, hlt, vs, hvs, hperm⟩
      have hlen : vs.length = n.toNat := by rw [hperm.length_eq, length_oneTo]
      refine ⟨vs, ?_, hperm.nodup_iff.mpr (oneTo_nodup _), ?_, by omega, by rwa [hlen]⟩
      · have hbound : ∀ v ∈ vs, -2 ^ 63 ≤ v ∧ v < 2 ^ 63 := by
          intro v hv
          have := mem_oneTo.mp (hperm.mem_iff.mp hv)
          omega
        have hboth := (List.forall₂_and_left _ _).mpr ⟨hbound, (mapM_integerPrefix.mp hvs).flip⟩
        exact hboth.flip.imp fun _ _ h => version_eq_ok.mpr ⟨h.2, h.1⟩
      · rw [hperm.foldl_eq, foldl_max_oneTo]
        omega
  refine ⟨hiff, fun hnone => ?_⟩
  cases h : embeddedVersion names with
  | error e => exact ⟨e, rfl⟩
  | ok n => exact absurd ⟨n, (hiff n).mp h⟩ hnone

end Vizra.Migrate
