import Mathlib.Computability.Language

/-!
# Regular expressions over character classes

A regular expression denotes a `Language`. `accepts` decides membership by derivatives, built with
constructors that drop what is empty so that the expression stays small, and `accepts_iff` says that it
does. The lemmas below it read the language of the constructs that patterns are written with: classes,
sequences and counted repetition.
-/

namespace Regex

open Computability

variable {α : Type}

inductive Rx (α : Type) where
  | none
  | eps
  | cls (p : α → Bool)
  | seq (r s : Rx α)
  | alt (r s : Rx α)
  | star (r : Rx α)

namespace Rx

variable {p : α → Bool} {w : List α} {r : Rx α} {a : α} {P : α → Prop}

/-- The language of an expression. -/
def lang : Rx α → Language α
  | none => 0
  | eps => 1
  | cls p => {w | ∃ a, p a = true ∧ w = [a]}
  | seq r s => lang r * lang s
  | alt r s => lang r + lang s
  | star r => (lang r)∗

def char [DecidableEq α] (a : α) : Rx α := cls fun b => b == a

/-- `r+`. -/
def plus (r : Rx α) : Rx α := seq r (star r)

/-- `r{n}`. -/
def pow (r : Rx α) : Nat → Rx α
  | 0 => eps
  | n + 1 => seq r (pow r n)

/-- `r{0,n}`. -/
def upTo (r : Rx α) : Nat → Rx α
  | 0 => eps
  | n + 1 => alt eps (seq r (upTo r n))

/-- `r{n,m}`. -/
def between (r : Rx α) (n m : Nat) : Rx α := seq (pow r n) (upTo r (m - n))

/-- `r?`. -/
def opt (r : Rx α) : Rx α := alt eps r

def text [DecidableEq α] : List α → Rx α
  | [] => eps
  | a :: as => seq (char a) (text as)

/-- `t₁|…|tₙ`, for texts. -/
def oneOf [DecidableEq α] (ts : List (List α)) : Rx α := ts.foldr (fun t r => alt (text t) r) none

/-- `.*r.*`: a match anywhere in a line. -/
def anywhere (r : Rx α) : Rx α := seq (star (cls fun _ => true)) (seq r (star (cls fun _ => true)))

/-! ## Matching -/

/-- The expression matches the empty word. -/
def nullable : Rx α → Bool
  | none => false
  | eps => true
  | cls _ => false
  | seq r s => nullable r && nullable s
  | alt r s => nullable r || nullable s
  | star _ => true

/-- `seq`, where a side that is empty or matches only the empty word is dropped. -/
def mkSeq : Rx α → Rx α → Rx α
  | none, _ => none
  | eps, s => s
  | r, s => seq r s

/-- `alt`, where an empty side is dropped. -/
def mkAlt : Rx α → Rx α → Rx α
  | none, s => s
  | r, none => r
  | r, s => alt r s

/-- The expression for what may follow `a`. -/
def deriv (a : α) : Rx α → Rx α
  | none => none
  | eps => none
  | cls p => if p a then eps else none
  | seq r s => if nullable r then mkAlt (mkSeq (deriv a r) s) (deriv a s) else mkSeq (deriv a r) s
  | alt r s => mkAlt (deriv a r) (deriv a s)
  | star r => mkSeq (deriv a r) (star r)

/-- The word is in the language. -/
def accepts : Rx α → List α → Bool
  | r, [] => nullable r
  | r, a :: w => accepts (deriv a r) w

theorem lang_mkSeq (r s : Rx α) : lang (mkSeq r s) = lang r * lang s := by
  unfold mkSeq
  split
  · exact (zero_mul _).symm
  · exact (one_mul _).symm
  · rfl

theorem lang_mkAlt (r s : Rx α) : lang (mkAlt r s) = lang r + lang s := by
  unfold mkAlt
  split
  · exact (zero_add _).symm
  · exact (add_zero _).symm
  · rfl

theorem mem_lang_cls : w ∈ lang (cls p) ↔ ∃ a, p a = true ∧ w = [a] := Iff.rfl

theorem nil_mem_lang : [] ∈ lang r ↔ nullable r = true := by
  induction r with
  | none => simp [lang, nullable]
  | eps => simp [lang, nullable, Language.mem_one]
  | cls p => simp [mem_lang_cls, nullable]
  | seq r s ihr ihs => simp [lang, nullable, Language.mem_mul, ihr, ihs]
  | alt r s ihr ihs => rw [lang, Language.mem_add, ihr, ihs, nullable, Bool.or_eq_true]
  | star r _ => simp [lang, nullable, Language.nil_mem_kstar]

/-- The words of `l * m` that start with `a`. -/
theorem cons_mem_mul {l m : Language α} :
    a :: w ∈ l * m ↔ (∃ u v, a :: u ∈ l ∧ v ∈ m ∧ u ++ v = w) ∨ [] ∈ l ∧ a :: w ∈ m := by
  rw [Language.mem_mul]
  constructor
  · rintro ⟨t, ht, v, hv, h⟩
    cases t with
    | nil => exact Or.inr ⟨ht, h ▸ hv⟩
    | cons b u =>
      obtain ⟨rfl, rfl⟩ := List.cons.inj h
      exact Or.inl ⟨u, v, ht, hv, rfl⟩
  · rintro (⟨u, v, hu, hv, rfl⟩ | ⟨h0, hw⟩)
    · exact ⟨a :: u, hu, v, hv, rfl⟩
    · exact ⟨[], h0, a :: w, hw, rfl⟩

/-- The words of `l∗` that start with `a`. -/
theorem cons_mem_kstar {l : Language α} : a :: w ∈ l∗ ↔ ∃ u v, a :: u ∈ l ∧ v ∈ l∗ ∧ u ++ v = w := by
  constructor
  · rw [Language.mem_kstar_iff_exists_nonempty]
    -- the factors can be taken non-empty, so the first one starts with `a`
    rintro ⟨S, hS, hmem⟩
    cases S with
    | nil => simp at hS
    | cons t S =>
      obtain ⟨htl, htne⟩ := hmem t (List.mem_cons_self ..)
      cases t with
      | nil => exact absurd rfl htne
      | cons b u =>
        simp only [List.flatten_cons, List.cons_append, List.cons.injEq] at hS
        obtain ⟨rfl, rfl⟩ := hS
        refine ⟨u, S.flatten, htl, ?_, rfl⟩
        rw [Language.mem_kstar]
        exact ⟨S, rfl, fun y hy => (hmem y (List.mem_cons_of_mem _ hy)).1⟩
  · rintro ⟨u, v, hu, hv, rfl⟩
    rw [Language.mem_kstar] at hv ⊢
    obtain ⟨S, rfl, hS⟩ := hv
    refine ⟨(a :: u) :: S, rfl, fun y hy => ?_⟩
    rcases List.mem_cons.mp hy with rfl | hy
    · exact hu
    · exact hS y hy

theorem mem_lang_deriv : w ∈ lang (deriv a r) ↔ a :: w ∈ lang r := by
  induction r generalizing w with
  | none => simp [lang, deriv]
  | eps => simp [lang, deriv, Language.mem_one]
  | cls p =>
    unfold deriv
    split_ifs with h
    · rw [lang, Language.mem_one, mem_lang_cls]
      simp [h]
    · rw [mem_lang_cls]
      simp [lang, h]
  | seq r s ihr ihs =>
    -- the word starts in `r`, or `r` is passed over and it starts in `s`
    have hseq : w ∈ lang (deriv a r) * lang s ↔ ∃ u v, a :: u ∈ lang r ∧ v ∈ lang s ∧ u ++ v = w := by
      rw [Language.mem_mul]
      constructor
      · rintro ⟨u, hu, v, hv, rfl⟩
        exact ⟨u, v, ihr.mp hu, hv, rfl⟩
      · rintro ⟨u, v, hu, hv, rfl⟩
        exact ⟨u, ihr.mpr hu, v, hv, rfl⟩
    rw [lang, cons_mem_mul, nil_mem_lang, ← hseq]
    cases h : nullable r with
    | true => rw [deriv, if_pos h, lang_mkAlt, lang_mkSeq, Language.mem_add, ihs]; simp
    | false => rw [deriv, if_neg (by simp [h]), lang_mkSeq]; simp
  | alt r s ihr ihs => rw [deriv, lang_mkAlt, Language.mem_add, ihr, ihs, lang, Language.mem_add]
  | star r ih =>
    rw [deriv, lang_mkSeq, Language.mem_mul, lang, cons_mem_kstar]
    constructor
    · rintro ⟨u, hu, v, hv, rfl⟩
      exact ⟨u, v, ih.mp hu, hv, rfl⟩
    · rintro ⟨u, v, hu, hv, rfl⟩
      exact ⟨u, ih.mpr hu, v, hv, rfl⟩

theorem accepts_iff : accepts r w = true ↔ w ∈ lang r := by
  induction w generalizing r with
  | nil => exact nil_mem_lang.symm
  | cons a w ih => rw [accepts, ih, mem_lang_deriv]

/-! ## The language of a pattern -/

theorem mem_lang_seq {s : Rx α} : w ∈ lang (seq r s) ↔ ∃ u v, w = u ++ v ∧ u ∈ lang r ∧ v ∈ lang s := by
  rw [lang, Language.mem_mul]
  constructor
  · rintro ⟨u, hu, v, hv, rfl⟩
    exact ⟨u, v, rfl, hu, hv⟩
  · rintro ⟨u, v, rfl, hu, hv⟩
    exact ⟨u, hu, v, hv, rfl⟩

theorem mem_lang_char [DecidableEq α] : w ∈ lang (char a) ↔ w = [a] := by
  simp [char, mem_lang_cls]

theorem mem_lang_star_cls : w ∈ lang (star (cls p)) ↔ ∀ a ∈ w, p a = true := by
  induction w with
  | nil => exact iff_of_true (Language.nil_mem_kstar _) (by simp)
  | cons a w ih =>
    rw [lang, cons_mem_kstar, List.forall_mem_cons, ← ih]
    constructor
    · rintro ⟨u, v, ⟨b, hb, hu⟩, hv, rfl⟩
      obtain ⟨rfl, rfl⟩ := List.cons.inj hu
      exact ⟨hb, hv⟩
    · rintro ⟨ha, hw⟩
      exact ⟨[], w, ⟨a, ha, rfl⟩, hw, rfl⟩

theorem mem_lang_plus_cls : w ∈ lang (plus (cls p)) ↔ w ≠ [] ∧ ∀ a ∈ w, p a = true := by
  rw [plus, mem_lang_seq]
  constructor
  · rintro ⟨u, v, rfl, ⟨a, ha, rfl⟩, hv⟩
    rw [mem_lang_star_cls] at hv
    exact ⟨by simp, by simpa using ⟨ha, hv⟩⟩
  · rintro ⟨hne, hall⟩
    cases w with
    | nil => exact absurd rfl hne
    | cons a w =>
      rw [List.forall_mem_cons] at hall
      exact ⟨[a], w, rfl, ⟨a, hall.1, rfl⟩, mem_lang_star_cls.mpr hall.2⟩

theorem mem_lang_alt {s : Rx α} : w ∈ lang (alt r s) ↔ w ∈ lang r ∨ w ∈ lang s := Language.mem_add _ _ _

theorem mem_lang_text [DecidableEq α] {t : List α} : w ∈ lang (text t) ↔ w = t := by
  induction t generalizing w with
  | nil => exact Language.mem_one w
  | cons a t ih =>
    rw [text, mem_lang_seq]
    constructor
    · rintro ⟨u, v, rfl, hu, hv⟩
      rw [mem_lang_char.mp hu, ih.mp hv]
      rfl
    · rintro rfl
      exact ⟨[a], t, rfl, mem_lang_char.mpr rfl, ih.mpr rfl⟩

theorem mem_lang_oneOf [DecidableEq α] {ts : List (List α)} : w ∈ lang (oneOf ts) ↔ w ∈ ts := by
  induction ts with
  | nil => exact iff_of_false (Language.notMem_zero w) List.not_mem_nil
  | cons t ts ih =>
    show w ∈ lang (alt (text t) (oneOf ts)) ↔ w ∈ t :: ts
    rw [mem_lang_alt, mem_lang_text, ih, List.mem_cons]

theorem mem_lang_anywhere : w ∈ lang (anywhere r) ↔ ∃ u m v, w = u ++ (m ++ v) ∧ m ∈ lang r := by
  have hall : ∀ v : List α, v ∈ lang (star (cls fun _ => true)) := fun v => mem_lang_star_cls.mpr fun _ _ => rfl
  rw [anywhere, mem_lang_seq]
  constructor
  · rintro ⟨u, x, rfl, -, hx⟩
    obtain ⟨m, v, rfl, hm, -⟩ := mem_lang_seq.mp hx
    exact ⟨u, m, v, rfl, hm⟩
  · rintro ⟨u, m, v, rfl, hm⟩
    exact ⟨u, m ++ v, rfl, hall u, mem_lang_seq.mpr ⟨m, v, rfl, hm, hall v⟩⟩

theorem flatten_mem_lang_pow {ws : List (List α)} (h : ∀ w ∈ ws, w ∈ lang r) : ws.flatten ∈ lang (pow r ws.length) := by
  induction ws with
  | nil => exact Language.nil_mem_one
  | cons w ws ih =>
    rw [List.forall_mem_cons] at h
    exact mem_lang_seq.mpr ⟨w, ws.flatten, rfl, h.1, ih h.2⟩

theorem flatten_mem_lang_upTo {ws : List (List α)} {n : Nat} (h : ∀ w ∈ ws, w ∈ lang r) (hlength : ws.length ≤ n) :
    ws.flatten ∈ lang (upTo r n) := by
  induction ws generalizing n with
  | nil => cases n with
    | zero => exact Language.nil_mem_one
    | succ n => exact Or.inl Language.nil_mem_one
  | cons w ws ih => cases n with
    | zero => simp at hlength
    | succ n =>
      rw [List.forall_mem_cons] at h
      rw [List.length_cons] at hlength
      exact Or.inr (mem_lang_seq.mpr ⟨w, ws.flatten, rfl, h.1, ih h.2 (by omega)⟩)

theorem mem_lang_between_cls {n m : Nat} (h : ∀ a ∈ w, p a = true) (hlo : n ≤ w.length) (hhi : w.length ≤ m) :
    w ∈ lang (between (cls p) n m) := by
  -- the word is its letters, one by one
  have hletters : ∀ v : List α, (∀ a ∈ v, p a = true) → ∀ u ∈ v.map fun a => [a], u ∈ lang (cls p) := by
    intro v hv u hu
    obtain ⟨a, ha, rfl⟩ := List.mem_map.mp hu
    exact ⟨a, hv a ha, rfl⟩
  have hflatten : ∀ v : List α, (v.map fun a => [a]).flatten = v := by
    intro v
    rw [← List.flatMap_def, List.flatMap_singleton']
  have hfirst := flatten_mem_lang_pow (hletters (w.take n) fun a ha => h a (List.mem_of_mem_take ha))
  have hrest := flatten_mem_lang_upTo (n := m - n)
    (hletters (w.drop n) fun a ha => h a (List.mem_of_mem_drop ha)) (by rw [List.length_map, List.length_drop]; omega)
  rw [hflatten, List.length_map, List.length_take, Nat.min_eq_left hlo] at hfirst
  rw [hflatten] at hrest
  exact mem_lang_seq.mpr ⟨w.take n, w.drop n, (List.take_append_drop n w).symm, hfirst, hrest⟩

/-- Every class of the expression is within `P`. -/
def Within (P : α → Prop) : Rx α → Prop
  | none | eps => True
  | cls p => ∀ a, p a = true → P a
  | seq r s | alt r s => Within P r ∧ Within P s
  | star r => Within P r

theorem forall_of_mem_lang (h : r.Within P) (hw : w ∈ lang r) : ∀ a ∈ w, P a := by
  induction r generalizing w with
  | none => exact absurd hw (Language.notMem_zero w)
  | eps => rw [lang, Language.mem_one] at hw; simp [hw]
  | cls p =>
    obtain ⟨a, ha, rfl⟩ := mem_lang_cls.mp hw
    simpa using h a ha
  | seq r s ihr ihs =>
    obtain ⟨u, v, rfl, hu, hv⟩ := mem_lang_seq.mp hw
    intro a ha
    rcases List.mem_append.mp ha with ha | ha
    · exact ihr h.1 hu a ha
    · exact ihs h.2 hv a ha
  | alt r s ihr ihs =>
    rw [lang, Language.mem_add] at hw
    rcases hw with hw | hw
    · exact ihr h.1 hw
    · exact ihs h.2 hw
  | star r ih =>
    rw [lang, Language.mem_kstar] at hw
    obtain ⟨S, rfl, hS⟩ := hw
    intro a ha
    obtain ⟨u, hu, hau⟩ := List.mem_flatten.mp ha
    exact ih h (hS u hu) a hau

theorem Within.pow (h : r.Within P) (n : Nat) : (r.pow n).Within P := by
  induction n with
  | zero => trivial
  | succ n ih => exact ⟨h, ih⟩

theorem Within.upTo (h : r.Within P) (n : Nat) : (r.upTo n).Within P := by
  induction n with
  | zero => trivial
  | succ n ih => exact ⟨trivial, h, ih⟩

theorem Within.between (h : r.Within P) (n m : Nat) : (r.between n m).Within P := ⟨h.pow n, h.upTo (m - n)⟩

end Rx

end Regex
