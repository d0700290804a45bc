import Mathlib.Data.List.Infix
import Mathlib.Data.List.TakeWhile

/-!
# Leftmost-first matching and replacement

A pattern is tried at a position, given by the symbol before it and the text after it, and yields its
matches in the order in which a backtracking matcher finds them: the first alternative first, repetition
greedy. `first` is the match that such a matcher reports, and `replaceAll` the pass that looks for it from
left to right and goes on behind each match. Repetition is of a class of symbols, and a match of the empty
word is not reported.

`Pass` is the pass as a relation, one rule for a symbol that is copied and one for a match that is replaced.
-/

namespace Regex

variable {α : Type}

inductive Pat (α : Type) where
  | eps
  | cls (p : α → Bool)
  -- `p*`
  | many (p : α → Bool)
  | seq (r s : Pat α)
  -- `r|s`, where `r` is tried first
  | alt (r s : Pat α)
  -- the `n`-th group
  | group (n : Nat) (r : Pat α)
  -- `^`
  | start
  -- `\b`, for the class of word symbols
  | boundary (w : α → Bool)

/-- A match: the word, and what each group that took part in it matched. -/
structure Match (α : Type) where
  word : List α
  groups : List (Nat × List α)
deriving DecidableEq

def Match.empty : Match α := ⟨[], []⟩

def Match.append (m m' : Match α) : Match α := ⟨m.word ++ m'.word, m.groups ++ m'.groups⟩

/-- What group `n` matched. -/
def Match.group (m : Match α) (n : Nat) : List α := (m.groups.lookup n).getD []

/-- The symbol before the position that follows a word. -/
def lastOr (prev : Option α) (w : List α) : Option α := w.getLast?.or prev

namespace Pat

/-- `p+`. -/
def plus (p : α → Bool) : Pat α := seq (cls p) (many p)

/-- `p{n,}`. -/
def atLeast (p : α → Bool) : Nat → Pat α
  | 0 => many p
  | n + 1 => seq (cls p) (atLeast p n)

/-- `r?`. -/
def opt (r : Pat α) : Pat α := alt r eps

/-- One class after another. -/
def word : List (α → Bool) → Pat α
  | [] => eps
  | p :: ps => seq (cls p) (word ps)

/-- The first of several alternatives, and the others. -/
def oneOf (r : Pat α) : List (Pat α) → Pat α
  | [] => r
  | s :: rs => alt r (oneOf s rs)

/-- The matches at a position, in order of preference. -/
def runs : Pat α → Option α → List α → List (Match α)
  | eps, _, _ => [.empty]
  | cls p, _, text => match text with
    | [] => []
    | a :: _ => if p a then [⟨[a], []⟩] else []
  | many p, _, text => (text.takeWhile p).inits.reverse.map fun w => ⟨w, []⟩
  | seq r s, prev, text => (runs r prev text).flatMap fun m =>
    (runs s (lastOr prev m.word) (text.drop m.word.length)).map m.append
  | alt r s, prev, text => runs r prev text ++ runs s prev text
  | group n r, prev, text => (runs r prev text).map fun m => ⟨m.word, (n, m.word) :: m.groups⟩
  | start, prev, _ => if prev.isNone then [.empty] else []
  | boundary w, prev, text => if prev.any w != text.head?.any w then [.empty] else []

/-- The match that is reported at a position. -/
def first (r : Pat α) (prev : Option α) (text : List α) : Option (Match α) :=
  (r.runs prev text).head?.filter fun m => !m.word.isEmpty

end Pat

/-- What a match is replaced with: symbols, and what its groups matched. -/
inductive Part (α : Type) where
  | lit (w : List α)
  | group (n : Nat)

def expand (template : List (Part α)) (m : Match α) : List α :=
  template.flatMap fun
    | .lit w => w
    | .group n => m.group n

/-- The text after a position with every match replaced; `skip` symbols of it belong to a match before it. -/
def replaceFrom (r : Pat α) (template : List (Part α)) : Option α → Nat → List α → List α
  | _, _, [] => []
  | _, skip + 1, a :: text => replaceFrom r template (some a) skip text
  | prev, 0, a :: text =>
    match r.first prev (a :: text) with
    | none => a :: replaceFrom r template (some a) 0 text
    | some m => expand template m ++ replaceFrom r template (some a) (m.word.length - 1) text

def replaceAll (r : Pat α) (template : List (Part α)) (text : List α) : List α := replaceFrom r template none 0 text

/-! ## Matches -/

namespace Pat

variable {r s : Pat α} {prev : Option α} {text w : List α} {m : Match α} {p : α → Bool}

theorem mem_runs_cls : m ∈ (cls p).runs prev text ↔ ∃ a rest, text = a :: rest ∧ p a = true ∧ m = ⟨[a], []⟩ := by
  cases text with
  | nil => simp [runs]
  | cons a rest =>
    by_cases h : p a = true <;> simp [runs, h]

theorem mem_runs_many : m ∈ (many p).runs prev text ↔ ∃ w, w <+: text.takeWhile p ∧ m = ⟨w, []⟩ := by
  simp [runs, eq_comm]

theorem mem_runs_seq :
    m ∈ (seq r s).runs prev text ↔ ∃ m1 ∈ r.runs prev text,
      ∃ m2 ∈ s.runs (lastOr prev m1.word) (text.drop m1.word.length), m = m1.append m2 := by
  simp [runs, eq_comm]

theorem mem_runs_alt : m ∈ (alt r s).runs prev text ↔ m ∈ r.runs prev text ∨ m ∈ s.runs prev text := by
  simp [runs]

theorem mem_runs_group {n : Nat} :
    m ∈ (group n r).runs prev text ↔ ∃ m1 ∈ r.runs prev text, m = ⟨m1.word, (n, m1.word) :: m1.groups⟩ := by
  simp [runs, eq_comm]

/-- An assertion matches the empty word, if it matches. -/
theorem eq_empty_of_mem_ite {c : Prop} [Decidable c] (h : m ∈ if c then [Match.empty] else []) : m = .empty := by
  split at h
  · exact List.mem_singleton.mp h
  · cases h

/-- A match is of a word that the text starts with. -/
theorem word_prefix (h : m ∈ r.runs prev text) : m.word <+: text := by
  induction r generalizing prev text m with
  | eps =>
    obtain rfl := List.mem_singleton.mp h
    exact List.nil_prefix
  | cls p =>
    obtain ⟨a, rest, rfl, -, rfl⟩ := mem_runs_cls.mp h
    exact ⟨rest, rfl⟩
  | many p =>
    obtain ⟨w, hw, rfl⟩ := mem_runs_many.mp h
    exact hw.trans (List.takeWhile_prefix p)
  | seq r s ihr ihs =>
    obtain ⟨m1, h1, m2, h2, rfl⟩ := mem_runs_seq.mp h
    obtain ⟨rest, hrest⟩ := ihr h1
    have h2' := ihs h2
    rw [← hrest, List.drop_left] at h2'
    rw [← hrest]
    exact (List.prefix_append_right_inj _).mpr h2'
  | alt r s ihr ihs =>
    rcases mem_runs_alt.mp h with h | h
    · exact ihr h
    · exact ihs h
  | group n r ih =>
    obtain ⟨m1, h1, rfl⟩ := mem_runs_group.mp h
    have hword := ih h1
    exact hword
  | start | boundary _ =>
    obtain rfl := eq_empty_of_mem_ite h
    exact List.nil_prefix

/-- The words a pattern can match, its assertions apart. -/
def Denotes : Pat α → List α → Prop
  | eps, w => w = []
  | cls p, w => ∃ a, p a = true ∧ w = [a]
  | many p, w => ∀ a ∈ w, p a = true
  | seq r s, w => ∃ u v, w = u ++ v ∧ Denotes r u ∧ Denotes s v
  | alt r s, w => Denotes r w ∨ Denotes s w
  | group _ r, w => Denotes r w
  | start, w | boundary _, w => w = []

/-- A pattern without assertions. -/
def Free : Pat α → Prop
  | eps | cls _ | many _ => True
  | seq r s | alt r s => Free r ∧ Free s
  | group _ r => Free r
  | start | boundary _ => False

theorem denotes_of_mem (h : m ∈ r.runs prev text) : r.Denotes m.word := by
  induction r generalizing prev text m with
  | eps =>
    obtain rfl := List.mem_singleton.mp h
    rfl
  | cls p =>
    obtain ⟨a, rest, -, ha, rfl⟩ := mem_runs_cls.mp h
    exact ⟨a, ha, rfl⟩
  | many p =>
    obtain ⟨w, hw, rfl⟩ := mem_runs_many.mp h
    intro a ha
    exact List.mem_takeWhile_imp (hw.subset ha)
  | seq r s ihr ihs =>
    obtain ⟨m1, h1, m2, h2, rfl⟩ := mem_runs_seq.mp h
    exact ⟨m1.word, m2.word, rfl, ihr h1, ihs h2⟩
  | alt r s ihr ihs =>
    rcases mem_runs_alt.mp h with h | h
    · exact Or.inl (ihr h)
    · exact Or.inr (ihs h)
  | group n r ih =>
    obtain ⟨m1, h1, rfl⟩ := mem_runs_group.mp h
    have hword := ih h1
    exact hword
  | start | boundary _ =>
    obtain rfl := eq_empty_of_mem_ite h
    rfl

theorem exists_mem_of_denotes (hf : r.Free) (h : r.Denotes w) (prev : Option α) (rest : List α) :
    ∃ m ∈ r.runs prev (w ++ rest), m.word = w := by
  induction r generalizing prev w rest with
  | eps =>
    obtain rfl := h
    exact ⟨.empty, List.mem_singleton_self _, rfl⟩
  | cls p =>
    obtain ⟨a, ha, rfl⟩ := h
    exact ⟨⟨[a], []⟩, mem_runs_cls.mpr ⟨a, rest, rfl, ha, rfl⟩, rfl⟩
  | many p =>
    refine ⟨⟨w, []⟩, mem_runs_many.mpr ⟨w, ?_, rfl⟩, rfl⟩
    rw [List.takeWhile_append_of_pos h]
    exact List.prefix_append _ _
  | seq r s ihr ihs =>
    obtain ⟨u, v, rfl, hu, hv⟩ := h
    obtain ⟨m1, h1, rfl⟩ := ihr hf.1 hu prev (v ++ rest)
    obtain ⟨m2, h2, rfl⟩ := ihs hf.2 hv (lastOr prev m1.word) rest
    rw [List.append_assoc]
    refine ⟨m1.append m2, mem_runs_seq.mpr ⟨m1, h1, m2, ?_, rfl⟩, rfl⟩
    rw [List.drop_left]
    exact h2
  | alt r s ihr ihs =>
    rcases h with h | h
    · obtain ⟨m, hm, hw⟩ := ihr hf.1 h prev rest
      exact ⟨m, mem_runs_alt.mpr (Or.inl hm), hw⟩
    · obtain ⟨m, hm, hw⟩ := ihs hf.2 h prev rest
      exact ⟨m, mem_runs_alt.mpr (Or.inr hm), hw⟩
  | group n r ih =>
    obtain ⟨m, hm, rfl⟩ := ih hf h prev rest
    exact ⟨_, mem_runs_group.mpr ⟨m, hm, rfl⟩, rfl⟩
  | start => exact hf.elim
  | boundary w => exact hf.elim

/-- The classes of a pattern are within `p`. -/
def Over (p : α → Bool) : Pat α → Prop
  | eps | start | boundary _ => True
  | cls q | many q => ∀ a, q a = true → p a = true
  | seq r s | alt r s => Over p r ∧ Over p s
  | group _ r => Over p r

theorem all_of_denotes (ho : r.Over p) (h : r.Denotes w) : ∀ a ∈ w, p a = true := by
  induction r generalizing w with
  | eps | start | boundary _ =>
    obtain rfl := h
    simp
  | cls q =>
    obtain ⟨a, ha, rfl⟩ := h
    intro b hb
    rw [List.mem_singleton.mp hb]
    exact ho a ha
  | many q => exact fun a ha => ho a (h a ha)
  | seq r s ihr ihs =>
    obtain ⟨u, v, rfl, hu, hv⟩ := h
    intro a ha
    rcases List.mem_append.mp ha with ha | ha
    · exact ihr ho.1 hu a ha
    · exact ihs ho.2 hv a ha
  | alt r s ihr ihs =>
    rcases h with h | h
    · exact ihr ho.1 h
    · exact ihs ho.2 h
  | group n r ih => exact ih ho h

/-- Whether a pattern may match the empty word. -/
def nullable : Pat α → Bool
  | eps | many _ | start | boundary _ => true
  | cls _ => false
  | seq r s => nullable r && nullable s
  | alt r s => nullable r || nullable s
  | group _ r => nullable r

theorem ne_nil_of_denotes (hn : r.nullable = false) (h : r.Denotes w) : w ≠ [] := by
  induction r generalizing w with
  | eps | many _ | start | boundary _ => cases hn
  | cls q =>
    obtain ⟨a, -, rfl⟩ := h
    simp
  | seq r s ihr ihs =>
    obtain ⟨u, v, rfl, hu, hv⟩ := h
    rw [nullable, Bool.and_eq_false_iff] at hn
    intro hnil
    obtain ⟨hu0, hv0⟩ := List.append_eq_nil_iff.mp hnil
    rcases hn with hn | hn
    · exact ihr hn hu hu0
    · exact ihs hn hv hv0
  | alt r s ihr ihs =>
    rw [nullable, Bool.or_eq_false_iff] at hn
    rcases h with h | h
    · exact ihr hn.1 h
    · exact ihs hn.2 h
  | group n r ih => exact ih hn h

/-- A pattern without groups. -/
def Groupless : Pat α → Prop
  | eps | cls _ | many _ | start | boundary _ => True
  | seq r s | alt r s => Groupless r ∧ Groupless s
  | group _ _ => False

theorem groups_eq_nil (hg : r.Groupless) (h : m ∈ r.runs prev text) : m.groups = [] := by
  induction r generalizing prev text m with
  | eps =>
    obtain rfl := List.mem_singleton.mp h
    rfl
  | cls p =>
    obtain ⟨a, rest, -, -, rfl⟩ := mem_runs_cls.mp h
    rfl
  | many p =>
    obtain ⟨w, -, rfl⟩ := mem_runs_many.mp h
    rfl
  | seq r s ihr ihs =>
    obtain ⟨m1, h1, m2, h2, rfl⟩ := mem_runs_seq.mp h
    rw [Match.append, ihr hg.1 h1, ihs hg.2 h2]
    rfl
  | alt r s ihr ihs =>
    rcases mem_runs_alt.mp h with h | h
    · exact ihr hg.1 h
    · exact ihs hg.2 h
  | group n r ih => exact hg.elim
  | start | boundary _ =>
    obtain rfl := eq_empty_of_mem_ite h
    rfl

/-- A text that is spelled out, up to `f`. -/
theorem denotes_word_beq {β : Type} [BEq β] [LawfulBEq β] {f : α → β} {cs : List β} :
    (word (cs.map fun c a => f a == c)).Denotes w ↔ w.map f = cs := by
  induction cs generalizing w with
  | nil => simp [word, Denotes]
  | cons c cs ih =>
    rw [List.map_cons, word, Denotes]
    constructor
    · rintro ⟨u, v, rfl, ⟨a, ha, rfl⟩, hv⟩
      rw [List.singleton_append, List.map_cons, ih.mp hv, eq_of_beq ha]
    · intro h
      obtain ⟨a, v, rfl, ha, hv⟩ := List.map_eq_cons_iff.mp h
      exact ⟨[a], v, rfl, ⟨a, beq_iff_eq.mpr ha, rfl⟩, ih.mpr hv⟩

theorem mem_of_first (h : r.first prev text = some m) : m ∈ r.runs prev text ∧ m.word ≠ [] := by
  obtain ⟨hm, hne⟩ := Option.filter_eq_some_iff.mp h
  exact ⟨List.mem_of_mem_head? hm, by simpa using hne⟩

theorem first_ne_none (h : m ∈ r.runs prev text) (hne : ∀ m ∈ r.runs prev text, m.word ≠ []) :
    r.first prev text ≠ none := by
  cases hruns : r.runs prev text with
  | nil =>
    rw [hruns] at h
    cases h
  | cons m' ms =>
    have hword := hne m' (hruns ▸ List.mem_cons_self)
    simp [first, hruns, hword]

/-- Behind a word boundary, what a match has read is matched again when other symbols follow it. -/
theorem first_again {c : α → Bool} (hf : s.Free) (hn : s.nullable = false)
    (h : (seq (boundary c) s).first prev text = some m) (rest : List α) :
    (seq (boundary c) s).first prev (m.word ++ rest) ≠ none := by
  obtain ⟨m1, h1, m2, h2, rfl⟩ := mem_runs_seq.mp (mem_of_first h).1
  have hm1 : m1 = .empty ∧ (prev.any c != text.head?.any c) = true := by
    simp only [runs] at h1
    split at h1
    · rename_i hc
      exact ⟨List.mem_singleton.mp h1, hc⟩
    · cases h1
  obtain ⟨rfl, hc⟩ := hm1
  have hword : (Match.empty.append m2).word = m2.word := rfl
  have hs := denotes_of_mem h2
  have hne := ne_nil_of_denotes hn hs
  have hhead : (m2.word ++ rest).head? = text.head? := by
    obtain ⟨a, w, hw⟩ := List.exists_cons_of_ne_nil hne
    obtain ⟨t, ht⟩ : m2.word <+: text := word_prefix h2
    rw [← ht, hw]
    rfl
  obtain ⟨m', hm', -⟩ := exists_mem_of_denotes hf hs (lastOr prev Match.empty.word) rest
  rw [hword]
  refine first_ne_none (m := Match.empty.append m') (mem_runs_seq.mpr ⟨.empty, ?_, m', hm', rfl⟩) fun m'' hm'' => ?_
  · rw [runs, hhead, if_pos hc]
    exact List.mem_cons_self
  · refine ne_nil_of_denotes (r := seq (boundary c) s) ?_ (denotes_of_mem hm'')
    simp only [nullable, hn, Bool.and_false]

theorem text_of_first (h : r.first prev text = some m) : text = m.word ++ text.drop m.word.length := by
  obtain ⟨rest, hrest⟩ := word_prefix (mem_of_first h).1
  rw [← hrest, List.drop_left]

/-- On texts of symbols in `ok`, no symbol in `q` follows the match that is preferred. -/
def Follows (ok q : α → Bool) (r : Pat α) : Prop :=
  ∀ prev text m a, (∀ b ∈ text, ok b = true) → (r.runs prev text).head? = some m →
    (text.drop m.word.length).head? = some a → q a = false

variable {ok q : α → Bool}

theorem getLast?_inits (w : List α) : w.inits.getLast? = some w := by
  induction w with
  | nil => rfl
  | cons a w ih => simp [List.getLast?_cons, List.getLast?_map, ih]

theorem Follows.many (ok q : α → Bool) : Follows ok q (many q) := by
  intro prev text m a _ hm ha
  have hword : m.word = text.takeWhile q := by
    simp only [runs, List.head?_map, List.head?_reverse, getLast?_inits, Option.map_some,
      Option.some.injEq] at hm
    rw [← hm]
  rw [hword] at ha
  have hdrop : text.drop (text.takeWhile q).length = text.dropWhile q := by
    nth_rewrite 2 [← List.takeWhile_append_dropWhile (p := q) (l := text)]
    exact List.drop_left
  rw [hdrop] at ha
  have hnot := List.head?_dropWhile_not q text
  rw [ha] at hnot
  simpa using hnot

theorem Follows.seq (hs : Follows ok q s) (r : Pat α) : Follows ok q (seq r s) := by
  intro prev text m a hok hm ha
  simp only [runs, List.head?_flatMap, List.head?_map] at hm
  obtain ⟨m1, -, hm1⟩ := List.exists_of_findSome?_eq_some hm
  obtain ⟨m2, hm2, rfl⟩ := Option.map_eq_some_iff.mp hm1
  refine hs _ _ m2 a (fun b hb => hok b (List.mem_of_mem_drop hb)) hm2 ?_
  rw [List.drop_drop]
  simpa [Match.append] using ha

theorem Follows.alt (hr : Follows ok q r) (hs : Follows ok q s) : Follows ok q (alt r s) := by
  intro prev text m a hok hm ha
  simp only [runs, List.head?_append, Option.or_eq_some_iff] at hm
  rcases hm with hm | ⟨-, hm⟩
  · exact hr prev text m a hok hm ha
  · exact hs prev text m a hok hm ha

theorem Follows.group (hr : Follows ok q r) (n : Nat) : Follows ok q (group n r) := by
  intro prev text m a hok hm ha
  simp only [runs, List.head?_map, Option.map_eq_some_iff] at hm
  obtain ⟨m0, hm0, rfl⟩ := hm
  exact hr prev text m0 a hok hm0 ha

/-- A pattern that finds nothing in such texts. -/
theorem Follows.of_not_denotes (h : ∀ w, (∀ b ∈ w, ok b = true) → ¬ r.Denotes w) : Follows ok q r := by
  intro prev text m a hok hm ha
  have hmem := List.mem_of_mem_head? hm
  have hpre := word_prefix hmem
  exact absurd (denotes_of_mem hmem) (h _ fun b hb => hok b (hpre.subset hb))

theorem Follows.atLeast (ok q : α → Bool) (n : Nat) : Follows ok q (atLeast q n) := by
  induction n with
  | zero => exact .many ok q
  | succ n ih => exact ih.seq (cls q)

theorem Follows.of_first (h : Follows ok q r) (hok : ∀ b ∈ text, ok b = true) (hm : r.first prev text = some m)
    {a : α} (ha : (text.drop m.word.length).head? = some a) : q a = false :=
  h prev text m a hok (Option.filter_eq_some_iff.mp hm).1 ha

end Pat

/-! ## Passes -/

/-- A pass that stands before `text` has written `out` when it stands before `text'`. -/
inductive Pass (r : Pat α) (template : List (Part α)) :
    Option α → List α → List α → Option α → List α → Prop where
  | refl {prev : Option α} {text : List α} : Pass r template prev text [] prev text
  | keep {prev prev' : Option α} {a : α} {text out text' : List α} (h : r.first prev (a :: text) = none)
      (hp : Pass r template (some a) text out prev' text') :
      Pass r template prev (a :: text) (a :: out) prev' text'
  | hit {prev prev' : Option α} {text out text' : List α} {m : Match α} (h : r.first prev text = some m)
      (hp : Pass r template (lastOr prev m.word) (text.drop m.word.length) out prev' text') :
      Pass r template prev text (expand template m ++ out) prev' text'

section Pass

variable {r : Pat α} {template : List (Part α)} {prev prev' : Option α} {text text' out : List α}

theorem lastOr_cons (prev : Option α) (a : α) (w : List α) : lastOr prev (a :: w) = lastOr (some a) w := by
  cases w with
  | nil => rfl
  | cons b w => simp [lastOr, List.getLast?_cons]

theorem replaceFrom_skip (w rest : List α) (prev : Option α) :
    replaceFrom r template prev w.length (w ++ rest) = replaceFrom r template (lastOr prev w) 0 rest := by
  induction w generalizing prev with
  | nil => rfl
  | cons a w ih =>
    rw [lastOr_cons, ← ih]
    rfl

theorem Pass.of_replaceFrom (prev : Option α) (text : List α) :
    ∃ prev', Pass r template prev text (replaceFrom r template prev 0 text) prev' [] := by
  induction h : text.length using Nat.strong_induction_on generalizing prev text with
  | _ n ih =>
    cases text with
    | nil => exact ⟨prev, .refl⟩
    | cons a text =>
      cases hf : r.first prev (a :: text) with
      | none =>
        obtain ⟨prev', hp⟩ := ih text.length (by simp [← h]) (some a) text rfl
        refine ⟨prev', ?_⟩
        simp only [replaceFrom, hf]
        exact .keep hf hp
      | some m =>
        have htext := Pat.text_of_first hf
        have hne := (Pat.mem_of_first hf).2
        obtain ⟨b, w, hw⟩ := List.exists_cons_of_ne_nil hne
        rw [hw, List.cons_append] at htext
        obtain ⟨rfl, htail⟩ := List.cons.inj htext
        obtain ⟨prev', hp⟩ := ih ((a :: text).drop m.word.length).length
          (by rw [hw]; simp only [← h, List.length_drop, List.length_cons]; omega)
          (lastOr prev m.word) ((a :: text).drop m.word.length) rfl
        refine ⟨prev', ?_⟩
        have hskip : replaceFrom r template (some a) (m.word.length - 1) text =
            replaceFrom r template (lastOr prev m.word) 0 ((a :: text).drop m.word.length) := by
          rw [hw, lastOr_cons, List.length_cons, Nat.add_sub_cancel]
          nth_rewrite 1 [htail]
          rw [replaceFrom_skip]
          rfl
        simp only [replaceFrom, hf, hskip]
        exact .hit hf hp

/-- A pass to the end starts with the replacement of a match that it finds. -/
theorem Pass.of_some {m : Match α} (hp : Pass r template prev text out prev' []) (h : r.first prev text = some m) :
    ∃ out', out = expand template m ++ out' ∧
      Pass r template (lastOr prev m.word) (text.drop m.word.length) out' prev' [] := by
  cases hp with
  | refl =>
    have htext := Pat.text_of_first h
    rw [List.drop_nil, List.append_nil] at htext
    exact absurd htext.symm (Pat.mem_of_first h).2
  | keep h' _ =>
    rw [h] at h'
    cases h'
  | hit h' hp =>
    rw [h] at h'
    obtain rfl := Option.some.inj h'
    exact ⟨_, rfl, hp⟩

/-- A pass copies a symbol where it finds no match. -/
theorem Pass.of_none {a : α} {rest : List α} (hp : Pass r template prev text (a :: rest) prev' text')
    (h : r.first prev text = none) : ∃ text1, text = a :: text1 ∧ Pass r template (some a) text1 rest prev' text' := by
  generalize hout : a :: rest = out at hp
  cases hp with
  | refl => cases hout
  | keep _ hp =>
    obtain ⟨rfl, rfl⟩ := List.cons.inj hout
    exact ⟨_, rfl, hp⟩
  | hit h' _ =>
    rw [h] at h'
    cases h'

/-- A pass to the end copies a symbol where it finds no match. -/
theorem Pass.of_cons_none {a : α} (hp : Pass r template prev (a :: text) out prev' [])
    (h : r.first prev (a :: text) = none) : ∃ out', out = a :: out' ∧ Pass r template (some a) text out' prev' [] := by
  cases hp with
  | keep _ hp => exact ⟨_, rfl, hp⟩
  | hit h' _ =>
    rw [h] at h'
    cases h'

/-- What a pass has read when it has got further. -/
theorem Pass.read (hp : Pass r template prev text out prev' text') :
    ∃ u, text = u ++ text' ∧ prev' = lastOr prev u := by
  induction hp with
  | refl => exact ⟨[], rfl, rfl⟩
  | @keep prev prev' a text out text' h hp ih =>
    obtain ⟨u, rfl, rfl⟩ := ih
    exact ⟨a :: u, rfl, (lastOr_cons prev a u).symm⟩
  | @hit prev prev' text out text' m h hp ih =>
    obtain ⟨u, hu, rfl⟩ := ih
    refine ⟨m.word ++ u, ?_, ?_⟩
    · rw [List.append_assoc, ← hu]
      exact Pat.text_of_first h
    · simp only [lastOr, List.getLast?_append, Option.or_assoc]

/-- A cut through what a pass writes is between two of its steps or inside a replacement. -/
theorem Pass.split {u v : List α} (hp : Pass r template prev text (u ++ v) prev' text') :
    (∃ prev1 text1, Pass r template prev text u prev1 text1 ∧ Pass r template prev1 text1 v prev' text') ∨
      ∃ u1 x y rest m prev1 text1, Pass r template prev text u1 prev1 text1 ∧ r.first prev1 text1 = some m ∧
        Pass r template (lastOr prev1 m.word) (text1.drop m.word.length) rest prev' text' ∧
        expand template m = x ++ y ∧ x ≠ [] ∧ y ≠ [] ∧ u = u1 ++ x ∧ v = y ++ rest := by
  generalize hout : u ++ v = out at hp
  induction hp generalizing u with
  | refl =>
    obtain ⟨rfl, rfl⟩ := List.append_eq_nil_iff.mp hout
    exact Or.inl ⟨_, _, .refl, .refl⟩
  | @keep prev prev' a text out text' h hp ih =>
    cases u with
    | nil =>
      obtain rfl : v = a :: out := hout
      exact Or.inl ⟨_, _, .refl, .keep h hp⟩
    | cons b u =>
      obtain ⟨rfl, htail⟩ := List.cons.inj hout
      rcases ih htail with ⟨prev1, text1, h1, h2⟩ | ⟨u1, x, y, rest, m, prev1, text1, h1, hm, h2, he, hx, hy, rfl, hv⟩
      · exact Or.inl ⟨prev1, text1, .keep h h1, h2⟩
      · exact Or.inr ⟨b :: u1, x, y, rest, m, prev1, text1, .keep h h1, hm, h2, he, hx, hy, rfl, hv⟩
  | @hit prev prev' text out text' m h hp ih =>
    rcases List.append_eq_append_iff.mp hout with ⟨y, he, hv⟩ | ⟨x, rfl, hv⟩
    · -- the cut is not behind this replacement
      by_cases hu : u = []
      · subst hu
        refine Or.inl ⟨_, _, .refl, ?_⟩
        rw [List.nil_append] at he
        rw [hv, ← he]
        exact .hit h hp
      · by_cases hy : y = []
        · subst hy
          rw [List.append_nil] at he
          obtain rfl : v = out := hv
          refine Or.inl ⟨_, _, ?_, hp⟩
          rw [← he, ← List.append_nil (expand template m)]
          exact .hit h .refl
        · exact Or.inr ⟨[], u, y, out, m, _, _, .refl, h, hp, he, hu, hy, rfl, hv⟩
    · rcases ih hv.symm with
        ⟨prev1, text1, h1, h2⟩ | ⟨u1, x', y, rest, m', prev1, text1, h1, hm, h2, he, hx, hy, rfl, hv'⟩
      · exact Or.inl ⟨prev1, text1, .hit h h1, h2⟩
      · exact Or.inr ⟨expand template m ++ u1, x', y, rest, m', prev1, text1, .hit h h1, hm, h2, he, hx, hy,
          (List.append_assoc ..).symm, hv'⟩

/-- The pass keeps the front of a match and writes `mark` in place of the rest. -/
def Marking (r : Pat α) (template : List (Part α)) (mark : List α) : Prop :=
  ∀ prev text m, r.first prev text = some m →
    ∃ front back, m.word = front ++ back ∧ expand template m = front ++ mark

variable {mark : List α}

/-- A pass writes what it reads, and marks. -/
theorem Pass.mem_out (hm : Marking r template mark) (hp : Pass r template prev text out prev' text') {y : α}
    (hy : y ∈ out) : y ∈ text ∨ y ∈ mark := by
  induction hp with
  | refl => cases hy
  | @keep prev prev' a text out text' h hp ih =>
    rcases List.mem_cons.mp hy with rfl | hy
    · exact Or.inl List.mem_cons_self
    · exact (ih hy).imp_left fun hmem => List.mem_cons_of_mem _ hmem
  | @hit prev prev' text out text' m h hp ih =>
    obtain ⟨front, back, hword, hexp⟩ := hm _ _ _ h
    rcases List.mem_append.mp hy with hy | hy
    · rw [hexp] at hy
      rcases List.mem_append.mp hy with hy | hy
      · left
        rw [Pat.text_of_first h, hword]
        exact List.mem_append_left _ (List.mem_append_left _ hy)
      · exact Or.inr hy
    · exact (ih hy).imp_left fun hmem => List.mem_of_mem_drop hmem

/-- A pass that has written no mark has written what it has read. -/
theorem Pass.verbatim {x : α} (hm : Marking r template (x :: mark)) (hp : Pass r template prev text out prev' text')
    (hx : x ∉ out) : text = out ++ text' ∧ prev' = lastOr prev out := by
  induction hp with
  | refl => exact ⟨rfl, rfl⟩
  | @keep prev prev' a text out text' h hp ih =>
    obtain ⟨rfl, rfl⟩ := ih fun hmem => hx (List.mem_cons_of_mem _ hmem)
    exact ⟨rfl, (lastOr_cons prev a out).symm⟩
  | @hit prev prev' text out text' m h hp ih =>
    obtain ⟨front, back, -, hexp⟩ := hm _ _ _ h
    rw [hexp] at hx
    exact absurd (List.mem_append_left _ (List.mem_append_right _ List.mem_cons_self)) hx

/-- The place behind a match in a text. -/
def Behind (r : Pat α) (whole : List α) (prev : Option α) (text : List α) : Prop :=
  ∃ prev0 text0 m, text0 <:+ whole ∧ r.first prev0 text0 = some m ∧ prev = lastOr prev0 m.word ∧
    text = text0.drop m.word.length

theorem Behind.of_suffix {whole whole' : List α} (h : Behind r whole prev text) (hw : whole <:+ whole') :
    Behind r whole' prev text := by
  obtain ⟨prev0, text0, m, h0, hm, hprev, htext⟩ := h
  exact ⟨prev0, text0, m, h0.trans hw, hm, hprev, htext⟩

/-- The last thing that a pass has written is the symbol it has read last, or a mark. -/
theorem Pass.last_written (hm : Marking r template mark) (hp : Pass r template prev text out prev' text') :
    (out = [] ∧ text' = text ∧ prev' = prev) ∨ (∃ out' a, out = out' ++ [a] ∧ prev' = some a) ∨
      mark <:+ out ∧ Behind r text prev' text' := by
  induction hp with
  | refl => exact Or.inl ⟨rfl, rfl, rfl⟩
  | @keep prev prev' a text out text' h hp ih =>
    rcases ih with ⟨rfl, -, rfl⟩ | ⟨out', b, rfl, rfl⟩ | ⟨hsuffix, hbehind⟩
    · exact Or.inr (Or.inl ⟨[], a, rfl, rfl⟩)
    · exact Or.inr (Or.inl ⟨a :: out', b, rfl, rfl⟩)
    · exact Or.inr (Or.inr ⟨hsuffix.trans (List.suffix_cons _ _), hbehind.of_suffix (List.suffix_cons _ _)⟩)
  | @hit prev prev' text out text' m h hp ih =>
    obtain ⟨front, back, -, hexp⟩ := hm _ _ _ h
    rcases ih with ⟨rfl, rfl, rfl⟩ | ⟨out', b, rfl, rfl⟩ | ⟨hsuffix, hbehind⟩
    · refine Or.inr (Or.inr ⟨?_, _, _, m, List.suffix_refl _, h, rfl, rfl⟩)
      rw [List.append_nil, hexp]
      exact List.suffix_append _ _
    · exact Or.inr (Or.inl ⟨expand template m ++ out', b, (List.append_assoc ..).symm, rfl⟩)
    · exact Or.inr (Or.inr ⟨hsuffix.trans (List.suffix_append _ _), hbehind.of_suffix (List.drop_suffix _ _)⟩)

/-- A pass that replaces each match by its own word writes what it reads. -/
theorem Pass.eq_of_fixed {w : List α} (hp : Pass r template (lastOr none w) text out prev' [])
    (h : ∀ u v m, w ++ text = u ++ v → r.first (lastOr none u) v = some m → expand template m = m.word) :
    out = text := by
  generalize hend : ([] : List α) = text' at hp
  generalize hprev : lastOr none w = prev at hp
  induction hp generalizing w with
  | refl => exact hend
  | @keep prev prev' a text out text' _ hp ih =>
    have hnext : lastOr none (w ++ [a]) = some a := by simp [lastOr]
    rw [ih (w := w ++ [a]) (fun u v m huv => h u v m (by rw [← huv]; simp)) hend hnext]
  | @hit prev prev' text out text' m hm hp ih =>
    have htext := Pat.text_of_first hm
    have hword := h w text m rfl (by rw [hprev]; exact hm)
    have hnext : lastOr none (w ++ m.word) = lastOr prev m.word := by
      rw [← hprev]
      simp only [lastOr, List.getLast?_append, Option.or_assoc]
    rw [ih (w := w ++ m.word) (fun u v m' huv => h u v m' ?_) hend hnext, hword]
    · exact htext.symm
    · rw [← huv, List.append_assoc, ← htext]

/-- A pass that keeps the first symbol of each match writes the symbol that it reads first. -/
theorem Pass.head?_eq
    (h : ∀ prev text m, r.first prev text = some m → (expand template m).head? = m.word.head?)
    (hp : Pass r template prev text out prev' []) : out.head? = text.head? := by
  cases hp with
  | refl => rfl
  | keep _ _ => rfl
  | hit hm _ =>
    obtain ⟨a, w, hw⟩ := List.exists_cons_of_ne_nil (Pat.mem_of_first hm).2
    have hexp := h _ _ _ hm
    rw [hw] at hexp
    obtain ⟨w', hw'⟩ := List.head?_eq_some_iff.mp hexp
    rw [hw', Pat.text_of_first hm, hw]
    rfl

/-- A pass that has not moved has written nothing. -/
theorem Pass.progress (hp : Pass r template prev text out prev' text') :
    (out = [] ∧ prev' = prev ∧ text' = text) ∨ text'.length < text.length := by
  induction hp with
  | refl => exact Or.inl ⟨rfl, rfl, rfl⟩
  | @keep prev prev' a text out text' h hp ih =>
    right
    rw [List.length_cons]
    rcases ih with ⟨-, -, rfl⟩ | hlt
    · omega
    · omega
  | @hit prev prev' text out text' m h hp ih =>
    right
    obtain ⟨u, hu, -⟩ := hp.read
    have hlen := congrArg List.length (Pat.text_of_first h)
    have hpos := List.length_pos_of_ne_nil (Pat.mem_of_first h).2
    rw [hu, List.length_append, List.length_append] at hlen
    omega

/-- The pass stops before a symbol that no match contains, and copies it. -/
theorem Pass.at_symbol {x : α} (hx : ∀ prev text m, r.first prev text = some m → x ∉ m.word) {a c : List α}
    (hp : Pass r template prev (a ++ x :: (c ++ text')) out prev' text') :
    ∃ out1 out2, out = out1 ++ x :: out2 ∧
      Pass r template prev (a ++ x :: (c ++ text')) out1 (lastOr prev a) (x :: (c ++ text')) ∧
      Pass r template (some x) (c ++ text') out2 prev' text' := by
  generalize htext : a ++ x :: (c ++ text') = text at hp
  induction hp generalizing a with
  | refl =>
    have hlen := congrArg List.length htext
    simp only [List.length_append, List.length_cons] at hlen
    omega
  | @keep prev prev' b text out text' h hp ih =>
    cases a with
    | nil =>
      obtain ⟨rfl, rfl⟩ := List.cons.inj htext
      exact ⟨[], out, rfl, .refl, hp⟩
    | cons b' a =>
      obtain ⟨rfl, htail⟩ := List.cons.inj htext
      obtain ⟨out1, out2, rfl, h1, h2⟩ := ih htail
      refine ⟨b' :: out1, out2, rfl, ?_, h2⟩
      rw [lastOr_cons]
      exact .keep h h1
  | @hit prev prev' text out text' m h hp ih =>
    have hword := Pat.text_of_first h
    rw [← htext] at hword
    rcases List.append_eq_append_iff.mp hword with ⟨y, hy, hrest⟩ | ⟨y, hy, hrest⟩
    · cases y with
      | nil =>
        rw [List.append_nil] at hy
        rw [List.nil_append] at hrest
        obtain ⟨out1, out2, rfl, h1, h2⟩ := ih (a := []) (by rw [← htext]; exact hrest)
        refine ⟨expand template m ++ out1, out2, (List.append_assoc ..).symm, ?_, h2⟩
        have hpass := Pass.hit h h1
        rwa [hy] at hpass
      | cons b y =>
        obtain ⟨rfl, -⟩ := List.cons.inj hrest
        exact absurd (hy ▸ List.mem_append_right a List.mem_cons_self) (hx _ _ _ h)
    · obtain ⟨out1, out2, rfl, h1, h2⟩ := ih (a := y) (by rw [← htext]; exact hrest.symm)
      refine ⟨expand template m ++ out1, out2, (List.append_assoc ..).symm, ?_, h2⟩
      have hlast : lastOr (lastOr prev m.word) y = lastOr prev a := by
        rw [hy]
        simp only [lastOr, List.getLast?_append, Option.or_assoc]
      rw [← hlast]
      exact .hit h h1

/-- Symbols at which no match starts are copied. -/
theorem Pass.keeps {w c : List α} (hw : ∀ a ∈ w, ∀ prev text, r.first prev (a :: text) = none)
    (hp : Pass r template prev (w ++ (c ++ text')) out prev' text') :
    ∃ out2, out = w ++ out2 ∧ Pass r template (lastOr prev w) (c ++ text') out2 prev' text' := by
  induction w generalizing prev out with
  | nil => exact ⟨out, rfl, hp⟩
  | cons a w ih =>
    generalize htext : a :: w ++ (c ++ text') = text at hp
    cases hp with
    | refl =>
      have hlen := congrArg List.length htext
      simp only [List.length_append, List.length_cons] at hlen
      omega
    | keep h hp =>
      obtain ⟨rfl, rfl⟩ := List.cons.inj htext
      obtain ⟨out2, rfl, h2⟩ := ih (fun b hb => hw b (List.mem_cons_of_mem _ hb)) hp
      refine ⟨out2, rfl, ?_⟩
      rwa [lastOr_cons]
    | hit h hp =>
      rw [← htext, List.cons_append, hw a List.mem_cons_self] at h
      cases h

end Pass

end Regex
