import Vizra.Makefile.Proofs.GrammarProofs

/-!
# Who owns a recipe line

The lines of an accepted text are numbered by their first physical line, and a TAB line belongs to the recipe of one
rule line, the one that the grammar has open there.
-/

namespace Vizra.Makefile

open Py

variable {isFormat : Char → Bool} {text : Str}
variable {k : Nat} {rec : LogicalLine} {lines : List LogicalLine}

/-! ## The numbers of the lines -/

theorem segments_close (j : Joined) : j.close.segments = j.segments := by
  unfold Joined.close
  split
  · rfl
  · rfl

theorem n_close (j : Joined) : j.close.n = j.n := by
  unfold Joined.close
  split
  · rfl
  · rfl

theorem segments_linesFrom (n : Nat) (j : Joined) (phys : List Str) :
    (linesFrom n j phys).flatMap LogicalLine.segments = j.segments ++ phys := by
  induction phys generalizing n j with
  | nil => rw [linesFrom, List.flatMap_singleton, segments_close, List.append_nil]
  | cons line phys ih =>
    rw [linesFrom]
    split
    · rw [ih, Joined.extend, List.append_assoc, List.singleton_append]
    · rw [List.flatMap_cons, ih, segments_close]
      rfl

theorem segments_makefileLines (text : Str) :
    (makefileLines text).flatMap LogicalLine.segments = text.splitOn '\n' := by
  unfold makefileLines
  split
  · rename_i h
    rw [h, List.flatMap_nil]
  · rename_i line phys h
    rw [h, segments_linesFrom]
    rfl

theorem n_linesFrom {n : Nat} {j : Joined} (hn : j.n + j.segments.length = n) {phys : List Str}
    (hrec : (linesFrom n j phys)[k]? = some rec) :
    rec.n = j.n + (((linesFrom n j phys).take k).flatMap LogicalLine.segments).length := by
  induction phys generalizing n j k with
  | nil =>
    rw [linesFrom] at hrec ⊢
    cases k with
    | zero =>
      obtain rfl := Option.some.inj hrec
      rw [n_close]
      rfl
    | succ k => cases hrec
  | cons line phys ih =>
    rw [linesFrom] at hrec ⊢
    split at hrec
    · rename_i hcontinued
      rw [if_pos hcontinued]
      refine @ih k (n + 1) (j.extend line) ?_ hrec
      show j.n + (j.segments ++ [line]).length = n + 1
      rw [List.length_append, List.length_singleton]
      omega
    · rename_i hcontinued
      rw [if_neg hcontinued]
      cases k with
      | zero =>
        obtain rfl := Option.some.inj hrec
        rw [n_close]
        rfl
      | succ k =>
        have hrest := @ih k (n + 1) (.start n line) rfl hrec
        rw [hrest, List.take_succ_cons, List.flatMap_cons, List.length_append, segments_close]
        show n + _ = _
        omega

/-- A line has the number of its first physical line. -/
theorem n_makefileLines (hrec : (makefileLines text)[k]? = some rec) :
    rec.n = (((makefileLines text).take k).flatMap LogicalLine.segments).length + 1 := by
  unfold makefileLines at hrec ⊢
  split at hrec
  · cases hrec
  · rename_i line phys h
    have hn := n_linesFrom (n := 2) (j := .start 1 line) rfl hrec
    rw [hn, Nat.add_comm]
    rfl

theorem segments_ne_nil (h : rec ∈ makefileLines text) : rec.segments ≠ [] := by
  have hjoined := exists_joined (P := fun j => j.segments ≠ []) ?_ ?_ h
  · obtain ⟨j, hj, rfl⟩ := hjoined
    rw [segments_close]
    exact hj
  · intro n line
    exact List.cons_ne_nil _ _
  · intro j nxt _ _ hnil
    cases (List.append_eq_nil_iff.mp hnil).2

theorem n_lt {k' : Nat} (hlt : k < k') {rec' : LogicalLine} (hrec : (makefileLines text)[k]? = some rec)
    (hrec' : (makefileLines text)[k']? = some rec') : rec.n < rec'.n := by
  have hmem : rec ∈ makefileLines text := List.mem_of_getElem? hrec
  have hpos : 0 < rec.segments.length := List.length_pos_iff.mpr (segments_ne_nil hmem)
  have htake : ((makefileLines text).take (k + 1)).flatMap LogicalLine.segments =
      ((makefileLines text).take k).flatMap LogicalLine.segments ++ rec.segments := by
    rw [List.take_add_one, hrec, List.flatMap_append]
    simp
  have hle : (((makefileLines text).take (k + 1)).flatMap LogicalLine.segments).length ≤
      (((makefileLines text).take k').flatMap LogicalLine.segments).length := by
    have hsub : (makefileLines text).take (k + 1) <+: (makefileLines text).take k' :=
      List.take_prefix_take_left hlt
    obtain ⟨rest, hrest⟩ := hsub
    rw [← hrest, List.flatMap_append, List.length_append]
    omega
  rw [htake, List.length_append] at hle
  rw [n_makefileLines hrec, n_makefileLines hrec']
  omega

/-- A number belongs to one line. -/
theorem index_of_n {k' : Nat} {rec' : LogicalLine} (hrec : (makefileLines text)[k]? = some rec)
    (hrec' : (makefileLines text)[k']? = some rec') (hn : rec.n = rec'.n) : k = k' := by
  rcases Nat.lt_trichotomy k k' with hlt | heq | hlt
  · have hlt' := n_lt hlt hrec hrec'
    omega
  · exact heq
  · have hlt' := n_lt hlt hrec' hrec
    omega

/-! ## Rules -/

/-- The rule of a line that the grammar reads as one. -/
def ruleOf (rec : LogicalLine) : Option (Str × List Str) :=
  if rec.tab || keepsRuleOpen rec || (matchGAssign rec.code).isSome || (matchPhony rec.code).isSome then none
  else matchRule rec.code

/-- A line that leaves an open rule open. -/
def Keeps (rec : LogicalLine) : Prop := rec.tab = true ∨ keepsRuleOpen rec = true

theorem not_keeps_of_ruleOf (h : (ruleOf rec).isSome = true) : ¬ Keeps rec := by
  intro hkeeps
  unfold ruleOf at h
  split_ifs at h with hnot
  · cases h
  · simp only [Bool.or_eq_true, not_or] at hnot
    rcases hkeeps with htab | hopen
    · exact hnot.1.1.1 htab
    · exact hnot.1.1.2 hopen

theorem ruleOf_of_keeps (h : Keeps rec) : ruleOf rec = none := by
  refine if_pos ?_
  simp only [Bool.or_eq_true]
  rcases h with h | h
  · exact Or.inl (Or.inl (Or.inl h))
  · exact Or.inl (Or.inl (Or.inr h))

theorem ruleOf_of_assign {parts : Str × AssignOp × Str} (h : matchGAssign rec.code = some parts) :
    ruleOf rec = none := by
  refine if_pos ?_
  rw [h, Option.isSome_some, Bool.or_true, Bool.true_or]

theorem ruleOf_of_phony {names : List Str} (h : matchPhony rec.code = some names) : ruleOf rec = none := by
  refine if_pos ?_
  rw [h, Option.isSome_some, Bool.or_true]

theorem ruleOf_of_rule (htab : rec.tab = false) (hkeeps : keepsRuleOpen rec = false)
    (hassign : matchGAssign rec.code = none) (hphony : matchPhony rec.code = none) :
    ruleOf rec = matchRule rec.code := by
  refine if_neg ?_
  rw [htab, hkeeps, hassign, hphony]
  exact Bool.false_ne_true

/-- What an accepted line is to the rules around it: it keeps them open, it closes them, or it opens one. -/
theorem accepted_cases {inRule after : Bool} (h : Accepted rec inRule after) :
    (Keeps rec ∧ after = inRule ∧ (rec.tab = true → inRule = true)) ∨
      (¬ Keeps rec ∧ after = false) ∨
      (¬ Keeps rec ∧ (ruleOf rec).isSome = true ∧ after = true) := by
  have hnot : rec.tab = false → keepsRuleOpen rec = false → ¬ Keeps rec := by
    rintro htab hkeeps (h | h)
    · rw [htab] at h
      cases h
    · rw [hkeeps] at h
      cases h
  cases h with
  | recipe htab => exact Or.inl ⟨Or.inl htab, rfl, fun _ => rfl⟩
  | keepsOpen hkeeps =>
    refine Or.inl ⟨Or.inr hkeeps, rfl, fun htab => ?_⟩
    rw [keepsRuleOpen, htab] at hkeeps
    cases hkeeps
  | assign htab hkeeps => exact Or.inr (Or.inl ⟨hnot htab hkeeps, rfl⟩)
  | phony htab hkeeps => exact Or.inr (Or.inl ⟨hnot htab hkeeps, rfl⟩)
  | rule htab hkeeps hlead hassign hphony hcode hone =>
    refine Or.inr (Or.inr ⟨hnot htab hkeeps, ?_, rfl⟩)
    rw [ruleOf_of_rule htab hkeeps hassign hphony, hcode]
    rfl

/-! ## The open rule -/

/-- The place of the rule that is open behind a line, where `cur` is open before it: the flag of `grammar_problems`
says whether one is open, and a line that leaves it on opens a new rule unless it is a recipe line, an empty line or a
comment line. -/
def nextOpen (isFormat : Char → Bool) (i : Nat) (cur : Option Nat) (rec : LogicalLine) : Option Nat :=
  if (lineProblems isFormat cur.isSome rec).2 then (if rec.tab || keepsRuleOpen rec then cur else some i) else none

/-- The rule that `grammar_problems` has open behind some lines. -/
def openFrom (isFormat : Char → Bool) : Nat → Option Nat → List LogicalLine → Option Nat
  | _, cur, [] => cur
  | i, cur, rec :: lines => openFrom isFormat (i + 1) (nextOpen isFormat i cur rec) lines

/-- The rule that `grammar_problems` has open at line `k`. -/
def openAt (isFormat : Char → Bool) (lines : List LogicalLine) (k : Nat) : Option Nat :=
  openFrom isFormat 0 none (lines.take k)

theorem openFrom_append (i : Nat) (cur : Option Nat) (lines : List LogicalLine) (rec : LogicalLine) :
    openFrom isFormat i cur (lines ++ [rec]) =
      nextOpen isFormat (i + lines.length) (openFrom isFormat i cur lines) rec := by
  induction lines generalizing i cur with
  | nil => rfl
  | cons rec' lines ih =>
    rw [List.cons_append, openFrom, ih, openFrom, List.length_cons]
    congr 1
    omega

theorem openAt_succ (hrec : lines[k]? = some rec) :
    openAt isFormat lines (k + 1) = nextOpen isFormat k (openAt isFormat lines k) rec := by
  have hlt : k < lines.length := (List.getElem?_eq_some_iff.mp hrec).1
  rw [openAt, List.take_add_one, hrec, Option.toList_some, openFrom_append, List.length_take,
    Nat.min_eq_left (Nat.le_of_lt hlt), Nat.zero_add]
  rfl

/-- The place is there exactly if the flag of `grammar_problems` is on. -/
theorem isSome_nextOpen {i : Nat} {cur : Option Nat} (h : (lineProblems isFormat cur.isSome rec).1 = []) :
    (nextOpen isFormat i cur rec).isSome = (lineProblems isFormat cur.isSome rec).2 := by
  have hcases := accepted_cases (accepted_of_lineProblems h)
  unfold nextOpen
  split_ifs with hafter hkeeps
  · rcases hcases with ⟨-, heq, -⟩ | ⟨-, heq⟩ | ⟨hnot, -⟩
    · exact heq.symm
    · rw [hafter] at heq
      cases heq
    · rw [Bool.or_eq_true] at hkeeps
      exact absurd hkeeps hnot
  · exact hafter.symm
  · rw [Bool.not_eq_true] at hafter
    exact hafter.symm

/-- The lines behind a place are accepted with the rule that is open there. -/
theorem problemsFrom_drop (h : problemsFrom isFormat false lines = []) (hk : k ≤ lines.length) :
    problemsFrom isFormat (openAt isFormat lines k).isSome (lines.drop k) = [] := by
  induction k with
  | zero => exact h
  | succ k ih =>
    have hrec : lines[k]? = some lines[k] := List.getElem?_eq_getElem hk
    have hfrom := ih (Nat.le_of_lt hk)
    rw [List.drop_eq_getElem_cons hk] at hfrom
    obtain ⟨hline, hrest⟩ := List.append_eq_nil_iff.mp hfrom
    rw [openAt_succ hrec, isSome_nextOpen hline]
    exact hrest

theorem line_at (h : problemsFrom isFormat false lines = []) (hrec : lines[k]? = some rec) :
    (lineProblems isFormat (openAt isFormat lines k).isSome rec).1 = [] := by
  obtain ⟨hlt, rfl⟩ := List.getElem?_eq_some_iff.mp hrec
  have hfrom := problemsFrom_drop h (Nat.le_of_lt hlt)
  rw [List.drop_eq_getElem_cons hlt] at hfrom
  exact (List.append_eq_nil_iff.mp hfrom).1

/-- The last rule line before line `k` is line `i`, and the lines between them leave it open. -/
structure LastRule (lines : List LogicalLine) (k i : Nat) : Prop where
  rule : ∃ r, lines[i]? = some r ∧ (ruleOf r).isSome = true
  lt : i < k
  keeps : ∀ m r, i < m → m < k → lines[m]? = some r → Keeps r

theorem LastRule.unique {i j : Nat} (hi : LastRule lines k i) (hj : LastRule lines k j) : i = j := by
  obtain ⟨r, hr, hrule⟩ := hi.rule
  obtain ⟨r', hr', hrule'⟩ := hj.rule
  rcases Nat.lt_trichotomy i j with hlt | heq | hlt
  · exact absurd (hi.keeps j r' hlt hj.lt hr') (not_keeps_of_ruleOf hrule')
  · exact heq
  · exact absurd (hj.keeps i r hlt hi.lt hr) (not_keeps_of_ruleOf hrule)

theorem lastRule_of_openAt (h : problemsFrom isFormat false lines = []) {i : Nat} (hk : k ≤ lines.length)
    (hopen : openAt isFormat lines k = some i) : LastRule lines k i := by
  induction k generalizing i with
  | zero => cases hopen
  | succ k ih =>
    have hrec : lines[k]? = some lines[k] := List.getElem?_eq_getElem hk
    have hcases := accepted_cases (accepted_of_lineProblems (line_at h hrec))
    rw [openAt_succ hrec] at hopen
    unfold nextOpen at hopen
    split_ifs at hopen with hafter hkeeps
    · rw [Bool.or_eq_true] at hkeeps
      have hlast := ih (Nat.le_of_lt hk) hopen
      refine ⟨hlast.rule, Nat.lt_succ_of_lt hlast.lt, fun m r him hmk hr => ?_⟩
      rcases Nat.lt_succ_iff_lt_or_eq.mp hmk with hmk | rfl
      · exact hlast.keeps m r him hmk hr
      · rw [hrec] at hr
        exact Option.some.inj hr ▸ hkeeps
    · obtain rfl := Option.some.inj hopen
      rw [Bool.or_eq_true] at hkeeps
      rcases hcases with ⟨hyes, -⟩ | ⟨-, heq⟩ | ⟨-, hrule, -⟩
      · exact absurd hyes hkeeps
      · rw [hafter] at heq
        cases heq
      · refine ⟨⟨_, hrec, hrule⟩, Nat.lt_succ_self k, fun m r hkm hmk => ?_⟩
        omega

/-- Line `m` is the TAB line `line`, and every line before it leaves a rule open. -/
def RecipeAt (lines : List LogicalLine) (line : Nat × Str) (m : Nat) : Prop :=
  ∃ rec, lines[m]? = some rec ∧ rec.tab = true ∧ line = (rec.n, strip (rec.raw.drop 1)) ∧
    ∀ m' r, m' < m → lines[m']? = some r → Keeps r

theorem recipeAt_zero {line : Nat × Str} :
    RecipeAt (rec :: lines) line 0 ↔ rec.tab = true ∧ line = (rec.n, strip (rec.raw.drop 1)) := by
  constructor
  · rintro ⟨r, hr, htab, hline, -⟩
    obtain rfl := Option.some.inj hr
    exact ⟨htab, hline⟩
  · rintro ⟨htab, hline⟩
    exact ⟨rec, rfl, htab, hline, fun m' r hm' => absurd hm' (Nat.not_lt_zero m')⟩

theorem recipeAt_succ {line : Nat × Str} {m : Nat} :
    RecipeAt (rec :: lines) line (m + 1) ↔ Keeps rec ∧ RecipeAt lines line m := by
  constructor
  · rintro ⟨r, hr, htab, hline, hbefore⟩
    refine ⟨hbefore 0 rec (Nat.succ_pos m) rfl, r, hr, htab, hline, fun m' r' hm' hr' => ?_⟩
    exact hbefore (m' + 1) r' (Nat.succ_lt_succ hm') hr'
  · rintro ⟨hkeeps, r, hr, htab, hline, hbefore⟩
    refine ⟨r, hr, htab, hline, fun m' r' hm' hr' => ?_⟩
    cases m' with
    | zero => exact Option.some.inj hr' ▸ hkeeps
    | succ m' => exact hbefore m' r' (Nat.lt_of_succ_lt_succ hm') hr'

/-- The lines of a recipe are the TAB lines in front of which every line leaves the rule open. -/
theorem mem_recipeLines_iff {line : Nat × Str} : line ∈ recipeLines lines ↔ ∃ m, RecipeAt lines line m := by
  induction lines with
  | nil =>
    constructor
    · intro h
      cases h
    · rintro ⟨m, rec, hrec, -⟩
      cases hrec
  | cons rec lines ih =>
    have hsplit : (∃ m, RecipeAt (rec :: lines) line m) ↔
        (rec.tab = true ∧ line = (rec.n, strip (rec.raw.drop 1))) ∨ Keeps rec ∧ line ∈ recipeLines lines := by
      rw [ih]
      constructor
      · rintro ⟨m, hm⟩
        cases m with
        | zero => exact Or.inl (recipeAt_zero.mp hm)
        | succ m =>
          obtain ⟨hkeeps, hm⟩ := recipeAt_succ.mp hm
          exact Or.inr ⟨hkeeps, m, hm⟩
      · rintro (h | ⟨hkeeps, m, hm⟩)
        · exact ⟨0, recipeAt_zero.mpr h⟩
        · exact ⟨m + 1, recipeAt_succ.mpr ⟨hkeeps, hm⟩⟩
    rw [hsplit, recipeLines]
    split_ifs with htab hkeeps
    · have hyes : Keeps rec := Or.inl htab
      rw [List.mem_cons, and_iff_right htab, and_iff_right hyes]
    · have hno : ¬ (rec.tab = true ∧ line = (rec.n, strip (rec.raw.drop 1))) := fun h => htab h.1
      have hyes : Keeps rec := Or.inr hkeeps
      rw [or_iff_right hno, and_iff_right hyes]
    · have hnot : ¬ Keeps rec := not_or.mpr ⟨htab, hkeeps⟩
      constructor
      · intro h
        cases h
      · rintro (⟨h, -⟩ | ⟨h, -⟩)
        · exact absurd h htab
        · exact absurd h hnot

/-- A TAB line is in the recipe of a rule line exactly if that is the last one before it. -/
theorem mem_recipe_iff_lastRule {j : Nat} (hrec : (makefileLines text)[k]? = some rec) (htab : rec.tab = true) :
    ((∃ r, (makefileLines text)[j]? = some r ∧ (ruleOf r).isSome = true) ∧
        (rec.n, strip (rec.raw.drop 1)) ∈ recipeLines ((makefileLines text).drop (j + 1))) ↔
      LastRule (makefileLines text) k j := by
  rw [mem_recipeLines_iff]
  constructor
  · rintro ⟨hrule, m, rec', hrec', -, heq, hbefore⟩
    rw [List.getElem?_drop] at hrec'
    have hk : k = j + 1 + m := index_of_n hrec hrec' (congrArg Prod.fst heq)
    refine ⟨hrule, by omega, fun i r hji hik hr => ?_⟩
    refine hbefore (i - (j + 1)) r (by omega) ?_
    rw [List.getElem?_drop, ← hr]
    congr 1
    omega
  · intro hlast
    refine ⟨hlast.rule, k - (j + 1), rec, ?_, htab, rfl, fun m' r hm' hr => ?_⟩
    · rw [List.getElem?_drop, ← hrec]
      congr 1
      have hlt := hlast.lt
      omega
    · rw [List.getElem?_drop] at hr
      exact hlast.keeps _ r (by omega) (by omega) hr

/-- A TAB line belongs to the recipe of one rule line, the one that the grammar has open there. -/
theorem recipe_of_openAt (hok : grammarProblems isFormat text = []) (hrec : (makefileLines text)[k]? = some rec)
    (htab : rec.tab = true) :
    ∃ i, openAt isFormat (makefileLines text) k = some i ∧
      ∀ j, ((∃ r, (makefileLines text)[j]? = some r ∧ (ruleOf r).isSome = true) ∧
          (rec.n, strip (rec.raw.drop 1)) ∈ recipeLines ((makefileLines text).drop (j + 1))) ↔ j = i := by
  have hlt : k < (makefileLines text).length := (List.getElem?_eq_some_iff.mp hrec).1
  have hsome : (openAt isFormat (makefileLines text) k).isSome = true := by
    rcases accepted_cases (accepted_of_lineProblems (line_at hok hrec)) with ⟨-, -, h⟩ | ⟨hnot, -⟩ | ⟨hnot, -⟩
    · exact h htab
    · exact absurd (Or.inl htab) hnot
    · exact absurd (Or.inl htab) hnot
  obtain ⟨i, hopen⟩ := Option.isSome_iff_exists.mp hsome
  have hlast := lastRule_of_openAt hok (Nat.le_of_lt hlt) hopen
  refine ⟨i, hopen, fun j => ?_⟩
  rw [mem_recipe_iff_lastRule hrec htab]
  constructor
  · intro hj
    exact hj.unique hlast
  · rintro rfl
    exact hlast

end Vizra.Makefile
