import Vizra.Makefile.Database

/-!
# What the check on MAKEFLAGS refuses

The first bare word of MAKEFLAGS is read as a cluster of letters, and in it every letter other than `p` and `n` is
refused. Of the other words only some are refused, by name.
-/

namespace Vizra.Makefile

open Py

/-- A cluster over `p` and `n`, with a `-` before it or without one. -/
def OwnFlags (w : Str) : Prop :=
  ∃ letters, (w = letters ∨ w = '-' :: letters) ∧ letters ≠ [] ∧ ∀ c ∈ letters, c = 'p' ∨ c = 'n'

/-- A word that can be the cluster. -/
def isBare (w : Str) : Bool := w.head? != some '-' && !w.contains '='

/-- A letter of a cluster that is not one of the guard's own. -/
def foreignLetter (c : Char) : Bool := !(str "pn").contains c

theorem flagCluster_of_ne {cluster : Str} (hne : cluster ≠ []) {rest words : List Str} :
    flagCluster cluster rest words = (cluster, rest ++ words) := by
  induction words generalizing rest with
  | nil => rw [flagCluster, List.append_nil]
  | cons w words ih =>
    rw [flagCluster, List.isEmpty_eq_false_iff.mpr hne]
    simp only [Bool.false_and, Bool.false_eq_true, if_false]
    rw [ih, List.append_assoc, List.singleton_append]

/-- The cluster is the first bare word, and the rest are the other words. -/
theorem flagCluster_eq {rest words : List Str} (hwords : ∀ w ∈ words, w ≠ []) :
    flagCluster [] rest words = ((words.find? isBare).getD [], rest ++ words.eraseP isBare) := by
  induction words generalizing rest with
  | nil => rw [flagCluster, List.find?_nil, List.eraseP_nil, List.append_nil, Option.getD_none]
  | cons w words ih =>
    rw [flagCluster, List.isEmpty_nil, Bool.true_and]
    by_cases hbare : isBare w = true
    · rw [List.find?_cons_of_pos hbare, List.eraseP_cons_of_pos hbare, Option.getD_some]
      unfold isBare at hbare
      rw [if_pos hbare, flagCluster_of_ne (hwords w List.mem_cons_self)]
    · rw [List.find?_cons_of_neg hbare, List.eraseP_cons_of_neg hbare]
      unfold isBare at hbare
      rw [if_neg hbare, ih fun v hv => hwords v (List.mem_cons_of_mem _ hv), List.append_assoc,
        List.singleton_append]

theorem ne_nil_of_mem_splitWords {raw w : Str} (h : w ∈ splitWords raw) : w ≠ [] := by
  rw [splitWords, List.mem_filter] at h
  simpa using h.2

theorem checkMakeflags_eq_nil {raw : Str} :
    checkMakeflags raw = [] ↔
      (∀ w ∈ (splitWords raw).find? isBare, ∀ c ∈ w, foreignLetter c = false) ∧
        ∀ w ∈ (splitWords raw).eraseP isBare, w ∉ dangerousFlagWords := by
  have hcluster := @flagCluster_eq [] (splitWords raw) fun _ => ne_nil_of_mem_splitWords
  unfold checkMakeflags
  rw [hcluster]
  simp only [List.nil_append, ite_eq_right_iff, List.cons_ne_nil, imp_false, Bool.or_eq_true, Bool.not_eq_true',
    List.isEmpty_eq_false_iff, not_or, not_not, List.filter_eq_nil_iff]
  refine and_congr ?_ ?_
  · cases (splitWords raw).find? isBare with
    | none => simp
    | some w => simp [foreignLetter]
  · simp

/-- The first bare word passes as a cluster of the guard's own letters. -/
theorem ownFlags_of_bare {w : Str} (hne : w ≠ []) (hletters : ∀ c ∈ w, foreignLetter c = false) : OwnFlags w := by
  refine ⟨w, Or.inl rfl, hne, fun c hc => ?_⟩
  have hpn := hletters c hc
  rw [foreignLetter, Bool.not_eq_false', List.contains_iff_mem] at hpn
  simpa [str] using hpn

theorem mem_words_iff {words : List Str} {w : Str} (hfound : words.find? isBare = some w) {v : Str} :
    v ∈ words ↔ v = w ∨ v ∈ words.eraseP isBare := by
  obtain ⟨hbare, as, bs, rfl, has⟩ := List.find?_eq_some_iff_append.mp hfound
  rw [List.eraseP_append_right _ (fun b hb => by simpa using has b hb), List.eraseP_cons_of_pos hbare]
  simp only [List.mem_append, List.mem_cons]
  tauto

/-- The value that is judged. -/
def makeflags (db : Database) : Str := (db.vars.lookup (str "MAKEFLAGS")).getD []

theorem checkShell_ne_makeflags {db : Database} {extra : Str} {bad : List Str} :
    ResolvedFailure.makeflags extra bad ∉ checkShell db ++ checkShellflags db := by
  intro h
  rcases List.mem_append.mp h with h | h
  · unfold checkShell at h
    split at h
    · simp at h
    · split at h <;> simp at h
  · unfold checkShellflags at h
    split at h
    · simp at h
    · split at h <;> simp at h

theorem mem_checkEmpty {db : Database} {name : String} {failure : Str → ResolvedFailure} {f : ResolvedFailure}
    (h : f ∈ checkEmpty db name failure) : ∃ value, f = failure value := by
  unfold checkEmpty at h
  simp only [] at h
  split at h
  · simp at h
  · exact ⟨_, List.mem_singleton.mp h⟩

/-- A failure for MAKEFLAGS comes from the check on MAKEFLAGS. -/
theorem makeflags_mem_checkResolved {db : Database} {extra : Str} {bad : List Str} :
    .makeflags extra bad ∈ checkResolved db ↔ .makeflags extra bad ∈ checkMakeflags (makeflags db) := by
  unfold checkResolved
  refine ⟨fun h => ?_, fun h => List.mem_append_right _ h⟩
  simp only [List.mem_append] at h
  rcases h with (((((((h | h) | h) | h) | h) | h) | h) | h) | h
  · exact absurd (List.mem_append_left _ h) checkShell_ne_makeflags
  · exact absurd (List.mem_append_right _ h) checkShell_ne_makeflags
  · split at h <;> simp at h
  · obtain ⟨value, hvalue⟩ := mem_checkEmpty h
    exact nomatch hvalue
  · split at h <;> simp at h
  · split at h <;> simp at h
  · split at h <;> simp at h
  · obtain ⟨value, hvalue⟩ := mem_checkEmpty h
    exact nomatch hvalue
  · exact h

theorem checkMakeflags_cases (raw : Str) :
    checkMakeflags raw = [] ∨ ∃ extra bad, checkMakeflags raw = [.makeflags extra bad] := by
  unfold checkMakeflags
  simp only []
  split
  · exact Or.inr ⟨_, _, rfl⟩
  · exact Or.inl rfl

theorem checkResolved_no_makeflags {db : Database} :
    (∀ extra bad, .makeflags extra bad ∉ checkResolved db) ↔ checkMakeflags (makeflags db) = [] := by
  simp only [makeflags_mem_checkResolved]
  rcases checkMakeflags_cases (makeflags db) with hnil | ⟨extra, bad, hfail⟩
  · simp [hnil]
  · simp only [hfail, List.mem_singleton, List.cons_ne_nil, iff_false]
    intro hnone
    exact hnone extra bad rfl

/-- The check lets nothing but the guard's own flags pass, exactly when the value is refused for its cluster or for
one of the words that are refused by name, or has only own flags outside its cluster. -/
theorem checkResolved_own_flags_iff (db : Database) :
    ((∀ extra bad, .makeflags extra bad ∉ checkResolved db) → ∀ w ∈ splitWords (makeflags db), OwnFlags w) ↔
      (∃ w ∈ (splitWords (makeflags db)).find? isBare, ∃ c ∈ w, foreignLetter c = true) ∨
        (∃ w ∈ (splitWords (makeflags db)).eraseP isBare, w ∈ dangerousFlagWords) ∨
        ∀ w ∈ (splitWords (makeflags db)).eraseP isBare, OwnFlags w := by
  rw [checkResolved_no_makeflags]
  generalize makeflags db = raw
  constructor
  · intro h
    by_cases hletter : ∃ w ∈ (splitWords raw).find? isBare, ∃ c ∈ w, foreignLetter c = true
    · exact Or.inl hletter
    · by_cases hword : ∃ w ∈ (splitWords raw).eraseP isBare, w ∈ dangerousFlagWords
      · exact Or.inr (Or.inl hword)
      · push Not at hletter hword
        have hpass : checkMakeflags raw = [] := by
          refine checkMakeflags_eq_nil.mpr ⟨fun w hw c hc => ?_, hword⟩
          exact Bool.eq_false_iff.mpr (hletter w hw c hc)
        exact Or.inr (Or.inr fun w hw => h hpass w (List.mem_of_mem_eraseP hw))
  · rintro (⟨w, hw, c, hc, hforeign⟩ | ⟨w, hw, hdanger⟩ | hown) hpass v hv
    · have hnone := (checkMakeflags_eq_nil.mp hpass).1 w hw c hc
      rw [hforeign] at hnone
      exact nomatch hnone
    · exact absurd hdanger ((checkMakeflags_eq_nil.mp hpass).2 w hw)
    · cases hfound : (splitWords raw).find? isBare with
      | none =>
        rw [List.eraseP_of_forall_not fun w hw => by simpa using List.find?_eq_none.mp hfound w hw] at hown
        exact hown v hv
      | some w =>
        rcases (mem_words_iff hfound).mp hv with rfl | hrest
        · exact ownFlags_of_bare (ne_nil_of_mem_splitWords hv) ((checkMakeflags_eq_nil.mp hpass).1 v hfound)
        · exact hown v hrest

/-- A database in which make was told `-ik` as well. -/
def ignoringDatabase : Database where
  vars := [(str "SHELL", approvedShell), (str ".SHELLFLAGS", approvedShellflags), (str "MAKEFLAGS", str "pn -ik")]
  oneshell := false
  secondexpansion := false
  ignore := false
  defaultRecipe := false
  phony := []
  recipes := []
  prereqs := []
  duplicates := []
  unreadable := []

/-- `-ik` behind `pn`, which makes make ignore every failure, is not refused. -/
theorem checkResolved_accepts_ignore :
    checkResolved ignoringDatabase = [] ∧ str "-ik" ∈ splitWords (makeflags ignoringDatabase) ∧
      ¬ OwnFlags (str "-ik") := by
  refine ⟨by decide, by decide, ?_⟩
  rintro ⟨letters, h | h, -, hletters⟩
  · subst h
    exact absurd (hletters 'i' (by decide)) (by decide)
  · obtain rfl := (List.cons.inj h).2
    exact absurd (hletters 'i' (by decide)) (by decide)

end Vizra.Makefile
