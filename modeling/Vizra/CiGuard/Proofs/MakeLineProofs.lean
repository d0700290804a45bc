import Vizra.CiGuard.MakeLine

/-!
# What the classifier of make steps sees

The guard asks for an anchor and a pinned body in front of a step whose `run:` the classifier takes for make. The
classifier sees `make` only as the end of a word between white space, alone or behind an opening character; the
tokeniser also finds make behind a path, as `gmake`, in front of punctuation and in quotes.
-/

namespace Vizra.CiGuard

open Py Regex

/-! ## The classifier -/

/-- What may stand in front of `make`. -/
def isOpening (c : Char) : Bool := isSpace c || (str ";&|(\"'`").contains c

/-- A word that ends in a make of its own. -/
def IsMakeWord (w : Str) : Prop :=
  w = str "make" ∨ ∃ u c, w = u ++ (c :: str "make") ∧ (str ";&|(\"'`").contains c = true

theorem makeInvocation_iff_from {prev : Option Char} {s : Str} :
    makeInvocation prev s = true ↔
      ∃ a b, s = a ++ (str "make" ++ b) ∧ (∀ c ∈ (prev.toList ++ a).getLast?, isOpening c = true) ∧
        ∀ c ∈ b.head?, isSpace c = true := by
  induction s generalizing prev with
  | nil =>
    constructor
    · intro h
      cases h
    · rintro ⟨a, b, h, -, -⟩
      have hnil := (List.append_eq_nil_iff.mp (List.append_eq_nil_iff.mp h.symm).2).1
      cases hnil
  | cons d s ih =>
    rw [makeInvocation, Bool.or_eq_true, Bool.and_eq_true, Bool.and_eq_true, ih]
    constructor
    · rintro (⟨⟨hprev, hmake⟩, hbehind⟩ | ⟨a, b, rfl, ha, hb⟩)
      · obtain ⟨b, hb⟩ := List.isPrefixOf_iff_prefix.mp hmake
        rw [← hb] at hbehind
        refine ⟨[], b, hb.symm, ?_, ?_⟩
        · intro c hc
          cases prev with
          | none => cases hc
          | some p =>
            obtain rfl : p = c := Option.some.inj hc
            exact hprev
        · intro c hc
          have hall : b.head?.all isSpace = true := hbehind
          rw [Option.mem_def.mp hc] at hall
          exact hall
      · refine ⟨d :: a, b, rfl, ?_, hb⟩
        intro c hc
        refine ha c ?_
        rwa [List.getLast?_append_of_ne_nil _ (List.cons_ne_nil d a)] at hc
    · rintro ⟨a, b, hs, ha, hb⟩
      cases a with
      | nil =>
        left
        rw [List.nil_append] at hs
        rw [hs]
        refine ⟨⟨?_, List.isPrefixOf_iff_prefix.mpr ⟨b, rfl⟩⟩, ?_⟩
        · cases prev with
          | none => rfl
          | some p => exact ha p rfl
        · show b.head?.all isSpace = true
          cases hhead : b.head? with
          | none => rfl
          | some c => exact hb c hhead
      | cons e a =>
        right
        obtain ⟨rfl, rfl⟩ := List.cons.inj hs
        refine ⟨a, b, rfl, ?_, hb⟩
        intro c hc
        refine ha c ?_
        rwa [List.getLast?_append_of_ne_nil _ (List.cons_ne_nil d a)]

theorem makeInvocation_iff {s : Str} : makeInvocation none s = true ↔ Stands isOpening isSpace (str "make") s :=
  makeInvocation_iff_from

theorem isSpace_of_make {c : Char} (hc : c ∈ str "make") : isSpace c = false := by
  have hall : (str "make").all (fun c => !isSpace c) = true := rfl
  have h := List.all_eq_true.mp hall c hc
  rwa [Bool.not_eq_true'] at h

theorem stands_of_isMakeWord {s w : Str} (hw : w ∈ splitWords s) (h : IsMakeWord w) :
    Stands isOpening isSpace (str "make") s := by
  obtain ⟨-, -, hstands⟩ := mem_splitWords_iff.mp hw
  rcases h with rfl | ⟨u, c, rfl, hc⟩
  · refine hstands.mono ?_ fun _ h => h
    intro c hc
    rw [isOpening, hc, Bool.true_or]
  · obtain ⟨a, b, rfl, ha, hb⟩ := hstands
    refine ⟨a ++ (u ++ [c]), b, by simp only [List.append_assoc, List.cons_append, List.nil_append], ?_, hb⟩
    intro d hd
    rw [← List.append_assoc, List.getLast?_concat] at hd
    rw [← Option.some.inj hd, isOpening, hc, Bool.or_true]

/-- The word of a make that the classifier sees. -/
theorem exists_isMakeWord {s : Str} (h : Stands isOpening isSpace (str "make") s) :
    ∃ w ∈ splitWords s, IsMakeWord w := by
  obtain ⟨a, b, rfl, ha, hb⟩ := h
  let u := a.rtakeWhile fun c => !isSpace c
  let front := a.rdropWhile fun c => !isSpace c
  have hau : front ++ u = a := List.rdropWhile_append_rtakeWhile
  have hu : ∀ c ∈ u, isSpace c = false := by
    intro c hc
    have hnot := List.mem_rtakeWhile_imp hc
    rwa [Bool.not_eq_true'] at hnot
  have hfront : ∀ c ∈ front.getLast?, isSpace c = true := by
    intro c hc
    have hne : front ≠ [] := by
      intro hnil
      rw [hnil] at hc
      cases hc
    have hlast := List.rdropWhile_last_not (fun c => !isSpace c) a hne
    rw [List.getLast?_eq_some_getLast hne] at hc
    rw [← Option.some.inj hc]
    simpa using hlast
  refine ⟨u ++ str "make", mem_splitWords_iff.mpr ⟨?_, ?_, front, b, ?_, hfront, hb⟩, ?_⟩
  · exact List.append_ne_nil_of_right_ne_nil _ (List.cons_ne_nil _ _)
  · rw [List.forall_mem_append]
    exact ⟨hu, fun _ => isSpace_of_make⟩
  · rw [List.append_assoc, ← List.append_assoc front, hau]
  · rcases List.eq_nil_or_concat u with hnil | ⟨u', c, hconcat⟩
    · rw [hnil]
      exact Or.inl rfl
    · rw [List.concat_eq_append] at hconcat
      rw [hconcat] at hu hau ⊢
      have hc : isOpening c = true := by
        refine ha c ?_
        rw [← hau, ← List.append_assoc, List.getLast?_concat]
        exact rfl
      rw [isOpening, hu c (List.mem_append_right _ List.mem_cons_self), Bool.false_or] at hc
      exact Or.inr ⟨u', c, by rw [List.append_assoc, List.singleton_append], hc⟩

theorem makeInvocation_iff_word {s : Str} :
    makeInvocation none s = true ↔ ∃ w ∈ splitWords s, IsMakeWord w := by
  rw [makeInvocation_iff]
  constructor
  · exact exists_isMakeWord
  · rintro ⟨w, hw, h⟩
    exact stands_of_isMakeWord hw h

/-! ## The tokeniser -/

/-- The tokeniser finds a make command. -/
def HasMakeCommand (run : Str) : Prop :=
  ∃ problems found, makeCommandLineProblems run = .ok (problems, found) ∧ 0 < found

def stepOf (run : Str) : Mapping := [(.str (str "run"), .ofStr run)]

def pathRun : Str := str "/usr/bin/make -i ci"

def pathJob : Mapping := [(.str (str "steps"), .list [.dict (stepOf pathRun)])]

theorem joinContinued_of_not_mem {s : Str} (h : '\\' ∉ s) : joinContinued false s = s := by
  induction s with
  | nil => rfl
  | cons c s ih =>
    rw [List.mem_cons, not_or] at h
    rw [joinContinued, Bool.false_and, if_neg Bool.false_ne_true, ih h.2]
    rintro t rfl
    exact absurd rfl h.1

theorem mem_of_splitCommands {current toks argv : List Str} (h : argv ∈ splitCommands current toks) {t : Str}
    (ht : t ∈ argv) : t ∈ current ∨ t ∈ toks := by
  have hcurrent : ∀ {current : List Str}, argv ∈ (if current.isEmpty then [] else [current]) → t ∈ current := by
    intro current h
    split_ifs at h
    · cases h
    · rwa [← List.mem_singleton.mp h]
  induction toks generalizing current with
  | nil => exact Or.inl (hcurrent h)
  | cons tok toks ih =>
    rw [splitCommands] at h
    by_cases hsep : shellSeparators.contains tok = true
    · rw [if_pos hsep] at h
      rcases List.mem_append.mp h with h | h
      · exact Or.inl (hcurrent h)
      · rcases ih h with hnil | hmem
        · cases hnil
        · exact Or.inr (List.mem_cons_of_mem _ hmem)
    · rw [if_neg hsep] at h
      rcases ih h with hmem | hmem
      · rcases List.mem_append.mp hmem with hmem | hmem
        · exact Or.inl hmem
        · rw [List.mem_singleton.mp hmem]
          exact Or.inr List.mem_cons_self
      · exact Or.inr (List.mem_cons_of_mem _ hmem)

/-- Where a token of a command comes from. -/
theorem exists_line_of_commands {run : Str} {cmds : List (List Str)} (h : commands run = .ok cmds) {argv : List Str}
    (hargv : argv ∈ cmds) {t : Str} (ht : t ∈ argv) :
    ∃ line ∈ splitLines (joinContinued false run), ∃ toks, shlex line = .ok toks ∧ t ∈ toks := by
  obtain ⟨parts, hparts, rfl⟩ := Report.fmap_eq_ok.mp h
  obtain ⟨part, hpart, hmem⟩ := List.mem_flatten.mp hargv
  obtain ⟨line, hline, hcmds⟩ := Report.forall₂_exists_right (Report.mapM_eq_ok.mp hparts) hpart
  refine ⟨line, (List.mem_filter.mp hline).1, ?_⟩
  unfold lineCommands at hcmds
  cases hlex : shlex line with
  | error e =>
    rw [hlex] at hcmds
    cases hcmds
  | ok toks =>
    rw [hlex] at hcmds
    rw [← Except.ok.inj hcmds] at hmem
    rcases mem_of_splitCommands hmem ht with hnil | htoks
    · cases hnil
    · exact ⟨toks, rfl, htoks⟩

/-- Without scripts in quotes the make commands are those that name make. -/
theorem exists_make_of_found {levels : Nat} {run : Str} {cmds : List (List Str)} {r : List LineProblem × Nat}
    (hcmds : commands run = .ok cmds) (hscript : ∀ argv ∈ cmds, ∀ t ∈ argv, isScript t = false)
    (h : problemsAt levels run = .ok r) (hfound : 0 < r.2) : ∃ argv ∈ cmds, ∃ t ∈ argv, isMakeCommand t = true := by
  obtain ⟨script, hrun⟩ : ∃ script, total <$> cmds.mapM (commandProblems script) = .ok r := by
    cases levels with
    | zero =>
      rw [problemsAt, hcmds] at h
      exact ⟨_, h⟩
    | succ levels =>
      rw [problemsAt, hcmds] at h
      exact ⟨_, h⟩
  obtain ⟨parts, hparts, rfl⟩ := Report.fmap_eq_ok.mp hrun
  obtain ⟨n, hn, hpos⟩ := List.sum_pos_iff_exists_pos_nat.mp hfound
  obtain ⟨part, hpart, rfl⟩ := List.mem_map.mp hn
  obtain ⟨argv, hargv, hproblems⟩ := Report.forall₂_exists_right (Report.mapM_eq_ok.mp hparts) hpart
  refine ⟨argv, hargv, ?_⟩
  unfold commandProblems at hproblems
  cases hfind : argv.findIdx? isMakeCommand with
  | none =>
    have hempty : argv.filter isScript = [] := by
      rw [List.filter_eq_nil_iff]
      intro t ht
      rw [hscript argv hargv t ht]
      exact Bool.false_ne_true
    rw [hfind, hempty] at hproblems
    rw [← Except.ok.inj hproblems] at hpos
    cases hpos
  | some makeAt =>
    obtain ⟨hlt, hmake, -⟩ := List.findIdx?_eq_some_iff_getElem.mp hfind
    exact ⟨_, List.getElem_mem hlt, hmake⟩

theorem mem_opt {r : Rx Char} {w : Str} : w ∈ (Rx.opt r).lang ↔ w = [] ∨ w ∈ r.lang := by
  rw [Rx.opt, Rx.mem_lang_alt]
  exact Iff.rfl

/-- A make command without a line feed is `make`, or it has `g` or `/` in front of it. -/
theorem exists_of_isMakeCommand {t : Str} (h : isMakeCommand t = true) (hline : '\n' ∉ t) :
    ∃ u, t = u ++ str "make" ∧ (u = [] ∨ ∃ c ∈ u.getLast?, c = 'g' ∨ c = '/') := by
  rw [isMakeCommand, Rx.accepts_iff, makeCommandRe] at h
  simp only [Rx.mem_lang_seq, mem_opt, Rx.mem_lang_char, Rx.mem_lang_text] at h
  obtain ⟨path, _, rfl, hpath, g, _, rfl, hg, _, last, rfl, rfl, hlast⟩ := h
  have hnil : last = [] := by
    rcases hlast with hlast | hlast
    · exact hlast
    · exfalso
      apply hline
      simp [hlast]
  refine ⟨path ++ g, by rw [hnil, List.append_nil, List.append_assoc], ?_⟩
  rcases hg with rfl | rfl
  · rw [List.append_nil]
    rcases hpath with rfl | ⟨dir, _, rfl, -, rfl⟩
    · exact Or.inl rfl
    · exact Or.inr ⟨'/', List.getLast?_concat, Or.inr rfl⟩
  · exact Or.inr ⟨'g', List.getLast?_concat, Or.inl rfl⟩

/-- The edges of a token of a line. -/
def isRunEdge (c : Char) : Bool := isLexEdge c || isLineEnd c

theorem isSpace_of_isLexSpace {c : Char} (h : isLexSpace c = true) : isSpace c = true := by
  have hall : (str " \t\r\n").all isSpace = true := rfl
  exact List.all_eq_true.mp hall c (List.contains_iff_mem.mp h)

theorem isSpace_of_isRunEdge {c : Char} (h : isRunEdge c = true) (hpunct : isPunctuation c = false) :
    isSpace c = true := by
  rw [isRunEdge, isLexEdge, hpunct, Bool.or_false, Bool.or_eq_true] at h
  rcases h with h | h
  · exact isSpace_of_isLexSpace h
  · exact isSpace_of_isLineEnd h

/-- In front of no `make` is one of `g/)<>`, and behind none is punctuation. -/
def IsSpelledOut (run : Str) : Prop :=
  ∀ a b, run = a ++ (str "make" ++ b) →
    (∀ c ∈ a.getLast?, (str "g/)<>").contains c = false) ∧ ∀ c ∈ b.head?, isPunctuation c = false

theorem isOpening_of_isRunEdge {c : Char} (h : isRunEdge c = true) (hnot : (str "g/)<>").contains c = false) :
    isOpening c = true := by
  by_cases hpunct : isPunctuation c = true
  · have hall : (str "();<>|&").all (fun c => (str "g/)<>").contains c || isOpening c) = true := rfl
    have hc := List.all_eq_true.mp hall c (List.contains_iff_mem.mp hpunct)
    rwa [hnot, Bool.false_or] at hc
  · rw [Bool.not_eq_true] at hpunct
    rw [isOpening, isSpace_of_isRunEdge h hpunct, Bool.true_or]

/-- In a run without quotes, escapes and comments in which every `make` is spelled out the classifier covers the
tokeniser. -/
theorem makeInvocation_of_isSpelledOut {run : Str} (hrun : ∀ c ∈ run, isUnquoted c = true)
    (hspelled : IsSpelledOut run) (h : HasMakeCommand run) : makeInvocation none run = true := by
  obtain ⟨problems, found, hproblems, hfound⟩ := h
  obtain ⟨cmds, hcmds, -⟩ : ∃ cmds, commands run = .ok cmds ∧ _ := Report.bind_eq_ok.mp hproblems
  have hjoin : joinContinued false run = run := by
    refine joinContinued_of_not_mem fun hmem => ?_
    cases hrun '\\' hmem
  have htoken : ∀ argv ∈ cmds, ∀ t ∈ argv, ∃ line, IsToken t line ∧ Stands isLineEnd isLineEnd line run := by
    intro argv hargv t ht
    obtain ⟨line, hline, toks, hlex, htoks⟩ := exists_line_of_commands hcmds hargv ht
    rw [hjoin] at hline
    have hstands := stands_of_mem_splitLines hline
    refine ⟨line, isToken_of_mem_shlex ?_ hlex htoks, hstands⟩
    obtain ⟨a, b, rfl, -, -⟩ := hstands
    intro c hc
    exact hrun c (List.mem_append_right _ (List.mem_append_left _ hc))
  have hspaces : ∀ argv ∈ cmds, ∀ t ∈ argv, ∀ c ∈ t, isLexSpace c = false := by
    intro argv hargv t ht c hc
    obtain ⟨line, hpunct | ⟨hword, -⟩, -⟩ := htoken argv hargv t ht
    · have hall : (str "();<>|&").all (fun c => !isLexSpace c) = true := rfl
      have hnot := List.all_eq_true.mp hall c (List.contains_iff_mem.mp (hpunct c hc))
      rwa [Bool.not_eq_true'] at hnot
    · have hedge := hword c hc
      rw [isLexEdge, Bool.or_eq_false_iff] at hedge
      exact hedge.1
  have hscript : ∀ argv ∈ cmds, ∀ t ∈ argv, isScript t = false := by
    intro argv hargv t ht
    have hnone : ∀ c, isLexSpace c = true → t.contains c = false := by
      intro c hc
      rw [← Bool.not_eq_true, List.contains_iff_mem]
      intro hmem
      rw [hspaces argv hargv t ht c hmem] at hc
      cases hc
    rw [isScript, hnone ' ' rfl, hnone '\n' rfl]
    rfl
  obtain ⟨argv, hargv, t, ht, hmake⟩ := exists_make_of_found hcmds hscript hproblems hfound
  have hline : '\n' ∉ t := by
    intro hmem
    cases hspaces argv hargv t ht '\n' hmem
  obtain ⟨u, rfl, hu⟩ := exists_of_isMakeCommand hmake hline
  obtain ⟨line, hpunct | ⟨hword, hstands⟩, hrunline⟩ := htoken argv hargv _ ht
  · cases hpunct 'm' (List.mem_append_right _ List.mem_cons_self)
  · have hlex : ∀ c, isLexEdge c = true → isRunEdge c = true := by
      intro c hc
      rw [isRunEdge, hc, Bool.true_or]
    have hend : ∀ c, isLineEnd c = true → isRunEdge c = true := by
      intro c hc
      rw [isRunEdge, hc, Bool.or_true]
    obtain ⟨a, b, hab, ha, hb⟩ := (hstands.mono hlex hlex).trans (hrunline.mono hend hend)
    rw [List.append_assoc, ← List.append_assoc] at hab
    obtain ⟨hfront, hbehind⟩ := hspelled _ _ hab
    rcases hu with rfl | ⟨c, hc, hname⟩
    · rw [List.append_nil] at hab hfront
      refine makeInvocation_iff.mpr ⟨a, b, hab, ?_, ?_⟩
      · exact fun c hc => isOpening_of_isRunEdge (ha c hc) (hfront c hc)
      · exact fun c hc => isSpace_of_isRunEdge (hb c hc) (hbehind c hc)
    · exfalso
      have hne : u ≠ [] := by
        rintro rfl
        cases hc
      rw [List.getLast?_append_of_ne_nil _ hne] at hfront
      have hnot := hfront c hc
      rcases hname with rfl | rfl
      · cases hnot
      · cases hnot

end Vizra.CiGuard
