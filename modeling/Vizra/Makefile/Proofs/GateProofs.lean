import Vizra.Makefile.Proofs.RecipesProofs
import Vizra.Makefile.Recipes

/-!
# The gate closure

The grammar, the closure and the search for definitions read the rule lines with expressions of their own. On an
accepted text they agree: the closure is what can be reached through the rules that the grammar recognises, and the
recipe of every rule of the closure is examined under its target.
-/

namespace Vizra.Makefile

open Py Relation

variable {isFormat : Char → Bool} {text : Str}

/-! ## The text of a rule -/

theorem mem_splitOnP {p : Char → Bool} {s : Str} {c : Char} (hc : c ∈ s) :
    p c = true ∨ ∃ w ∈ s.splitOnP p, c ∈ w := by
  induction s with
  | nil => cases hc
  | cons d s ih =>
    rw [List.splitOnP_cons_eq_if_modifyHead]
    by_cases hd : p d = true
    · rw [if_pos hd]
      rcases List.mem_cons.mp hc with rfl | hc
      · exact Or.inl hd
      · rcases ih hc with h | ⟨w, hw, hcw⟩
        · exact Or.inl h
        · exact Or.inr ⟨w, List.mem_cons_of_mem _ hw, hcw⟩
    · rw [if_neg hd]
      cases hsplit : s.splitOnP p with
      | nil => exact absurd hsplit (List.splitOnP_ne_nil p s)
      | cons w ws =>
        rw [hsplit] at ih
        rw [List.modifyHead_cons]
        rcases List.mem_cons.mp hc with rfl | hc
        · exact Or.inr ⟨_, List.mem_cons_self, List.mem_cons_self⟩
        · rcases ih hc with h | ⟨v, hv, hcv⟩
          · exact Or.inl h
          · rcases List.mem_cons.mp hv with rfl | hv
            · exact Or.inr ⟨_, List.mem_cons_self, List.mem_cons_of_mem _ hcv⟩
            · exact Or.inr ⟨v, List.mem_cons_of_mem _ hv, hcv⟩

theorem splitOnP_congr {p q : Char → Bool} {s : Str} (h : ∀ c ∈ s, p c = q c) : s.splitOnP p = s.splitOnP q := by
  induction s with
  | nil => rfl
  | cons c s ih =>
    rw [List.splitOnP_cons_eq_if_modifyHead, List.splitOnP_cons_eq_if_modifyHead, h c List.mem_cons_self,
      ih fun d hd => h d (List.mem_cons_of_mem _ hd)]

/-- The prerequisites of an accepted rule: blanks and words. -/
theorem blankWords_eq_some {rest : Str} {words : List Str} (h : blankWords rest = some words) :
    (∀ c ∈ rest.head?, isBlank c = true) ∧ (∀ c ∈ rest, isBlank c = true ∨ isWordChar c = true) ∧
      splitWords rest = words ∧ ∀ w ∈ words, isWord w = true := by
  simp only [blankWords] at h
  split_ifs at h with hok
  rw [Bool.and_eq_true, List.all_eq_true] at hok
  obtain rfl := Option.some.inj h
  have hchars : ∀ c ∈ rest, isBlank c = true ∨ isWordChar c = true := by
    intro c hc
    rcases @mem_splitOnP isBlank rest c hc with hblank | ⟨w, hw, hcw⟩
    · exact Or.inl hblank
    · right
      have hne : (!w.isEmpty) = true := by
        rw [Bool.not_eq_true', List.isEmpty_eq_false_iff]
        exact List.ne_nil_of_mem hcw
      exact all_of_isWord (hok.2 w (List.mem_filter.mpr ⟨hw, hne⟩)) c hcw
  refine ⟨?_, hchars, ?_, hok.2⟩
  · intro c hc
    have hhead := hok.1
    rwa [Option.mem_def.mp hc] at hhead
  · rw [splitWords]
    congr 1
    refine splitOnP_congr fun c hc => ?_
    rcases hchars c hc with hblank | hword
    · rw [isSpace_of_isBlank hblank, hblank]
    · have hspace := isSpace_of_isLeadChar (isLeadChar_of_isWordChar hword)
      rw [hspace]
      by_contra hblank
      rw [eq_comm, Bool.not_eq_false] at hblank
      rw [isSpace_of_isBlank hblank] at hspace
      cases hspace

/-- A character that is in no rule. -/
theorem not_mem_of_rule {body name : Str} {words : List Str} (h : matchRule body = some (name, words)) {c : Char}
    (hblank : isBlank c = false) (hword : isWordChar c = false) (hcolon : c ≠ ':') : c ∉ body := by
  obtain ⟨hname, blanks, rest, rfl, hblanks, hwords⟩ := matchRule_eq_some h
  intro hc
  rcases List.mem_append.mp hc with hc | hc
  · rw [all_of_isWord hname c hc] at hword
    cases hword
  · rcases List.mem_append.mp hc with hc | hc
    · rw [hblanks c hc] at hblank
      cases hblank
    · rcases List.mem_cons.mp hc with hc | hc
      · exact hcolon hc
      · rcases (blankWords_eq_some hwords).2.1 c hc with hc | hc
        · rw [hc] at hblank
          cases hblank
        · rw [hc] at hword
          cases hword

/-! ## The closure -/

/-- `RULE_RE` on a text whose first `#`, `=` or `:` is `d`. -/
theorem matchRuleRe_append {s t : Str} {d : Char} (hs : ∀ c ∈ s, (!(c == '#' || c == '=' || c == ':')) = true)
    (hd : (!(d == '#' || d == '=' || d == ':')) = false) :
    matchRuleRe (s ++ d :: t) =
      if d = ':' ∧ s.head?.any (· != '\t') = true ∧ '=' ∉ t then some (s, t) else none := by
  have htake : (s ++ d :: t).takeWhile (fun c => !(c == '#' || c == '=' || c == ':')) = s := by
    refine takeWhile_eq_of_append hs ?_
    intro c hc
    cases hc
    exact hd
  rw [matchRuleRe]
  simp only [htake, List.drop_left]
  by_cases hcolon : d = ':'
  · subst hcolon
    simp only [Bool.and_eq_true, Bool.not_eq_true', List.contains_eq_mem, decide_eq_false_iff_not, true_and]
  · rw [if_neg fun h => hcolon h.1]
    split
    · rename_i heq
      exact absurd (List.cons.inj heq).1 hcolon
    · rfl

theorem plain_of_lead {name blanks : Str} (hname : ∀ c ∈ name, isLeadChar c = true)
    (hblanks : ∀ c ∈ blanks, isBlank c = true) :
    ∀ c ∈ name ++ blanks, (!(c == '#' || c == '=' || c == ':')) = true := by
  intro c hc
  rcases List.mem_append.mp hc with hc | hc
  · exact plain_of_isLeadChar (hname c hc)
  · rcases eq_of_isBlank (hblanks c hc) with rfl | rfl
    · rfl
    · rfl

/-- An assignment is no rule to the closure. -/
theorem matchRuleRe_of_assign {code name value : Str} {op : AssignOp}
    (h : matchGAssign code = some (name, op, value)) : matchRuleRe code = none := by
  obtain ⟨blanks, rfl, hblanks⟩ := matchGAssign_eq_some h
  have hplain := plain_of_lead (leadChars_of_leadOfOperator (lead_of_matchGAssign h)) hblanks
  rw [List.append_assoc]
  cases op with
  | simple =>
    show matchRuleRe (name ++ blanks ++ ':' :: '=' :: value) = none
    rw [matchRuleRe_append hplain rfl]
    exact if_neg fun hrule => hrule.2.2 List.mem_cons_self
  | conditional =>
    have hsplit : name ++ blanks ++ (str "?=" ++ value) = (name ++ blanks ++ ['?']) ++ '=' :: value := by
      simp [str]
    show matchRuleRe (name ++ blanks ++ (str "?=" ++ value)) = none
    rw [hsplit, matchRuleRe_append ?_ rfl]
    · exact if_neg fun hrule => absurd hrule.1 (by decide)
    · intro c hc
      rcases List.mem_append.mp hc with hc | hc
      · exact hplain c hc
      · rw [List.mem_singleton.mp hc]
        rfl
  | recursive =>
    show matchRuleRe (name ++ blanks ++ '=' :: value) = none
    rw [matchRuleRe_append hplain rfl]
    exact if_neg fun hrule => absurd hrule.1 (by decide)

theorem splitWords_name {name blanks : Str} (hne : name ≠ []) (hname : ∀ c ∈ name, isLeadChar c = true)
    (hblanks : ∀ c ∈ blanks, isBlank c = true) : splitWords (name ++ blanks) = [name] := by
  rw [splitWords_append_spaces fun c hc => isSpace_of_isBlank (hblanks c hc)]
  exact splitWords_of_word (fun c hc => isSpace_of_isLeadChar (hname c hc)) hne

theorem linePrereqs_of_phony {rec : LogicalLine} {names : List Str} (hcode : matchPhony rec.code = some names)
    (t : Str) : linePrereqs t rec = [] := by
  obtain ⟨blanks, rest, hbody, hblanks, -⟩ := matchPhony_eq_some hcode
  have hname : ∀ c ∈ str ".PHONY", isLeadChar c = true := List.all_iff_forall_prop.mp (by decide)
  unfold linePrereqs
  rw [hbody, ← List.append_assoc, matchRuleRe_append (plain_of_lead hname hblanks) rfl]
  split_ifs
  · rfl
  · simp only [splitWords_name (by decide) hname hblanks, List.flatMap_singleton]
    rfl
  · rfl

theorem linePrereqs_of_rule {rec : LogicalLine} {name : Str} {words : List Str} (htab : rec.tab = false)
    (hcode : matchRule rec.code = some (name, words)) (t : Str) :
    linePrereqs t rec = if name = t then words else [] := by
  obtain ⟨hname, blanks, rest, hbody, hblanks, hwords⟩ := matchRule_eq_some hcode
  obtain ⟨-, hchars, hsplit, hword⟩ := blankWords_eq_some hwords
  obtain ⟨c, cs, hcons, hstart⟩ := head_of_isWord hname
  have hne : name ≠ [] := by
    rw [hcons]
    exact List.cons_ne_nil _ _
  have hall : ∀ c ∈ name, isWordChar c = true := all_of_isWord hname
  have hlead : ∀ c ∈ name, isLeadChar c = true := fun c hc => isLeadChar_of_isWordChar (hall c hc)
  have habsent : ∀ c, isBlank c = false → isWordChar c = false → c ∉ rest := by
    intro c hblank hword hc
    rcases hchars c hc with h | h
    · rw [h] at hblank
      cases hblank
    · rw [h] at hword
      cases hword
  have hhead : (name ++ blanks).head?.any (· != '\t') = true := by
    rw [hcons]
    show (c != '\t') = true
    rw [bne_iff_ne]
    rintro rfl
    cases hstart
  have hmatch := @matchRuleRe_append (name ++ blanks) rest ':' (plain_of_lead hlead hblanks) rfl
  rw [if_pos ⟨rfl, hhead, habsent '=' rfl rfl⟩, List.append_assoc] at hmatch
  have hspecial : (name.head? == some '.' || name.contains '%') = false := by
    rw [Bool.or_eq_false_iff, hcons]
    constructor
    · rw [beq_eq_false_iff_ne]
      rintro h
      cases h
      cases hstart
    · rw [← hcons, List.contains_eq_mem, decide_eq_false_iff_not]
      intro hmem
      cases hall '%' hmem
  have hdeps : (prerequisiteWords rest).filter (fun d => d.head? != some '$') = words := by
    have hcut : rest.takeWhile (· != ';') = rest := by
      rw [List.takeWhile_eq_self_iff]
      intro c hc
      rw [bne_iff_ne]
      rintro rfl
      exact habsent ';' rfl rfl hc
    have hbar : replaceChar '|' ' ' rest = rest := by
      rw [replaceChar]
      conv => rhs; rw [← List.map_id rest]
      refine List.map_congr_left fun c hc => if_neg ?_
      rintro rfl
      exact habsent '|' rfl rfl hc
    rw [prerequisiteWords, hcut, hbar, hsplit, List.filter_eq_self]
    intro w hw
    obtain ⟨c, cs, rfl, hstart⟩ := head_of_isWord (hword w hw)
    rw [bne_iff_ne]
    rintro h
    cases h
    cases hstart
  rw [linePrereqs, htab, hbody, hmatch]
  simp only [splitWords_name hne hlead hblanks, List.flatMap_singleton, hspecial, hdeps, Bool.false_eq_true, if_false,
    beq_iff_eq]

/-- What a line of an accepted text adds to the prerequisites of a target. -/
theorem linePrereqs_of_accepted {inRule : Bool} {rec : LogicalLine} (hline : (lineProblems isFormat inRule rec).1 = [])
    (hrec : rec ∈ makefileLines text) (t : Str) :
    linePrereqs t rec = ((ruleOf rec).filter fun rule => rule.1 == t).elim [] Prod.snd := by
  have haccepted := accepted_of_lineProblems hline
  generalize (lineProblems isFormat inRule rec).2 = after at haccepted
  cases haccepted with
  | recipe htab =>
    rw [ruleOf_of_keeps (Or.inl htab), linePrereqs, if_pos htab]
    rfl
  | keepsOpen hkeeps =>
    rw [ruleOf_of_keeps (Or.inr hkeeps), linePrereqs, code_of_keepsRuleOpen hrec hkeeps]
    split_ifs <;> rfl
  | assign htab hkeeps hlead hcode =>
    rw [ruleOf_of_assign hcode, linePrereqs, htab, matchRuleRe_of_assign hcode]
    rfl
  | phony htab hkeeps hlead hassign hcode hone =>
    rw [ruleOf_of_phony hcode, linePrereqs_of_phony hcode]
    rfl
  | @rule _ name words htab hkeeps hlead hassign hphony hcode hone =>
    rw [ruleOf_of_rule htab hkeeps hassign hphony, hcode, linePrereqs_of_rule htab hcode, Option.filter_some]
    by_cases hname : name = t
    · rw [if_pos hname, if_pos (beq_iff_eq.mpr hname)]
      rfl
    · rw [if_neg hname, if_neg (by simpa using hname)]
      rfl

/-- The target `t` has the prerequisite `d` in a rule line that the grammar recognises. -/
def Prerequisite (lines : List LogicalLine) (t d : Str) : Prop :=
  ∃ rec ∈ lines, ∃ words, ruleOf rec = some (t, words) ∧ d ∈ words

theorem mem_prereqs_iff (hok : grammarProblems isFormat text = []) {t d : Str} :
    d ∈ prereqs (makefileLines text) t ↔ Prerequisite (makefileLines text) t d := by
  rw [prereqs, List.mem_flatMap, Prerequisite]
  refine exists_congr fun rec => and_congr_right fun hrec => ?_
  obtain ⟨inRule, hline⟩ := line_accepted hok hrec
  rw [linePrereqs_of_accepted hline hrec]
  cases hrule : ruleOf rec with
  | none =>
    constructor
    · intro h
      cases h
    · rintro ⟨words, h, -⟩
      cases h
  | some rule =>
    obtain ⟨name, words⟩ := rule
    rw [Option.filter_some]
    by_cases hname : name = t
    · subst hname
      rw [if_pos (beq_self_eq_true name)]
      constructor
      · intro h
        exact ⟨words, rfl, h⟩
      · rintro ⟨words', heq, h⟩
        cases heq
        exact h
    · rw [if_neg (by simpa using hname)]
      constructor
      · intro h
        cases h
      · rintro ⟨words', heq, -⟩
        cases heq
        exact absurd rfl hname

/-- The targets that have a rule. -/
def ruleNames (lines : List LogicalLine) : List Str := lines.filterMap fun rec => (ruleOf rec).map Prod.fst

theorem prereqs_eq_nil (hok : grammarProblems isFormat text = []) {t : Str}
    (ht : t ∉ ruleNames (makefileLines text)) : prereqs (makefileLines text) t = [] := by
  rw [List.eq_nil_iff_forall_not_mem]
  intro d hd
  obtain ⟨rec, hrec, words, hrule, -⟩ := (mem_prereqs_iff hok).mp hd
  apply ht
  rw [ruleNames, List.mem_filterMap]
  exact ⟨rec, hrec, by rw [hrule]; rfl⟩

/-- The closure is computed in some number of rounds, and holds each target that can be reached once. -/
theorem prerequisiteClosure_eq (hok : grammarProblems isFormat text = []) (seeds : List Str) :
    ∃ closure rounds, (∀ n, rounds ≤ n → prerequisiteClosure n (makefileLines text) seeds = some closure) ∧
      closure.Nodup ∧
      ∀ t, t ∈ closure ↔ ∃ seed ∈ seeds, ReflTransGen (Prerequisite (makefileLines text)) seed t := by
  have hnodes : ∀ t, t ∉ ruleNames (makefileLines text) → prereqs (makefileLines text) t = [] :=
    fun t ht => prereqs_eq_nil hok ht
  have hrel : (fun a b => b ∈ prereqs (makefileLines text) a) = Prerequisite (makefileLines text) := by
    funext a b
    exact propext (mem_prereqs_iff hok)
  refine ⟨Worklist.reach (prereqs (makefileLines text)) (ruleNames (makefileLines text)) seeds, _,
    fun n hn => Worklist.run_eq_reach hnodes hn, Worklist.nodup_reach, fun t => ?_⟩
  rw [Worklist.mem_reach_iff hnodes, hrel]

/-! ## The definitions -/

theorem definesTarget_of_rule {code name : Str} {words : List Str} (h : matchRule code = some (name, words)) :
    definesTarget name code = true := by
  obtain ⟨hname, blanks, rest, rfl, hblanks, hwords⟩ := matchRule_eq_some h
  have hbehind : (blanks ++ ':' :: rest).dropWhile isSpace = ':' :: rest := by
    refine dropWhile_eq_of_append (fun c hc => isSpace_of_isBlank (hblanks c hc)) fun c hc => ?_
    cases hc
    rfl
  rw [definesTarget, Bool.and_eq_true, List.drop_left, hbehind]
  refine ⟨List.isPrefixOf_iff_prefix.mpr (List.prefix_append _ _), ?_⟩
  show (rest.head? != some '=') = true
  rw [bne_iff_ne]
  intro hhead
  have hblank := (blankWords_eq_some hwords).1 '=' hhead
  cases hblank

/-- A rule line is no assignment of a name that is controlled: it has no `=`. -/
theorem not_assignment_of_rule {code name : Str} {words : List Str} (h : matchRule code = some (name, words)) :
    assignmentRe.accepts code = false := by
  by_contra hmatch
  rw [Bool.not_eq_false, Regex.Rx.accepts_iff] at hmatch
  have habsent : '=' ∉ code := not_mem_of_rule h rfl rfl (by decide)
  apply habsent
  unfold assignmentRe at hmatch
  simp only [Regex.Rx.mem_lang_seq] at hmatch
  obtain ⟨_, _, rfl, -, _, _, rfl, -, _, _, rfl, -, _, _, rfl, -, _, _, rfl, -, _, _, rfl, heq, -⟩ := hmatch
  rw [Regex.Rx.mem_lang_char.mp heq]
  simp

theorem exists_definition {targets : List Str} {t : Str} (ht : t ∈ targets) {lines : List LogicalLine} {j : Nat}
    {r : LogicalLine} (hr : lines[j]? = some r) (htab : r.tab = false) (hassign : assignmentRe.accepts r.code = false)
    (hdefines : definesTarget t r.code = true) (depth : Nat) :
    ∃ d ∈ definitionsFrom targets depth lines, d.target = t ∧ d.recipe = recipeLines (lines.drop (j + 1)) := by
  induction lines generalizing j depth with
  | nil => cases hr
  | cons rec lines ih =>
    rw [definitionsFrom]
    cases j with
    | zero =>
      obtain rfl := Option.some.inj hr
      rw [htab, hassign]
      refine ⟨_, List.mem_append_left _ (List.mem_map.mpr ⟨t, List.mem_filter.mpr ⟨ht, hdefines⟩, rfl⟩), rfl, rfl⟩
    | succ j =>
      obtain ⟨d, hd, htarget, hrecipe⟩ := ih hr (conditionalDepth depth rec)
      exact ⟨d, List.mem_append_right _ hd, htarget, hrecipe⟩

/-- The recipe lines of a rule of a target are examined under that target. -/
theorem gateLine_of_rule {targets : List Str} {t : Str} (ht : t ∈ targets) {lines : List LogicalLine} {j : Nat}
    {r : LogicalLine} (hr : lines[j]? = some r) {words : List Str} (hrule : ruleOf r = some (t, words))
    {line : Nat × Str} (hline : line ∈ recipeLines (lines.drop (j + 1))) :
    ⟨line.1, t, line.2⟩ ∈ gateRecipeLines (checkTextDefinitions targets lines) := by
  have hkeeps : ¬ Keeps r := not_keeps_of_ruleOf (by rw [hrule]; rfl)
  have hcode : matchRule r.code = some (t, words) := by
    unfold ruleOf at hrule
    split_ifs at hrule
    exact hrule
  have htab : r.tab = false := by
    rw [← Bool.not_eq_true]
    exact fun h => hkeeps (Or.inl h)
  obtain ⟨d, hd, rfl, hrecipe⟩ :=
    exists_definition ht hr htab (not_assignment_of_rule hcode) (definesTarget_of_rule hcode) 0
  rw [gateRecipeLines, List.mem_flatMap]
  refine ⟨d, hd, List.mem_map.mpr ⟨line, ?_, rfl⟩⟩
  rw [hrecipe]
  exact hline

/-! ## The readers agree -/

/-- On an accepted text: the segments of the lines are the physical lines, and a line has the number of its first one;
the closure of some seeds is computed and holds each target that can be reached through the rules once; a TAB line is
in the recipe of one rule line, the one that is open there; and the recipe lines of every target of the closure are
examined under that target. -/
theorem recipes_attributed (hok : grammarProblems isFormat text = []) (seeds : List Str) :
    ((makefileLines text).flatMap LogicalLine.segments = text.splitOn '\n' ∧
      ∀ k rec, (makefileLines text)[k]? = some rec →
        rec.n = (((makefileLines text).take k).flatMap LogicalLine.segments).length + 1) ∧
    (∃ closure rounds, (∀ n, rounds ≤ n → prerequisiteClosure n (makefileLines text) seeds = some closure) ∧
      closure.Nodup ∧
      (∀ t, t ∈ closure ↔ ∃ seed ∈ seeds, ReflTransGen (Prerequisite (makefileLines text)) seed t) ∧
      ∀ t ∈ closure, ∀ j r words, (makefileLines text)[j]? = some r → ruleOf r = some (t, words) →
        ∀ line ∈ recipeLines ((makefileLines text).drop (j + 1)),
          ⟨line.1, t, line.2⟩ ∈ gateRecipeLines (checkTextDefinitions closure (makefileLines text))) ∧
    ∀ k rec, (makefileLines text)[k]? = some rec → rec.tab = true →
      ∃ i, openAt isFormat (makefileLines text) k = some i ∧
        ∀ j, ((∃ r, (makefileLines text)[j]? = some r ∧ (ruleOf r).isSome = true) ∧
            (rec.n, strip (rec.raw.drop 1)) ∈ recipeLines ((makefileLines text).drop (j + 1))) ↔ j = i := by
  refine ⟨⟨segments_makefileLines text, fun k rec hrec => n_makefileLines hrec⟩, ?_, ?_⟩
  · obtain ⟨closure, rounds, hrounds, hnodup, hmem⟩ := prerequisiteClosure_eq hok seeds
    refine ⟨closure, rounds, hrounds, hnodup, hmem, ?_⟩
    intro t ht j r words hr hrule line hline
    exact gateLine_of_rule ht hr hrule hline
  · intro k rec hrec htab
    exact recipe_of_openAt hok hrec htab

/-- Two targets that depend on each other, one with a comment in its recipe. -/
def cycleText : Str := str "ci: test\n\ntest: ci\n\tgo vet\n# and\n\tgo test\n"

theorem recipes_attributed_cycle :
    grammarProblems (fun _ => false) cycleText = [] ∧
      ∃ closure rounds,
        (∀ n, rounds ≤ n → prerequisiteClosure n (makefileLines cycleText) [str "ci"] = some closure) ∧
          ∀ t, t ∈ closure ↔
            ∃ seed ∈ [str "ci"], ReflTransGen (Prerequisite (makefileLines cycleText)) seed t := by
  have hok : grammarProblems (fun _ => false) cycleText = [] := by decide +kernel
  obtain ⟨-, ⟨closure, rounds, hrounds, -, hmem, -⟩, -⟩ := recipes_attributed hok [str "ci"]
  exact ⟨hok, closure, rounds, hrounds, hmem⟩

end Vizra.Makefile
