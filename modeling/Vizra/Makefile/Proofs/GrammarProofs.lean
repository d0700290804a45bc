import Mathlib.Data.Bool.AllAny
import Vizra.Makefile.Grammar

/-!
# Accepted lines

What a line is that the grammar accepts: a recipe line, a line that keeps a rule open, or one whose code is an
assignment, a `.PHONY` or a rule, and never one that starts with a keyword in front of an operator.
-/

namespace Vizra.Makefile

open Py

variable {isFormat : Char → Bool} {text : Str}
variable {rec : LogicalLine} {inRule : Bool} {c : Char} {body name : Str}

/-! ## Lines -/

theorem stripComment_isPrefix (depth : Nat) (s : Str) : (stripComment depth s).1 <+: s := by
  induction depth, s using stripComment.induct with
  | case1 => exact List.prefix_rfl
  | case2 depth c s ih =>
    rw [stripComment]
    exact List.cons_prefix_cons.mpr ⟨rfl, List.cons_prefix_cons.mpr ⟨rfl, ih⟩⟩
  | case3 depth s ih =>
    rw [stripComment]
    exact List.cons_prefix_cons.mpr ⟨rfl, List.cons_prefix_cons.mpr ⟨rfl, ih⟩⟩
  | case4 depth s ih =>
    rw [stripComment]
    exact List.cons_prefix_cons.mpr ⟨rfl, List.cons_prefix_cons.mpr ⟨rfl, ih⟩⟩
  | case5 depth c s h1 h2 h3 hc =>
    rw [stripComment, if_pos hc]
    · exact List.nil_prefix
    all_goals assumption
  | case6 depth c s h1 h2 h3 hc closes ih =>
    rw [stripComment, if_neg hc]
    · exact List.cons_prefix_cons.mpr ⟨rfl, ih⟩
    all_goals assumption

/-- What holds of a line that starts and is kept when it is joined with the next holds of every line that is read. -/
theorem exists_joined {P : Joined → Prop} (hstart : ∀ n line, P (.start n line))
    (hextend : ∀ j nxt, continued j.last = true → P j → P (j.extend nxt)) (h : rec ∈ makefileLines text) :
    ∃ j : Joined, P j ∧ rec = j.close := by
  have hfrom : ∀ (phys : List Str) (n : Nat) (j : Joined), P j → rec ∈ linesFrom n j phys →
      ∃ j : Joined, P j ∧ rec = j.close := by
    intro phys
    induction phys with
    | nil =>
      intro n j hj hmem
      exact ⟨j, hj, List.mem_singleton.mp hmem⟩
    | cons line phys ih =>
      intro n j hj hmem
      rw [linesFrom] at hmem
      split at hmem
      · rename_i hcontinued
        exact ih _ _ (hextend j line hcontinued hj) hmem
      · rcases List.mem_cons.mp hmem with rfl | hmem
        · exact ⟨j, hj, rfl⟩
        · exact ih _ _ (hstart n line) hmem
  rw [makefileLines] at h
  split at h
  · cases h
  · exact hfrom _ _ _ (hstart 1 _) h

/-- The code of a line that is read starts the line. -/
theorem code_isPrefix (h : rec ∈ makefileLines text) : rec.code <+: rec.raw := by
  obtain ⟨j, -, rfl⟩ := exists_joined (P := fun _ => True) (fun _ _ => trivial) (fun _ _ _ _ => trivial) h
  rw [Joined.close]
  split
  · exact List.prefix_rfl
  · exact stripComment_isPrefix 0 j.raw

/-- What is read of a line stands in its physical lines, or is a blank that joins two of them. -/
theorem mem_raw (h : rec ∈ makefileLines text) : ∀ c ∈ rec.raw, c = ' ' ∨ ∃ segment ∈ rec.segments, c ∈ segment := by
  have hjoined := exists_joined (P := fun j => ∀ c ∈ j.raw, c = ' ' ∨ ∃ segment ∈ j.segments, c ∈ segment) ?_ ?_ h
  · obtain ⟨j, hj, rfl⟩ := hjoined
    rw [Joined.close]
    split
    · exact hj
    · exact hj
  · intro n line c hc
    exact Or.inr ⟨line, List.mem_singleton_self line, hc⟩
  · intro j nxt _ hj c hc
    have hparts : c ∈ j.raw.dropLast ++ [' '] ∨ c ∈ continuation j.tab nxt := List.mem_append.mp hc
    rcases hparts with hc | hc
    · rcases List.mem_append.mp hc with hc | hc
      · rcases hj c (List.mem_of_mem_dropLast hc) with hblank | ⟨segment, hsegment, hc⟩
        · exact Or.inl hblank
        · exact Or.inr ⟨segment, List.mem_append_left _ hsegment, hc⟩
      · exact Or.inl (List.mem_singleton.mp hc)
    · refine Or.inr ⟨nxt, List.mem_append_right _ (List.mem_singleton_self nxt), ?_⟩
      unfold continuation at hc
      split_ifs at hc
      · exact List.mem_of_mem_tail hc
      · exact hc
      · exact (List.dropWhile_sublist _).mem hc

/-- Every line of an accepted makefile passes, whether or not a rule is open there. -/
theorem line_accepted {lines : List LogicalLine} (h : problemsFrom isFormat inRule lines = []) (hrec : rec ∈ lines) :
    ∃ inRule', (lineProblems isFormat inRule' rec).1 = [] := by
  induction lines generalizing inRule with
  | nil => cases hrec
  | cons rec' lines ih =>
    obtain ⟨hline, hrest⟩ := List.append_eq_nil_iff.mp h
    rcases List.mem_cons.mp hrec with rfl | hrec
    · exact ⟨inRule, hline⟩
    · exact ih hrest hrec

/-! ## Assignments -/

theorem isIdentChar_of_isIdentStart (h : isIdentStart c = true) : isIdentChar c = true := by
  rw [isIdentChar, h, Bool.true_or]

theorem takeWhile_eq_of_append {p : Char → Bool} {a b : Str} (ha : ∀ c ∈ a, p c = true)
    (hb : ∀ c ∈ b.head?, p c = false) : (a ++ b).takeWhile p = a := by
  rw [List.takeWhile_append_of_pos ha]
  cases b with
  | nil => simp
  | cons c b =>
    rw [List.takeWhile_cons_of_neg, List.append_nil]
    rw [hb c rfl]
    exact Bool.false_ne_true

theorem dropWhile_eq_of_append {p : Char → Bool} {a b : Str} (ha : ∀ c ∈ a, p c = true)
    (hb : ∀ c ∈ b.head?, p c = false) : (a ++ b).dropWhile p = b := by
  rw [List.dropWhile_append_of_pos ha]
  cases b with
  | nil => rfl
  | cons c b =>
    rw [List.dropWhile_cons_of_neg]
    rw [hb c rfl]
    exact Bool.false_ne_true

/-- The text of an assignment. -/
theorem matchGAssign_eq_some {value : Str} {op : AssignOp} (h : matchGAssign body = some (name, op, value)) :
    ∃ blanks, body = name ++ blanks ++ op.text ++ value ∧ ∀ c ∈ blanks, isBlank c = true := by
  obtain ⟨name', hname, hop⟩ := Option.bind_eq_some_iff.mp h
  obtain ⟨op', hfind, heq⟩ := Option.map_eq_some_iff.mp hop
  cases heq
  have hstart : name <+: body := by
    rw [assignedName] at hname
    split at hname
    · cases hname
      exact List.takeWhile_prefix _
    · have hspecial := List.find?_some hname
      exact List.isPrefixOf_iff_prefix.mp hspecial
  obtain ⟨rest, rfl⟩ := hstart
  rw [List.drop_left] at hfind ⊢
  have hfound := List.find?_some hfind
  have hstarts : op.text <+: rest.dropWhile isBlank := List.isPrefixOf_iff_prefix.mp hfound
  refine ⟨rest.takeWhile isBlank, ?_, fun c hc => List.mem_takeWhile_imp hc⟩
  rw [List.append_assoc, List.append_assoc, List.prefix_iff_eq_append.mp hstarts, List.takeWhile_append_dropWhile]

/-! ### Characters -/

theorem isIdentChar_range (h : isIdentChar c = true) :
    (48 ≤ c.val.toNat ∧ c.val.toNat ≤ 57) ∨ (65 ≤ c.val.toNat ∧ c.val.toNat ≤ 90) ∨ c.val.toNat = 95 ∨
      (97 ≤ c.val.toNat ∧ c.val.toNat ≤ 122) := by
  simp only [isIdentChar, isIdentStart, isLetter, Bool.or_eq_true, Bool.and_eq_true, decide_eq_true_eq, beq_iff_eq,
    Char.le_def, UInt32.le_iff_toNat_le] at h
  rcases h with (((h | h) | h) | h)
  · exact Or.inr (Or.inl h)
  · exact Or.inr (Or.inr (Or.inr h))
  · subst h
    exact Or.inr (Or.inr (Or.inl rfl))
  · exact Or.inl h

theorem isSpace_of_isIdentChar (h : isIdentChar c = true) : isSpace c = false := by
  have hrange := isIdentChar_range h
  by_contra hspace
  rw [Bool.not_eq_false] at hspace
  simp only [isSpace, Bool.or_eq_true, Bool.and_eq_true, decide_eq_true_eq, beq_iff_eq, UInt32.le_iff_toNat_le,
    ← UInt32.toNat_inj, UInt32.reduceToNat] at hspace
  omega

theorem isLeadChar_of_isIdentChar (h : isIdentChar c = true) : isLeadChar c = true := by
  have hnot : (str ":=?+!#").contains c = false := by
    by_contra hmem
    rw [Bool.not_eq_false, List.contains_iff_mem] at hmem
    have hall : ∀ d ∈ str ":=?+!#", isIdentChar d = false := List.all_iff_forall_prop.mp (by decide)
    rw [hall c hmem] at h
    cases h
  rw [isLeadChar, isSpace_of_isIdentChar h, hnot]
  rfl

theorem isLeadChar_of_isWordChar (h : isWordChar c = true) : isLeadChar c = true := by
  simp only [isWordChar, Bool.or_eq_true, beq_iff_eq] at h
  rcases h with ((h | rfl) | rfl) | rfl
  · exact isLeadChar_of_isIdentChar h
  · rfl
  · rfl
  · rfl

theorem plain_of_isLeadChar (h : isLeadChar c = true) : (!(c == '#' || c == '=' || c == ':')) = true := by
  rw [isLeadChar, Bool.not_eq_true', Bool.or_eq_false_iff] at h
  have hall : ∀ d ∈ ['#', '=', ':'], (str ":=?+!#").contains d = true := List.all_iff_forall_prop.mp (by decide)
  rw [Bool.not_eq_true', Bool.or_eq_false_iff, Bool.or_eq_false_iff]
  refine ⟨⟨?_, ?_⟩, ?_⟩
  all_goals
    rw [beq_eq_false_iff_ne]
    rintro rfl
    rw [hall _ (by decide)] at h
    cases h.2

theorem isSpace_of_isLeadChar (h : isLeadChar c = true) : isSpace c = false := by
  rw [isLeadChar, Bool.not_eq_true', Bool.or_eq_false_iff] at h
  exact h.1

theorem eq_of_isBlank (h : isBlank c = true) : c = ' ' ∨ c = '\t' := by
  rw [isBlank, Bool.or_eq_true, beq_iff_eq, beq_iff_eq] at h
  exact h

theorem isLeadChar_of_isBlank (h : isBlank c = true) : isLeadChar c = false := by
  rcases eq_of_isBlank h with rfl | rfl
  · rfl
  · rfl

theorem isSpace_of_isBlank (h : isBlank c = true) : isSpace c = true := by
  rcases eq_of_isBlank h with rfl | rfl
  · rfl
  · rfl

/-! ### Leads -/

theorem all_of_isIdent (h : isIdent name = true) : ∀ c ∈ name, isIdentChar c = true := by
  rw [isIdent, Bool.and_eq_true] at h
  exact List.all_eq_true.mp h.2

theorem head_of_isIdent (h : isIdent name = true) : ∃ c cs, name = c :: cs ∧ isIdentStart c = true := by
  rw [isIdent, Bool.and_eq_true] at h
  cases name with
  | nil => cases h.1
  | cons c cs => exact ⟨c, cs, rfl, h.1⟩

theorem all_of_isWord {w : Str} (h : isWord w = true) : ∀ c ∈ w, isWordChar c = true := by
  rw [isWord, Bool.and_eq_true] at h
  exact List.all_eq_true.mp h.2

theorem head_of_isWord {w : Str} (h : isWord w = true) : ∃ c cs, w = c :: cs ∧ isWordStart c = true := by
  rw [isWord, Bool.and_eq_true] at h
  cases w with
  | nil => cases h.1
  | cons c cs => exact ⟨c, cs, rfl, h.1⟩

/-- The lead of a text, in front of blanks and an operator. -/
theorem leadOfOperator_eq_some {name blanks rest : Str} (hne : name ≠ []) (hname : ∀ c ∈ name, isLeadChar c = true)
    (hblanks : ∀ c ∈ blanks, isBlank c = true) (hrest : ∀ c ∈ rest.head?, isLeadChar c = false ∧ isBlank c = false)
    (hop : [":::=", "::=", ":=", "?=", "+=", "!=", "=", "&:", ":"].any (fun op => (str op).isPrefixOf rest) = true) :
    leadOfOperator (name ++ (blanks ++ rest)) = some name := by
  have hnext : ∀ c ∈ (blanks ++ rest).head?, isLeadChar c = false := by
    intro c hc
    cases blanks with
    | nil => exact (hrest c hc).1
    | cons b blanks =>
      cases hc
      exact isLeadChar_of_isBlank (hblanks c List.mem_cons_self)
  have hlead : (name ++ (blanks ++ rest)).takeWhile isLeadChar = name := takeWhile_eq_of_append hname hnext
  have hbehind : (blanks ++ rest).dropWhile isBlank = rest := dropWhile_eq_of_append hblanks fun c hc => (hrest c hc).2
  have hempty : name.isEmpty = false := List.isEmpty_eq_false_iff.mpr hne
  rw [leadOfOperator]
  simp only [hlead, List.drop_left, hbehind, hempty, hop, Bool.not_false, Bool.and_self, if_true]

theorem leadChars_of_leadOfOperator {lead : Str} (h : leadOfOperator body = some lead) :
    ∀ c ∈ lead, isLeadChar c = true := by
  simp only [leadOfOperator] at h
  split_ifs at h
  rw [← Option.some.inj h]
  exact fun c hc => List.mem_takeWhile_imp hc

theorem lead_of_matchGAssign {value : Str} {op : AssignOp} (h : matchGAssign body = some (name, op, value)) :
    leadOfOperator body = some name := by
  obtain ⟨blanks, hbody, hblanks⟩ := matchGAssign_eq_some h
  obtain ⟨name', hname, hop⟩ := Option.bind_eq_some_iff.mp h
  obtain ⟨op', -, heq⟩ := Option.map_eq_some_iff.mp hop
  cases heq
  have hspecial : ∀ n ∈ assignableSpecials, n ≠ [] ∧ n.all isLeadChar = true := by decide
  have hfacts : name ≠ [] ∧ ∀ c ∈ name, isLeadChar c = true := by
    simp only [assignedName] at hname
    split_ifs at hname with hident
    · rw [Option.some.inj hname] at hident
      obtain ⟨c, cs, hcons, -⟩ := head_of_isIdent hident
      refine ⟨?_, fun c hc => isLeadChar_of_isIdentChar (all_of_isIdent hident c hc)⟩
      rw [hcons]
      exact List.cons_ne_nil _ _
    · have hmem := hspecial name (List.mem_of_find?_eq_some hname)
      exact ⟨hmem.1, List.all_eq_true.mp hmem.2⟩
  rw [hbody, List.append_assoc, List.append_assoc]
  refine leadOfOperator_eq_some hfacts.1 hfacts.2 hblanks ?_ ?_
  · intro c hc
    cases op <;> (cases hc; exact ⟨rfl, rfl⟩)
  · cases op <;> simp [AssignOp.text, str, List.isPrefixOf]

/-! ### Rules -/

theorem afterColon_eq_some {rest : Str} (hname : name <+: body) (h : afterColon name body = some rest) :
    ∃ blanks, body = name ++ (blanks ++ ':' :: rest) ∧ ∀ c ∈ blanks, isBlank c = true := by
  obtain ⟨behind, rfl⟩ := hname
  rw [afterColon, List.drop_left] at h
  refine ⟨behind.takeWhile isBlank, ?_, fun c hc => List.mem_takeWhile_imp hc⟩
  split at h
  · rename_i rest' hcolon
    obtain rfl := Option.some.inj h
    rw [← hcolon, List.takeWhile_append_dropWhile]
  · cases h

/-- The text of a rule. -/
theorem matchRule_eq_some {words : List Str} (h : matchRule body = some (name, words)) :
    isWord name = true ∧ ∃ blanks rest, body = name ++ (blanks ++ ':' :: rest) ∧ (∀ c ∈ blanks, isBlank c = true) ∧
      blankWords rest = some words := by
  simp only [matchRule] at h
  split_ifs at h with hword
  obtain ⟨words', hwords, heq⟩ := Option.map_eq_some_iff.mp h
  cases heq
  obtain ⟨rest, hcolon, hwords⟩ := Option.bind_eq_some_iff.mp hwords
  obtain ⟨blanks, hbody, hblanks⟩ := afterColon_eq_some (List.takeWhile_prefix _) hcolon
  exact ⟨hword, blanks, rest, hbody, hblanks, hwords⟩

theorem matchPhony_eq_some {names : List Str} (h : matchPhony body = some names) :
    ∃ blanks rest, body = str ".PHONY" ++ (blanks ++ ':' :: rest) ∧ (∀ c ∈ blanks, isBlank c = true) ∧
      blankWords rest = some names := by
  unfold matchPhony at h
  split_ifs at h with hstarts
  obtain ⟨hwords, -⟩ := Option.filter_eq_some_iff.mp h
  obtain ⟨rest, hcolon, hwords⟩ := Option.bind_eq_some_iff.mp hwords
  obtain ⟨blanks, hbody, hblanks⟩ := afterColon_eq_some (List.isPrefixOf_iff_prefix.mp hstarts) hcolon
  exact ⟨blanks, rest, hbody, hblanks, hwords⟩

theorem lead_of_colon {blanks rest : Str} (hne : name ≠ []) (hname : ∀ c ∈ name, isLeadChar c = true)
    (hblanks : ∀ c ∈ blanks, isBlank c = true) : leadOfOperator (name ++ (blanks ++ ':' :: rest)) = some name := by
  refine leadOfOperator_eq_some hne hname hblanks ?_ ?_
  · intro c hc
    cases hc
    exact ⟨rfl, rfl⟩
  · simp [str, List.isPrefixOf]

theorem lead_of_matchRule {words : List Str} (h : matchRule body = some (name, words)) :
    leadOfOperator body = some name := by
  obtain ⟨hword, blanks, rest, rfl, hblanks, -⟩ := matchRule_eq_some h
  refine lead_of_colon ?_ ?_ hblanks
  · rintro rfl
    cases hword
  · intro c hc
    exact isLeadChar_of_isWordChar (all_of_isWord hword c hc)

theorem lead_of_matchPhony {names : List Str} (h : matchPhony body = some names) :
    leadOfOperator body = some (str ".PHONY") := by
  obtain ⟨blanks, rest, rfl, hblanks, -⟩ := matchPhony_eq_some h
  have hname : ∀ c ∈ str ".PHONY", isLeadChar c = true := List.all_iff_forall_prop.mp (by decide)
  exact lead_of_colon (by decide) hname hblanks

/-! ### Accepted lines -/

theorem badSegments_eq_nil (hline : (lineProblems isFormat inRule rec).1 = []) : badSegments isFormat rec = [] := by
  by_contra hbad
  have hempty : (!(badSegments isFormat rec).isEmpty) = true := by
    rw [Bool.not_eq_true', List.isEmpty_eq_false_iff]
    exact hbad
  rw [lineProblems] at hline
  simp only [hempty, if_true] at hline
  exact hbad hline

theorem bodyProblems_eq_nil (hline : (lineProblems isFormat inRule rec).1 = []) (htab : rec.tab = false)
    (hkeeps : keepsRuleOpen rec = false) : (bodyProblems rec).1 = [] := by
  have hbad := badSegments_eq_nil hline
  rw [lineProblems] at hline
  simp only [hbad, htab, hkeeps, List.isEmpty_nil, Bool.not_true, Bool.false_eq_true, if_false] at hline
  split_ifs at hline
  exact List.map_eq_nil_iff.mp hline

/-! ## The shapes -/

/-- The text does not start with a keyword in front of an operator. -/
def NoKeyword (code : Str) : Prop := ∀ lead, leadOfOperator code = some lead → lead ∉ directiveKeywords

/-- What an accepted line is, with whether a rule is open before it and behind it. -/
inductive Accepted (rec : LogicalLine) : Bool → Bool → Prop where
  | recipe (htab : rec.tab = true) : Accepted rec true true
  | keepsOpen {inRule : Bool} (hkeeps : keepsRuleOpen rec = true) : Accepted rec inRule inRule
  | assign {inRule : Bool} {name value : Str} {op : AssignOp} (htab : rec.tab = false)
      (hkeeps : keepsRuleOpen rec = false) (hlead : NoKeyword rec.code)
      (hcode : matchGAssign rec.code = some (name, op, value)) : Accepted rec inRule false
  | phony {inRule : Bool} {names : List Str} (htab : rec.tab = false) (hkeeps : keepsRuleOpen rec = false)
      (hlead : NoKeyword rec.code) (hassign : matchGAssign rec.code = none)
      (hcode : matchPhony rec.code = some names) (hone : rec.segments.length ≤ 1) : Accepted rec inRule false
  | rule {inRule : Bool} {name : Str} {words : List Str} (htab : rec.tab = false) (hkeeps : keepsRuleOpen rec = false)
      (hlead : NoKeyword rec.code) (hassign : matchGAssign rec.code = none) (hphony : matchPhony rec.code = none)
      (hcode : matchRule rec.code = some (name, words)) (hone : rec.segments.length ≤ 1) : Accepted rec inRule true

theorem accepted_of_bodyProblems (h : (bodyProblems rec).1 = []) (htab : rec.tab = false)
    (hkeeps : keepsRuleOpen rec = false) (inRule : Bool) : Accepted rec inRule (bodyProblems rec).2 := by
  have hlead : NoKeyword rec.code := by
    intro lead hlead hmem
    rw [bodyProblems, hlead, Option.filter_some, if_pos (List.contains_iff_mem.mpr hmem)] at h
    cases h
  have hfilter : (leadOfOperator rec.code).filter (fun lead => directiveKeywords.contains lead) = none := by
    rw [Option.filter_eq_none_iff]
    intro lead hmem hcontains
    exact hlead lead hmem (List.contains_iff_mem.mp hcontains)
  rw [bodyProblems, hfilter] at h ⊢
  cases hassign : matchGAssign rec.code with
  | some parts => exact .assign htab hkeeps hlead hassign
  | none =>
    simp only [hassign] at h ⊢
    cases hphony : matchPhony rec.code with
    | some names =>
      simp only [hphony, Option.isSome_some, Bool.true_or, Bool.true_and, decide_eq_true_eq, if_true] at h ⊢
      split_ifs at h ⊢ with hone
      · exact .phony htab hkeeps hlead hassign hphony (Nat.le_of_not_lt hone)
    | none =>
      cases hrule : matchRule rec.code with
      | some target =>
        simp only [hphony, hrule, Option.isSome_some, Option.isSome_none, Bool.false_or, Bool.true_and,
          decide_eq_true_eq, Bool.false_eq_true, if_false, if_true] at h ⊢
        split_ifs at h ⊢ with hone
        · exact .rule htab hkeeps hlead hassign hphony hrule (Nat.le_of_not_lt hone)
      | none => simp [hphony, hrule] at h

/-- Every accepted line has one of the shapes. -/
theorem accepted_of_lineProblems (h : (lineProblems isFormat inRule rec).1 = []) :
    Accepted rec inRule (lineProblems isFormat inRule rec).2 := by
  have hbad := badSegments_eq_nil h
  by_cases htab : rec.tab = true
  · rw [lineProblems] at h ⊢
    simp only [hbad, htab, List.isEmpty_nil, Bool.not_true, Bool.false_eq_true, if_false, if_true] at h ⊢
    split_ifs at h ⊢ with hblank hrule
    · rw [hrule]
      exact .recipe htab
  · rw [Bool.not_eq_true] at htab
    by_cases hkeeps : keepsRuleOpen rec = true
    · rw [lineProblems] at h ⊢
      simp only [hbad, htab, hkeeps, List.isEmpty_nil, Bool.not_true, Bool.false_eq_true, if_false, if_true] at h ⊢
      split_ifs at h ⊢
      exact .keepsOpen hkeeps
    · rw [Bool.not_eq_true] at hkeeps
      have hbody := accepted_of_bodyProblems (bodyProblems_eq_nil h htab hkeeps) htab hkeeps inRule
      rw [lineProblems] at h ⊢
      simp only [hbad, htab, hkeeps, List.isEmpty_nil, Bool.not_true, Bool.false_eq_true, if_false] at h ⊢
      split_ifs at h ⊢
      exact hbody

/-- A line that keeps a rule open has no code. -/
theorem code_of_keepsRuleOpen (h : rec ∈ makefileLines text) (hkeeps : keepsRuleOpen rec = true) : rec.code = [] := by
  obtain ⟨j, -, rfl⟩ := exists_joined (P := fun _ => True) (fun _ _ => trivial) (fun _ _ _ _ => trivial) h
  rw [keepsRuleOpen, Bool.and_eq_true, Bool.or_eq_true, List.isEmpty_iff, beq_iff_eq] at hkeeps
  obtain ⟨htab, hraw⟩ := hkeeps
  unfold Joined.close at htab hraw ⊢
  split at htab
  · cases htab
  · rename_i hnot
    rw [if_neg hnot] at hraw ⊢
    show (stripComment 0 j.raw).1 = []
    cases hj : j.raw with
    | nil => rfl
    | cons c s =>
      rw [hj] at hraw
      rcases hraw with hraw | hraw
      · cases hraw
      · cases hraw
        rfl

theorem code_of_tab (h : rec ∈ makefileLines text) (htab : rec.tab = true) : rec.code = rec.raw := by
  obtain ⟨j, -, rfl⟩ := exists_joined (P := fun _ => True) (fun _ _ => trivial) (fun _ _ _ _ => trivial) h
  unfold Joined.close at htab ⊢
  split at htab
  · rename_i hj
    rw [if_pos hj]
  · cases htab

/-- The code of an accepted line that is neither a TAB line nor one that keeps a rule open has a lead that is no
keyword. -/
theorem exists_lead (h : (lineProblems isFormat inRule rec).1 = []) (htab : rec.tab = false)
    (hkeeps : keepsRuleOpen rec = false) : ∃ lead, leadOfOperator rec.code = some lead ∧ lead ∉ directiveKeywords := by
  have haccepted := accepted_of_lineProblems h
  generalize (lineProblems isFormat inRule rec).2 = after at haccepted
  cases haccepted with
  | recipe ht =>
    rw [htab] at ht
    cases ht
  | keepsOpen hk =>
    rw [hkeeps] at hk
    cases hk
  | assign _ _ hlead hcode => exact ⟨_, lead_of_matchGAssign hcode, hlead _ (lead_of_matchGAssign hcode)⟩
  | phony _ _ hlead _ hcode _ => exact ⟨_, lead_of_matchPhony hcode, hlead _ (lead_of_matchPhony hcode)⟩
  | rule _ _ hlead _ _ hcode _ => exact ⟨_, lead_of_matchRule hcode, hlead _ (lead_of_matchRule hcode)⟩

/-- A keyword is not assigned in an accepted makefile. -/
theorem not_keyword (hline : (lineProblems isFormat inRule rec).1 = []) (hrec : rec ∈ makefileLines text)
    (htab : rec.tab = false) {value : Str} {op : AssignOp} (hcode : matchGAssign rec.code = some (name, op, value)) :
    name ∉ directiveKeywords := by
  have hkeeps : keepsRuleOpen rec = false := by
    by_contra hkeeps
    rw [Bool.not_eq_false] at hkeeps
    rw [code_of_keepsRuleOpen hrec hkeeps] at hcode
    cases hcode
  obtain ⟨lead, hlead, hnot⟩ := exists_lead hline htab hkeeps
  rw [lead_of_matchGAssign hcode] at hlead
  obtain rfl := Option.some.inj hlead
  exact hnot

/-- A white space character that is accepted is a blank. -/
theorem isBlank_of_isSpace (h : forbiddenChar isFormat c = none) (hspace : isSpace c = true) : isBlank c = true := by
  unfold forbiddenChar at h
  split_ifs at h with hplain
  · rw [isBlank, Bool.or_eq_true, beq_iff_eq, beq_iff_eq]
    rw [Bool.or_eq_true, beq_iff_eq, Bool.and_eq_true, decide_eq_true_eq, decide_eq_true_eq] at hplain
    rcases hplain with rfl | ⟨hlow, hhigh⟩
    · exact Or.inr rfl
    · left
      simp only [isSpace, Bool.or_eq_true, Bool.and_eq_true, decide_eq_true_eq, beq_iff_eq, UInt32.le_iff_toNat_le,
        ← UInt32.toNat_inj, UInt32.reduceToNat] at hspace
      rw [Char.le_def, UInt32.le_iff_toNat_le] at hlow hhigh
      have hlow' : 32 ≤ c.val.toNat := hlow
      have hhigh' : c.val.toNat ≤ 126 := hhigh
      have hval : c.val.toNat = 32 := by omega
      exact Char.ext (UInt32.toNat_inj.mp hval)

/-- The white space of an accepted line is blanks. -/
theorem blank_of_accepted (h : (lineProblems isFormat inRule rec).1 = []) (hrec : rec ∈ makefileLines text) :
    ∀ c ∈ rec.raw, isSpace c = true → isBlank c = true := by
  intro c hc hspace
  rcases mem_raw hrec c hc with rfl | ⟨segment, hsegment, hc⟩
  · rfl
  · refine @isBlank_of_isSpace isFormat c ?_ hspace
    have hbad := badSegments_eq_nil h
    obtain ⟨i, hi⟩ := List.mem_iff_getElem?.mp hsegment
    have hpair : (segment, i) ∈ rec.segments.zipIdx := List.mem_zipIdx_iff_getElem?.mpr hi
    have hnone := List.filterMap_eq_nil_iff.mp hbad (segment, i) hpair
    rw [Option.map_eq_none_iff, List.findSome?_eq_none_iff] at hnone
    exact hnone c hc

end Vizra.Makefile
