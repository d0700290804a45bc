import Vizra.Makefile.Grammar

/-!
# The expansions that the scanner accepts

`_dollar_problems` finds nothing in a line exactly if the line is derivable from the grammar of expansions. The
scanner counts one kind of bracket; what it takes for the inside of an expansion is balanced in that kind.
-/

namespace Vizra.Makefile

open Py

variable {bracket c : Char} {depth : Nat} {t : Str}

/-! ## The grammar -/

/-- As many `)` as `(`, and in no prefix more. -/
def Balanced (t : Str) : Prop := t.count ')' = t.count '(' ∧ ∀ u, u <+: t → u.count ')' ≤ u.count '('

/-- The texts that may stand in a line, where `allowShell` says whether `$(shell …)` is one of them. -/
inductive Derivable : Bool → Str → Prop where
  | nil {allowShell : Bool} : Derivable allowShell []
  | char {allowShell : Bool} {c : Char} {s : Str} (hc : c ≠ '$') (hs : Derivable allowShell s) :
      Derivable allowShell (c :: s)
  | dollar {allowShell : Bool} {s : Str} (hs : Derivable allowShell s) : Derivable allowShell ('$' :: '$' :: s)
  | paren {allowShell : Bool} {name s : Str} (hname : isIdent name = true) (hmake : name ≠ str "MAKE")
      (hs : Derivable allowShell s) : Derivable allowShell ('$' :: '(' :: (name ++ ')' :: s))
  | brace {allowShell : Bool} {name s : Str} (hname : isIdent name = true) (hmake : name ≠ str "MAKE")
      (hs : Derivable allowShell s) : Derivable allowShell ('$' :: '\x7b' :: (name ++ '\x7d' :: s))
  | shell {c : Char} {t s : Str} (hc : c = ' ' ∨ c = '\t') (hbalanced : Balanced t) (ht : Derivable false t)
      (hs : Derivable true s) : Derivable true ('$' :: '(' :: (str "shell" ++ c :: (t ++ ')' :: s)))

/-! ## Brackets -/

/-- The text closes `depth` brackets more than it opens, and at no place more than are open. -/
def Closes (bracket : Char) (depth : Nat) (t : Str) : Prop :=
  t.count (closing bracket) = t.count bracket + depth ∧
    ∀ u, u <+: t → u.count (closing bracket) ≤ u.count bracket + depth

def IsBracket (bracket : Char) : Prop := bracket = '(' ∨ bracket = '\x7b'

theorem IsBracket.ne_closing (h : IsBracket bracket) : bracket ≠ closing bracket := by
  rcases h with rfl | rfl
  · decide
  · decide

theorem closes_nil : Closes bracket depth [] ↔ depth = 0 := by
  constructor
  · rintro ⟨h, -⟩
    rw [List.count_nil, List.count_nil] at h
    omega
  · rintro rfl
    refine ⟨rfl, ?_⟩
    intro u hu
    rw [List.prefix_nil.mp hu]
    exact Nat.le_refl _

theorem closes_cons :
    Closes bracket depth (c :: t) ↔
      (c :: t).count (closing bracket) = (c :: t).count bracket + depth ∧
        ∀ u, u <+: t → (c :: u).count (closing bracket) ≤ (c :: u).count bracket + depth := by
  refine and_congr_right fun _ => ?_
  constructor
  · intro h u hu
    exact h _ ((List.prefix_cons_inj c).mpr hu)
  · intro h u hu
    rcases List.prefix_cons_iff.mp hu with rfl | ⟨u, rfl, hu⟩
    · rw [List.count_nil, List.count_nil]
      omega
    · exact h u ((List.prefix_cons_inj c).mp hu)

theorem closes_open (h : IsBracket bracket) : Closes bracket depth (bracket :: t) ↔ Closes bracket (depth + 1) t := by
  have hne := h.ne_closing
  rw [closes_cons, Closes]
  simp only [List.count_cons_self, List.count_cons_of_ne hne]
  refine and_congr ?_ (forall₂_congr fun u _ => ?_)
  · omega
  · omega

theorem closes_close (h : IsBracket bracket) :
    Closes bracket (depth + 1) (closing bracket :: t) ↔ Closes bracket depth t := by
  have hne := h.ne_closing
  rw [closes_cons, Closes]
  simp only [List.count_cons_self, List.count_cons_of_ne hne.symm]
  refine and_congr ?_ (forall₂_congr fun u _ => ?_)
  · omega
  · omega

theorem not_closes_close (h : IsBracket bracket) : ¬ Closes bracket 0 (closing bracket :: t) := by
  have hne := h.ne_closing
  rw [closes_cons]
  rintro ⟨-, hall⟩
  have hnil := hall [] (List.nil_prefix)
  rw [List.count_cons_self, List.count_cons_of_ne hne.symm, List.count_nil, List.count_nil] at hnil
  omega

theorem closes_other (hopen : c ≠ bracket) (hclose : c ≠ closing bracket) :
    Closes bracket depth (c :: t) ↔ Closes bracket depth t := by
  rw [closes_cons, Closes]
  simp only [List.count_cons_of_ne hopen, List.count_cons_of_ne hclose]

/-- A text without brackets closes what is open around it at once. -/
theorem closes_append {w : Str} (hopen : bracket ∉ w) (hclose : closing bracket ∉ w) :
    Closes bracket depth (w ++ t) ↔ Closes bracket depth t := by
  induction w with
  | nil => exact Iff.rfl
  | cons c w ih =>
    rw [List.mem_cons, not_or] at hopen hclose
    rw [List.cons_append, closes_other (Ne.symm hopen.1) (Ne.symm hclose.1), ih hopen.2 hclose.2]

/-! ## The scanner -/

theorem tokensFrom_inside_cons (bracket : Char) (depth : Nat) (acc : Str) (c : Char) (s : Str) :
    tokensFrom (.inside bracket depth acc) (c :: s) =
      if c == bracket then tokensFrom (.inside bracket (depth + 1) (acc ++ [c])) s
      else if c == closing bracket then
        match depth with
        | 0 => .group bracket acc :: tokensFrom .outside s
        | depth + 1 => tokensFrom (.inside bracket depth (acc ++ [c])) s
      else tokensFrom (.inside bracket depth (acc ++ [c])) s := by
  cases depth with
  | zero => rfl
  | succ depth => rfl

/-- The expansion that a text opens ends at the first bracket that closes it. -/
theorem tokensFrom_inside_closes {acc s : Str} (hb : IsBracket bracket) (h : Closes bracket depth t) :
    tokensFrom (.inside bracket depth acc) (t ++ closing bracket :: s) =
      .group bracket (acc ++ t) :: tokensFrom .outside s := by
  have hne : ¬ (closing bracket == bracket) = true := by simpa using hb.ne_closing.symm
  induction t generalizing depth acc with
  | nil =>
    obtain rfl := closes_nil.mp h
    rw [List.nil_append, tokensFrom_inside_cons, if_neg hne, if_pos (beq_self_eq_true _), List.append_nil]
  | cons c t ih =>
    have hacc : acc ++ c :: t = acc ++ [c] ++ t := by rw [List.append_assoc, List.singleton_append]
    rw [List.cons_append, tokensFrom_inside_cons, hacc]
    by_cases hopen : c = bracket
    · subst hopen
      rw [if_pos (beq_self_eq_true _), ih ((closes_open hb).mp h)]
    · rw [if_neg (by simpa using hopen)]
      by_cases hclose : c = closing bracket
      · subst hclose
        rw [if_pos (beq_self_eq_true _)]
        cases depth with
        | zero => exact absurd h (not_closes_close hb)
        | succ depth => exact ih ((closes_close hb).mp h)
      · rw [if_neg (by simpa using hclose), ih ((closes_other hopen hclose).mp h)]

/-- An expansion is closed, or nothing behind it is read. -/
theorem closes_or_unterminated (hb : IsBracket bracket) (depth : Nat) (acc s : Str) :
    (∃ t s', s = t ++ closing bracket :: s' ∧ Closes bracket depth t) ∨
      tokensFrom (.inside bracket depth acc) s = [.unterminated] := by
  induction s generalizing depth acc with
  | nil => exact Or.inr rfl
  | cons c s ih =>
    rw [tokensFrom_inside_cons]
    by_cases hopen : c = bracket
    · subst hopen
      rw [if_pos (beq_self_eq_true _)]
      rcases ih (depth + 1) (acc ++ [c]) with ⟨t, s', rfl, ht⟩ | hun
      · exact Or.inl ⟨c :: t, s', rfl, (closes_open hb).mpr ht⟩
      · exact Or.inr hun
    · rw [if_neg (by simpa using hopen)]
      by_cases hclose : c = closing bracket
      · subst hclose
        rw [if_pos (beq_self_eq_true _)]
        cases depth with
        | zero => exact Or.inl ⟨[], s, rfl, closes_nil.mpr rfl⟩
        | succ depth =>
          rcases ih depth (acc ++ [closing bracket]) with ⟨t, s', rfl, ht⟩ | hun
          · exact Or.inl ⟨closing bracket :: t, s', rfl, (closes_close hb).mpr ht⟩
          · exact Or.inr hun
      · rw [if_neg (by simpa using hclose)]
        rcases ih depth (acc ++ [c]) with ⟨t, s', rfl, ht⟩ | hun
        · exact Or.inl ⟨c :: t, s', rfl, (closes_other hopen hclose).mpr ht⟩
        · exact Or.inr hun

theorem tokens_char (hc : c ≠ '$') (s : Str) : tokens (c :: s) = .char c :: tokens s := by
  rw [tokens, tokensFrom, if_neg (by simpa using hc)]
  rfl

theorem tokens_dollar (s : Str) : tokens ('$' :: '$' :: s) = .dollar :: tokens s := rfl

theorem tokens_bracket (hb : IsBracket bracket) (s : Str) :
    tokens ('$' :: bracket :: s) = tokensFrom (.inside bracket 0 []) s := by
  rcases hb with rfl | rfl
  · rfl
  · rfl

theorem tokens_group (hb : IsBracket bracket) (h : Closes bracket 0 t) (s : Str) :
    tokens ('$' :: bracket :: (t ++ closing bracket :: s)) = .group bracket t :: tokens s := by
  rw [tokens_bracket hb, tokensFrom_inside_closes hb h, List.nil_append]
  rfl

theorem tokens_other (hdollar : c ≠ '$') (hb : ¬ IsBracket c) (s : Str) :
    tokens ('$' :: c :: s) = .other c :: tokens s := by
  have hbracket : ¬ (c == '(' || c == '\x7b') = true := by
    rw [Bool.or_eq_true, beq_iff_eq, beq_iff_eq]
    exact hb
  rw [tokens, tokensFrom, if_pos (beq_self_eq_true _), tokensFrom, if_neg (by simpa using hdollar), if_neg hbracket]
  rfl

/-! ## Names and scripts -/

theorem not_mem_of_isIdent {name : Str} (h : isIdent name = true) (hc : isIdentChar c = false) : c ∉ name := by
  intro hmem
  rw [isIdent, Bool.and_eq_true, List.all_eq_true] at h
  rw [h.2 c hmem] at hc
  cases hc

theorem closes_of_isIdent {name : Str} (h : isIdent name = true) (hb : IsBracket bracket) : Closes bracket 0 name := by
  have hnone : Closes bracket 0 (name ++ []) := by
    rcases hb with rfl | rfl
    · exact (closes_append (not_mem_of_isIdent h rfl) (not_mem_of_isIdent h rfl)).mpr (closes_nil.mpr rfl)
    · exact (closes_append (not_mem_of_isIdent h rfl) (not_mem_of_isIdent h rfl)).mpr (closes_nil.mpr rfl)
  rwa [List.append_nil] at hnone

/-- The text of a script. -/
theorem shellText?_eq_some {inner : Str} :
    shellText? inner = some t ↔ ∃ c, (c = ' ' ∨ c = '\t') ∧ inner = str "shell" ++ c :: t := by
  unfold shellText?
  constructor
  · intro h
    by_cases hshell : ((str "shell ").isPrefixOf inner || (str "shell\t").isPrefixOf inner) = true
    · rw [if_pos hshell] at h
      have ht := Option.some.inj h
      rw [Bool.or_eq_true, List.isPrefixOf_iff_prefix, List.isPrefixOf_iff_prefix] at hshell
      rcases hshell with ⟨t', rfl⟩ | ⟨t', rfl⟩
      · exact ⟨' ', Or.inl rfl, by rw [← ht]; rfl⟩
      · exact ⟨'\t', Or.inr rfl, by rw [← ht]; rfl⟩
    · rw [if_neg hshell] at h
      cases h
  · rintro ⟨c, rfl | rfl, rfl⟩
    · rfl
    · rfl

theorem balanced_of_shell (hc : c = ' ' ∨ c = '\t') : Closes '(' 0 (str "shell" ++ c :: t) ↔ Balanced t := by
  have hword : Closes '(' 0 ((str "shell" ++ [c]) ++ t) ↔ Closes '(' 0 t := by
    rcases hc with rfl | rfl
    · exact closes_append (by decide) (by decide)
    · exact closes_append (by decide) (by decide)
  rwa [List.append_assoc, List.singleton_append] at hword

theorem not_isIdent_shell (hc : c = ' ' ∨ c = '\t') (t : Str) : isIdent (str "shell" ++ c :: t) = false := by
  rw [Bool.eq_false_iff]
  intro h
  have hnot : c ∉ str "shell" ++ c :: t := by
    refine not_mem_of_isIdent h ?_
    rcases hc with rfl | rfl
    · rfl
    · rfl
  exact hnot (List.mem_append_right _ List.mem_cons_self)

/-! ## The equivalence -/

theorem dollarProblems_cons {text rest : Str} {token : Token} (h : tokens text = token :: tokens rest) (allowShell : Bool) :
    dollarProblems text allowShell = [] ↔
      tokenProblems (if allowShell then some plainDollarProblems else none) token = [] ∧
        dollarProblems rest allowShell = [] := by
  rw [dollarProblems, h, List.flatMap_cons, List.append_eq_nil_iff]
  rfl

theorem tokenProblems_name {shell : Option (Str → List DollarProblem)} {inner : Str} (h : isIdent inner = true) :
    tokenProblems shell (.group bracket inner) = [] ↔ inner ≠ str "MAKE" := by
  have hname : tokenProblems shell (.group bracket inner) = if inner == str "MAKE" then [.make] else [] := if_pos h
  rw [hname, ite_eq_right_iff, beq_iff_eq]
  simp

/-- A script is judged only where it is allowed, and only in parentheses. -/
theorem tokenProblems_script {allowShell : Bool} {inner : Str} (h : isIdent inner = false) :
    tokenProblems (if allowShell then some plainDollarProblems else none) (.group bracket inner) = [] ↔
      allowShell = true ∧ bracket = '(' ∧ ∃ t, shellText? inner = some t ∧ dollarProblems t false = [] := by
  have hident : ¬ isIdent inner = true := by
    rw [h]
    exact Bool.false_ne_true
  simp only [tokenProblems, if_neg hident]
  cases allowShell with
  | false => simp
  | true =>
    by_cases hparen : bracket = '('
    · subst hparen
      cases ht : shellText? inner with
      | none => simp
      | some t =>
        simp only [beq_self_eq_true, if_true, true_and, Option.some.injEq, exists_eq_left']
        exact Iff.rfl
    · have hnot : ¬ (bracket == '(') = true := by simpa using hparen
      rw [if_neg hnot]
      simp [hparen]

theorem derivable_of_dollarProblems {text : Str} {allowShell : Bool} (h : dollarProblems text allowShell = []) :
    Derivable allowShell text := by
  induction hn : text.length using Nat.strong_induction_on generalizing text allowShell with
  | h n ih =>
    have hrest : ∀ {rest : Str} {token : Token}, tokens text = token :: tokens rest → rest.length < text.length →
        tokenProblems (if allowShell then some plainDollarProblems else none) token = [] ∧ Derivable allowShell rest := by
      intro rest token htokens hlen
      obtain ⟨htoken, hproblems⟩ := (dollarProblems_cons htokens allowShell).mp h
      exact ⟨htoken, ih _ (hn ▸ hlen) hproblems rfl⟩
    match text with
    | [] => exact .nil
    | [c] =>
      by_cases hc : c = '$'
      · subst hc
        cases h
      · exact .char hc .nil
    | c :: d :: s =>
      have hshort : s.length < (c :: d :: s).length := by
        rw [List.length_cons, List.length_cons]
        omega
      by_cases hc : c = '$'
      · subst hc
        by_cases hd : d = '$'
        · subst hd
          exact .dollar (hrest (tokens_dollar s) hshort).2
        · by_cases hb : IsBracket d
          · rcases closes_or_unterminated hb 0 [] s with ⟨t, s', rfl, ht⟩ | hun
            · have hlen : t.length + s'.length < ('$' :: d :: (t ++ closing d :: s')).length := by
                rw [List.length_cons, List.length_cons, List.length_append, List.length_cons]
                omega
              obtain ⟨htoken, hs'⟩ := hrest (tokens_group hb ht s') (by omega)
              by_cases hident : isIdent t = true
              · have hmake := (tokenProblems_name hident).mp htoken
                rcases hb with rfl | rfl
                · exact .paren hident hmake hs'
                · exact .brace hident hmake hs'
              · rw [Bool.not_eq_true] at hident
                obtain ⟨rfl, rfl, script, hscript, hproblems⟩ := (tokenProblems_script hident).mp htoken
                obtain ⟨c, hc, rfl⟩ := shellText?_eq_some.mp hscript
                have hbalanced := (balanced_of_shell hc).mp ht
                rw [List.length_append, List.length_cons] at hlen
                have hderivable : Derivable false script := ih _ (by omega) hproblems rfl
                rw [List.append_assoc, List.cons_append]
                exact .shell hc hbalanced hderivable hs'
            · rw [dollarProblems, tokens_bracket hb, hun] at h
              cases h
          · have htoken := (hrest (tokens_other hd hb s) hshort).1
            cases htoken
      · refine .char hc (hrest (tokens_char hc (d :: s)) ?_).2
        rw [List.length_cons, List.length_cons, List.length_cons]
        omega

theorem dollarProblems_of_derivable {text : Str} {allowShell : Bool} (h : Derivable allowShell text) :
    dollarProblems text allowShell = [] := by
  induction h with
  | nil => rfl
  | char hc _ ih => exact (dollarProblems_cons (tokens_char hc _) _).mpr ⟨rfl, ih⟩
  | dollar _ ih => exact (dollarProblems_cons (tokens_dollar _) _).mpr ⟨rfl, ih⟩
  | paren hname hmake _ ih =>
    have hb : IsBracket '(' := Or.inl rfl
    refine (dollarProblems_cons (tokens_group hb (closes_of_isIdent hname hb) _) _).mpr ⟨?_, ih⟩
    exact (tokenProblems_name hname).mpr hmake
  | brace hname hmake _ ih =>
    have hb : IsBracket '\x7b' := Or.inr rfl
    refine (dollarProblems_cons (tokens_group hb (closes_of_isIdent hname hb) _) _).mpr ⟨?_, ih⟩
    exact (tokenProblems_name hname).mpr hmake
  | @shell c t s hc hbalanced _ _ iht ihs =>
    have htokens := tokens_group (Or.inl rfl) ((balanced_of_shell hc).mpr hbalanced) s
    rw [List.append_assoc, List.cons_append] at htokens
    refine (dollarProblems_cons htokens _).mpr ⟨?_, ihs⟩
    have hscript : shellText? (str "shell" ++ c :: t) = some t := shellText?_eq_some.mpr ⟨c, hc, rfl⟩
    exact (tokenProblems_script (not_isIdent_shell hc t)).mpr ⟨rfl, rfl, t, hscript, iht⟩

/-- The scanner accepts the texts of the grammar. -/
theorem dollarProblems_eq_nil_iff (text : Str) (allowShell : Bool) :
    dollarProblems text allowShell = [] ↔ Derivable allowShell text :=
  ⟨derivable_of_dollarProblems, dollarProblems_of_derivable⟩

end Vizra.Makefile
