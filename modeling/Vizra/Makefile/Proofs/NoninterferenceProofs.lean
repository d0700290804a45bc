import Mathlib.Data.Bool.AllAny
import Vizra.Makefile.Proofs.ExpandProofs
import Vizra.Makefile.Proofs.GrammarProofs

/-!
# What the environment can change in a recipe

Two environments that the anchor accepts give every recipe line the same expansion exactly if each name that make
takes from the environment for one is refused by the anchor or defined by make. The anchor misses such a name when a
recipe line looks like an assignment of it, when it is only referred to behind `$$`, when it is called like a
function of make, or when a `:=` uses it above its assignment.
-/

namespace Vizra.Makefile

open Py

variable {isFormat : Char → Bool} {text : Str}

/-! ## Assignments -/

/-- A character that can follow the name of an assignment. -/
def FollowsName (c : Char) : Prop := isBlank c = true ∨ c ∈ [':', '?', '=']

theorem FollowsName.facts {c : Char} (h : FollowsName c) :
    isIdentChar c = false ∧ c ≠ '.' := by
  rcases h with h | h
  · rw [isBlank, Bool.or_eq_true, beq_iff_eq, beq_iff_eq] at h
    rcases h with rfl | rfl <;> decide
  · have hall : ∀ d ∈ [':', '?', '='], isIdentChar d = false ∧ d ≠ '.' :=
      List.all_iff_forall_prop.mp (by decide)
    exact hall c h

theorem followsName_of_head {blanks value : Str} (op : AssignOp) (hblanks : ∀ c ∈ blanks, isBlank c = true) :
    ∀ c ∈ (blanks ++ (op.text ++ value)).head?, FollowsName c := by
  intro c hc
  cases blanks with
  | nil =>
    right
    cases op <;> (cases hc; decide)
  | cons b blanks =>
    cases hc
    exact Or.inl (hblanks c List.mem_cons_self)

theorem takeWhile_eq_of_isPrefixOf {p : Char → Bool} {w s : Str} (hstarts : w.isPrefixOf s = true)
    (hw : ∀ c ∈ w, p c = true) (hnext : ∀ c ∈ (s.drop w.length).head?, p c = false) : s.takeWhile p = w := by
  obtain ⟨rest, rfl⟩ := List.isPrefixOf_iff_prefix.mp hstarts
  rw [List.drop_left] at hnext
  exact takeWhile_eq_of_append hw hnext

/-- A modifier that stands in front is all of the name. -/
theorem afterModifier_eq_none {s : Str} (h : s.takeWhile isIdentChar ∉ directiveKeywords) : afterModifier s = none := by
  rw [afterModifier, List.findSome?_eq_none_iff]
  intro w hw
  have hwords : ∀ w ∈ [str "export", str "override"], w ∈ directiveKeywords ∧ w.all isIdentChar = true := by decide
  obtain ⟨hkeyword, hident⟩ := hwords w hw
  have hchars : ∀ c ∈ w, isIdentChar c = true := List.all_eq_true.mp hident
  refine if_neg fun hmatch => h ?_
  rw [Bool.and_eq_true] at hmatch
  have hname : s.takeWhile isIdentChar = w := by
    refine takeWhile_eq_of_isPrefixOf hmatch.1 hchars fun c hc => ?_
    have hspace := hmatch.2
    rw [Option.mem_def.mp hc, Option.any_some] at hspace
    by_contra hident
    rw [Bool.not_eq_false] at hident
    rw [isSpace_of_isIdentChar hident] at hspace
    cases hspace
  rw [hname]
  exact hkeyword

theorem afterModifiers_eq_parse {β : Type} {parse : Str → Option β} {s : Str} (h : afterModifier s = none) (n : Nat) :
    afterModifiers parse n s = parse s := by
  cases n with
  | zero => rfl
  | succ n => rw [afterModifiers, h]

/-- The anchor's expression finds the assignment of an identifier that is no keyword. -/
theorem matchAssignRe_of_matchGAssign {body raw name value : Str} (h : matchGAssign body = some (name, .conditional, value))
    (hident : isIdent name = true) (hkeyword : name ∉ directiveKeywords) (hraw : body <+: raw) :
    matchAssignRe raw = some (name, str "?=") := by
  obtain ⟨blanks, hbody, hblanks⟩ := matchGAssign_eq_some h
  obtain ⟨rest, rfl⟩ := hraw
  obtain ⟨c, cs, hname, hc⟩ := head_of_isIdent hident
  have hraw : body ++ rest = name ++ (blanks ++ (AssignOp.conditional.text ++ (value ++ rest))) := by
    rw [hbody]
    simp only [List.append_assoc]
  rw [hraw]
  generalize value ++ rest = tail
  have hfollows : ∀ c ∈ (blanks ++ (AssignOp.conditional.text ++ tail)).head?, FollowsName c :=
    followsName_of_head .conditional hblanks
  have hspace : (name ++ (blanks ++ (AssignOp.conditional.text ++ tail))).dropWhile isSpace =
      name ++ (blanks ++ (AssignOp.conditional.text ++ tail)) := by
    rw [hname, List.cons_append, List.dropWhile_cons_of_neg]
    rw [isSpace_of_isIdentChar (isIdentChar_of_isIdentStart hc)]
    decide
  have htake : (name ++ (blanks ++ (AssignOp.conditional.text ++ tail))).takeWhile isIdentChar = name :=
    takeWhile_eq_of_append (all_of_isIdent hident) fun c hc => (hfollows c hc).facts.1
  have hchars : ∀ c ∈ name, (isIdentChar c || c == '.') = true := fun c hc => by rw [all_of_isIdent hident c hc, Bool.true_or]
  have hnext : ∀ c ∈ (blanks ++ (AssignOp.conditional.text ++ tail)).head?, (isIdentChar c || c == '.') = false := by
    intro c hc
    rw [(hfollows c hc).facts.1, Bool.false_or]
    exact beq_false_of_ne (hfollows c hc).facts.2
  have hblank : (blanks ++ (AssignOp.conditional.text ++ tail)).dropWhile isSpace = AssignOp.conditional.text ++ tail := by
    refine dropWhile_eq_of_append (fun c hc => ?_) fun c hc => ?_
    · have hb := hblanks c hc
      rw [isBlank, Bool.or_eq_true, beq_iff_eq, beq_iff_eq] at hb
      rcases hb with rfl | rfl <;> rfl
    · cases hc
      rfl
  have hmodifier : afterModifier (name ++ (blanks ++ (AssignOp.conditional.text ++ tail))) = none := by
    refine afterModifier_eq_none ?_
    rw [htake]
    exact hkeyword
  rw [matchAssignRe, matchAssign, hspace, afterModifiers_eq_parse hmodifier]
  rw [hname, List.cons_append, nameAndOp, if_pos hc, ← List.cons_append, ← hname]
  rw [takeWhile_eq_of_append hchars hnext, dropWhile_eq_of_append hchars hnext, hblank]
  rfl

/-! ### The operators of the anchor -/

/-- What one line does to `assigned`. -/
def recordOp (assigned : AList fun _ : Str => Str) (rec : LogicalLine) : AList fun _ : Str => Str :=
  match matchAssignRe rec.raw with
  | some (name, op) => if (assigned.lookup name).isNone || op == str "?=" then assigned.insert name op else assigned
  | none => assigned

theorem assignedOps_eq (lines : List LogicalLine) : assignedOps lines = lines.foldl recordOp ∅ := rfl

theorem lookup_recordOp_self (assigned : AList fun _ : Str => Str) {rec : LogicalLine} {name op : Str}
    (h : matchAssignRe rec.raw = some (name, op)) :
    (recordOp assigned rec).lookup name =
      if (assigned.lookup name).isNone || op == str "?=" then some op else assigned.lookup name := by
  rw [recordOp, h]
  simp only
  split_ifs
  · rw [AList.lookup_insert]
  · rfl

theorem lookup_recordOp_other (assigned : AList fun _ : Str => Str) {rec : LogicalLine} {name : Str}
    (h : ∀ op, matchAssignRe rec.raw ≠ some (name, op)) : (recordOp assigned rec).lookup name = assigned.lookup name := by
  rw [recordOp]
  split
  · rename_i other op hmatch
    have hne : name ≠ other := fun heq => h op (heq ▸ hmatch)
    split_ifs
    · rw [AList.lookup_insert_ne hne]
    · rfl
  · rfl

/-- An operator `?=` stays, and so does any operator. -/
theorem lookup_recordOp (assigned : AList fun _ : Str => Str) (rec : LogicalLine) (name : Str) :
    ((recordOp assigned rec).lookup name = some (str "?=") ↔
      assigned.lookup name = some (str "?=") ∨ matchAssignRe rec.raw = some (name, str "?=")) ∧
    ((recordOp assigned rec).lookup name = none ↔
      assigned.lookup name = none ∧ ∀ op, matchAssignRe rec.raw ≠ some (name, op)) := by
  by_cases hmatch : ∃ op, matchAssignRe rec.raw = some (name, op)
  · obtain ⟨op, hop⟩ := hmatch
    rw [lookup_recordOp_self assigned hop, hop]
    cases hold : assigned.lookup name with
    | none => simp
    | some old =>
      by_cases hconditional : op = str "?="
      · simp [hconditional]
      · simp [hconditional]
  · rw [not_exists] at hmatch
    rw [lookup_recordOp_other assigned hmatch]
    exact ⟨(or_iff_left (hmatch _)).symm, (and_iff_left hmatch).symm⟩

theorem lookup_foldl_recordOp (lines : List LogicalLine) (assigned : AList fun _ : Str => Str) (name : Str) :
    ((lines.foldl recordOp assigned).lookup name = some (str "?=") ↔
      assigned.lookup name = some (str "?=") ∨ ∃ rec ∈ lines, matchAssignRe rec.raw = some (name, str "?=")) ∧
    ((lines.foldl recordOp assigned).lookup name = none ↔
      assigned.lookup name = none ∧ ∀ rec ∈ lines, ∀ op, matchAssignRe rec.raw ≠ some (name, op)) := by
  induction lines generalizing assigned with
  | nil => simp
  | cons rec lines ih =>
    obtain ⟨hconditional, hnone⟩ := ih (recordOp assigned rec)
    rw [List.foldl_cons, hconditional, hnone, (lookup_recordOp assigned rec name).1, (lookup_recordOp assigned rec name).2]
    constructor
    · rw [or_assoc, List.exists_mem_cons_iff]
    · rw [and_assoc, List.forall_mem_cons]

theorem lookup_assignedOps_conditional (lines : List LogicalLine) (name : Str) :
    (assignedOps lines).lookup name = some (str "?=") ↔
      ∃ rec ∈ lines, matchAssignRe rec.raw = some (name, str "?=") := by
  rw [assignedOps_eq, (lookup_foldl_recordOp lines ∅ name).1, AList.lookup_empty]
  simp

theorem lookup_assignedOps_none (lines : List LogicalLine) (name : Str) :
    (assignedOps lines).lookup name = none ↔ ∀ rec ∈ lines, ∀ op, matchAssignRe rec.raw ≠ some (name, op) := by
  rw [assignedOps_eq, (lookup_foldl_recordOp lines ∅ name).2, AList.lookup_empty]
  simp

/-- The lines show the anchor that a name comes from the environment: one assigns it with `?=`; or one refers to it,
none assigns it and it is not called like a function of make. -/
def ShownFromEnv (lines : List LogicalLine) (name : Str) : Prop :=
  name = str "GOFLAGS" ∨ (∃ rec ∈ lines, matchAssignRe rec.raw = some (name, str "?=")) ∨
    (∃ rec ∈ lines, name ∈ refNames none rec.raw) ∧ name ∉ makeFunctions ∧
      ∀ rec ∈ lines, ∀ op, matchAssignRe rec.raw ≠ some (name, op)

theorem mem_fromEnv_iff (lines : List LogicalLine) {name : Str} (hname : name ∉ makeBuiltinVars) :
    name ∈ fromEnv lines ↔ ShownFromEnv lines name := by
  have hconditional : name ∈ ((assignedOps lines).entries.filter fun nameOp => nameOp.2 == str "?=").map Sigma.fst ↔
      ∃ rec ∈ lines, matchAssignRe rec.raw = some (name, str "?=") := by
    rw [← lookup_assignedOps_conditional, List.mem_map]
    constructor
    · rintro ⟨⟨name', op⟩, hmem, rfl⟩
      obtain ⟨hentry, hop⟩ := List.mem_filter.mp hmem
      exact beq_iff_eq.mp hop ▸ AList.mem_lookup_iff.mpr hentry
    · intro hlookup
      exact ⟨_, List.mem_filter.mpr ⟨AList.mem_lookup_iff.mp hlookup, beq_self_eq_true _⟩, rfl⟩
  have hreferred : name ∈ refsOf lines ↔ ∃ rec ∈ lines, name ∈ refNames none rec.raw := List.mem_flatMap
  rw [fromEnv, ShownFromEnv, List.mem_append, List.mem_append, hconditional, List.mem_filter, List.mem_singleton,
    hreferred, ← lookup_assignedOps_none]
  simp only [Bool.and_eq_true, Option.isNone_iff_eq_none, Bool.not_eq_true', ← Bool.not_eq_true,
    List.contains_iff_mem]
  constructor
  · rintro ((h | ⟨href, ⟨hnone, -⟩, hfunction⟩) | h)
    · exact Or.inr (Or.inl h)
    · exact Or.inr (Or.inr ⟨href, hfunction, hnone⟩)
    · exact Or.inl h
  · rintro (h | h | ⟨href, hfunction, hnone⟩)
    · exact Or.inr h
    · exact Or.inl (Or.inl h)
    · exact Or.inl (Or.inr ⟨href, ⟨hnone, hname⟩, hfunction⟩)

/-- The anchor refuses the identifiers that an accepted makefile assigns with `?=`. -/
theorem conditional_mem_fromEnv (hok : grammarProblems isFormat text = []) {a : Assign}
    (ha : a ∈ assigns (makefileLines text)) (hop : a.op = .conditional) (hident : isIdent a.name = true) :
    a.name ∈ fromEnv (makefileLines text) := by
  obtain ⟨rec, hrec, hassign⟩ := List.mem_filterMap.mp ha
  rw [LogicalLine.assign?] at hassign
  cases htab : rec.tab with
  | true =>
    rw [htab] at hassign
    cases hassign
  | false =>
    rw [htab] at hassign
    obtain ⟨⟨name, op, value⟩, hcode, heq⟩ := Option.map_eq_some_iff.mp hassign
    subst heq
    subst hop
    obtain ⟨inRule, hline⟩ := line_accepted hok hrec
    have hkeyword := not_keyword hline hrec htab hcode
    have hmatch := matchAssignRe_of_matchGAssign hcode hident hkeyword (code_isPrefix hrec)
    have hentry := AList.mem_lookup_iff.mp ((lookup_assignedOps_conditional _ _).mpr ⟨rec, hrec, hmatch⟩)
    refine List.mem_append_left _ (List.mem_append_left _ (List.mem_map.mpr ⟨_, List.mem_filter.mpr ⟨hentry, ?_⟩, rfl⟩))
    exact beq_self_eq_true _

/-! ## The value of a term -/

theorem eval_congr {shell : Str → Str} {env env' : Env} {t : Term} (h : ∀ name ∈ t.names, env name = env' name) :
    (textAlgebra shell env).eval t = (textAlgebra shell env').eval t := by
  induction t with
  | nil => rfl
  | append a b iha ihb =>
    have ha := iha fun name hname => h name (List.mem_append_left _ hname)
    have hb := ihb fun name hname => h name (List.mem_append_right _ hname)
    rw [Algebra.eval, Algebra.eval, ha, hb]
    rfl
  | char c => rfl
  | env name => exact congrArg (Option.getD · []) (h name List.mem_cons_self)
  | shell t ih => exact congrArg shell (ih h)

def emptyEnv : Env := fun _ => none

/-- The environment that sets one variable, to one character. -/
def oneEnv (name : Str) : Env := fun name' => if name' = name then some ['x'] else none

/-- Setting one variable makes a term longer by one character for each use of it. -/
theorem length_eval_oneEnv (name : Str) (t : Term) :
    ((textAlgebra id (oneEnv name)).eval t).length = ((textAlgebra id emptyEnv).eval t).length + t.names.count name := by
  induction t with
  | nil => rfl
  | append a b iha ihb =>
    rw [Term.names, List.count_append, Algebra.eval, Algebra.eval]
    simp only [textAlgebra, List.append_eq, List.length_append] at iha ihb ⊢
    rw [iha, ihb]
    omega
  | char c => rfl
  | env name' =>
    by_cases h : name' = name
    · subst h
      simp [Algebra.eval, textAlgebra, oneEnv, emptyEnv, Term.names]
    · simp [Algebra.eval, textAlgebra, oneEnv, emptyEnv, Term.names, h]
  | shell t ih => exact ih

/-! ## Every accepted text has pieces -/

theorem exists_mapM {α β : Type} {f : α → Option β} {l : List α} (h : ∀ a ∈ l, ∃ b, f a = some b) :
    ∃ bs, l.mapM f = some bs := by
  induction l with
  | nil => exact ⟨[], rfl⟩
  | cons a l ih =>
    obtain ⟨b, hb⟩ := h a List.mem_cons_self
    obtain ⟨bs, hbs⟩ := ih fun a' ha' => h a' (List.mem_cons_of_mem a ha')
    exact ⟨b :: bs, by rw [List.mapM_cons, hb, hbs]; rfl⟩

theorem atoms_of_plainDollarProblems (h : plainDollarProblems text = []) : ∃ as, atoms text = some as := by
  refine exists_mapM fun token htoken => ?_
  have hproblems := List.flatMap_eq_nil_iff.mp h token htoken
  cases token with
  | char c => exact ⟨_, rfl⟩
  | dollar => exact ⟨_, rfl⟩
  | other c => cases hproblems
  | unterminated => cases hproblems
  | group bracket inner =>
    by_cases hident : isIdent inner = true
    · exact ⟨_, if_pos hident⟩
    · simp [tokenProblems, hident] at hproblems

/-- What the grammar accepts, in a recipe or as a value, is made of pieces that the model expands. -/
theorem pieces_of_dollarProblems {allowShell : Bool} (h : dollarProblems text allowShell = []) :
    ∃ ps, pieces text = some ps := by
  refine exists_mapM fun token htoken => ?_
  have hproblems := List.flatMap_eq_nil_iff.mp h token htoken
  cases token with
  | char c => exact ⟨_, rfl⟩
  | dollar => exact ⟨_, rfl⟩
  | other c => cases hproblems
  | unterminated => cases hproblems
  | group bracket inner =>
    by_cases hident : isIdent inner = true
    · exact ⟨_, if_pos hident⟩
    · by_cases hbracket : (bracket == '(') = true
      · rw [Token.piece?, if_neg hident, if_pos hbracket]
        cases hshell : shellText? inner with
        | none => cases allowShell <;> simp [tokenProblems, hident, hbracket, hshell] at hproblems
        | some command =>
          cases allowShell with
          | false => simp [tokenProblems, hident] at hproblems
          | true =>
            simp only [tokenProblems, hident, hbracket, hshell, if_true, Bool.false_eq_true, if_false] at hproblems
            obtain ⟨as, has⟩ := atoms_of_plainDollarProblems hproblems
            exact ⟨.shell as, by rw [Option.bind_some, has]; rfl⟩
      · cases allowShell <;> simp [tokenProblems, hident, hbracket] at hproblems

/-- Environments that the anchor accepts, and that agree on the names that make defines, give every recipe line the
same expansion, whatever the shell prints. -/
def NonInterfering (text : Str) : Prop :=
  ∀ shell env env', checkEnvironmentOverrides text env = true → checkEnvironmentOverrides text env' = true →
    (∀ name ∈ makeBuiltinVars, env name = env' name) →
      ∀ line ∈ recipeTexts text, ∀ result, Expands shell env text line result ↔ Expands shell env' text line result

theorem refused_of_check {env : Env} (h : checkEnvironmentOverrides text env = true) :
    ∀ name ∈ fromEnv (makefileLines text), env name = none := by
  intro name hname
  have hnone := List.all_eq_true.mp h name hname
  exact Option.isNone_iff_eq_none.mp hnone

/-- In an environment that the anchor accepts an expansion is the value of the term. -/
theorem expands_iff (hok : grammarProblems isFormat text = []) {shell : Str → Str} {env : Env}
    (henv : checkEnvironmentOverrides text env = true) {line result : Str} :
    Expands shell env text line result ↔
      ∃ n t, termAlgebra.recipe (fun _ => false) n (assigns (makefileLines text)) line = some t ∧
        (textAlgebra shell env).eval t = result := by
  have hset : ∀ a ∈ assigns (makefileLines text), a.op = .conditional → isIdent a.name = true →
      (env a.name).isSome = false := by
    intro a ha hop hident
    rw [refused_of_check henv a.name (conditional_mem_fromEnv hok ha hop hident)]
    rfl
  have hrecipe : ∀ n, (textAlgebra shell env).recipe (fun name => (env name).isSome) n (assigns (makefileLines text))
      line = (termAlgebra.recipe (fun _ => false) n (assigns (makefileLines text)) line).map
        (textAlgebra shell env).eval := by
    intro n
    have hfalse : (textAlgebra shell env).recipe (fun name => (env name).isSome) n (assigns (makefileLines text)) line =
        (textAlgebra shell env).recipe (fun _ => false) n (assigns (makefileLines text)) line :=
      Algebra.recipe_congr hset line
    rw [hfalse, Algebra.recipe_eval]
  constructor
  · rintro ⟨n, hn⟩
    rw [hrecipe] at hn
    obtain ⟨t, ht, heval⟩ := Option.map_eq_some_iff.mp hn
    exact ⟨n, t, ht, heval⟩
  · rintro ⟨n, t, ht, heval⟩
    refine ⟨n, ?_⟩
    rw [hrecipe, ht, Option.map_some, heval]

/-- The environment cannot change a recipe exactly if each name that is taken from it for one is a name that the lines
show to come from there, or one that make defines. -/
theorem nonInterfering_iff (hok : grammarProblems isFormat text = []) :
    NonInterfering text ↔
      ∀ line ∈ recipeTexts text, ∀ name, EnvReads text line name →
        ShownFromEnv (makefileLines text) name ∨ name ∈ makeBuiltinVars := by
  constructor
  · intro hnon line hline name ⟨n, t, ht, hname⟩
    by_contra hmissed
    rw [not_or] at hmissed
    have hrefused : name ∉ fromEnv (makefileLines text) := fun h => hmissed.1 ((mem_fromEnv_iff _ hmissed.2).mp h)
    have hempty : checkEnvironmentOverrides text emptyEnv = true := List.all_eq_true.mpr fun _ _ => rfl
    have hone : checkEnvironmentOverrides text (oneEnv name) = true := by
      refine List.all_eq_true.mpr fun name' hname' => ?_
      have hne : name' ≠ name := fun heq => hrefused (heq ▸ hname')
      rw [oneEnv, if_neg hne]
      rfl
    have hagree : ∀ name' ∈ makeBuiltinVars, emptyEnv name' = oneEnv name name' := by
      intro name' hname'
      have hne : name' ≠ name := fun heq => hmissed.2 (heq ▸ hname')
      rw [oneEnv, if_neg hne, emptyEnv]
    have hexpands : Expands id emptyEnv text line ((textAlgebra id emptyEnv).eval t) :=
      (expands_iff hok hempty).mpr ⟨n, t, ht, rfl⟩
    have hsame := (hnon id emptyEnv (oneEnv name) hempty hone hagree line hline _).mp hexpands
    obtain ⟨m, t', ht', heval⟩ := (expands_iff hok hone).mp hsame
    rw [Algebra.recipe_unique ht' ht] at heval
    have hlength := length_eval_oneEnv name t
    rw [heval] at hlength
    have hcount : 0 < t.names.count name := List.count_pos_iff.mpr hname
    omega
  · intro hreads shell env env' henv henv' hagree line hline result
    rw [expands_iff hok henv, expands_iff hok henv']
    have hsame : ∀ n t, termAlgebra.recipe (fun _ => false) n (assigns (makefileLines text)) line = some t →
        (textAlgebra shell env).eval t = (textAlgebra shell env').eval t := by
      intro n t ht
      refine eval_congr fun name hname => ?_
      by_cases hbuiltin : name ∈ makeBuiltinVars
      · exact hagree name hbuiltin
      · have hshown := (hreads line hline name ⟨n, t, ht, hname⟩).resolve_right hbuiltin
        have hrefused := (mem_fromEnv_iff _ hbuiltin).mpr hshown
        rw [refused_of_check henv name hrefused, refused_of_check henv' name hrefused]
    constructor
    · rintro ⟨n, t, ht, heval⟩
      exact ⟨n, t, ht, (hsame n t ht).symm.trans heval⟩
    · rintro ⟨n, t, ht, heval⟩
      exact ⟨n, t, ht, (hsame n t ht).trans heval⟩

/-- A makefile whose recipe uses only a variable that it assigns. -/
def ownText : Str := str "GO = go\nx:\n\t$(GO) test $$HOME\n"

theorem nonInterfering_iff_ownText :
    grammarProblems (fun _ => false) ownText = [] ∧ NonInterfering ownText := by
  have hok : grammarProblems (fun _ => false) ownText = [] := by decide +kernel
  refine ⟨hok, (nonInterfering_iff hok).mpr ?_⟩
  intro line hline name ⟨n, t, ht, hname⟩
  have hlines : recipeTexts ownText = [str "\t$(GO) test $$HOME"] := by decide +kernel
  rw [hlines, List.mem_singleton] at hline
  subst hline
  obtain ⟨u, hu, hnames⟩ : ∃ u, termAlgebra.recipe (fun _ => false) 2 (assigns (makefileLines ownText))
      (str "\t$(GO) test $$HOME") = some u ∧ u.names = [] := ⟨_, rfl, rfl⟩
  rw [Algebra.recipe_unique ht hu, hnames] at hname
  cases hname

/-- A recipe line that looks like an assignment of the variable it uses. -/
def shellAssignText : Str := str "x:\n\tFOO=1; $(FOO)\n"

/-- The anchor takes `FOO` to be assigned, and make takes it from the environment. -/
theorem shellAssign_interferes :
    (∀ isFormat, grammarProblems isFormat shellAssignText = []) ∧ ¬ NonInterfering shellAssignText := by
  refine ⟨fun _ => rfl, fun hnon => ?_⟩
  have hempty : checkEnvironmentOverrides shellAssignText emptyEnv = true := by decide +kernel
  have hone : checkEnvironmentOverrides shellAssignText (oneEnv (str "FOO")) = true := by decide +kernel
  have hagree : ∀ name ∈ makeBuiltinVars, emptyEnv name = oneEnv (str "FOO") name := by decide +kernel
  have hline : str "\tFOO=1; $(FOO)" ∈ recipeTexts shellAssignText := by decide +kernel
  have hexpands : Expands id emptyEnv shellAssignText (str "\tFOO=1; $(FOO)") (str "\tFOO=1; ") := ⟨1, rfl⟩
  obtain ⟨n, hn⟩ := (hnon id emptyEnv (oneEnv (str "FOO")) hempty hone hagree _ hline _).mp hexpands
  have hx : (textAlgebra id (oneEnv (str "FOO"))).recipe (fun name => (oneEnv (str "FOO") name).isSome) 1
      (assigns (makefileLines shellAssignText)) (str "\tFOO=1; $(FOO)") = some (str "\tFOO=1; x") := rfl
  have heq := Algebra.recipe_unique hn hx
  revert heq
  decide

end Vizra.Makefile
