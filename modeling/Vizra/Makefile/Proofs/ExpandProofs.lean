import Vizra.Makefile.Semantics

/-!
# Expansion without the environment

The term of an expansion is what make does whatever the environment holds: every expansion is the value of the term.
More definitions that are followed do not change an expansion, and the names that the environment sets only matter
where `?=` assigns them.
-/

namespace Vizra.Makefile

open Py

section Lists

variable {α β γ : Type}

theorem mapM_eq_map {f : α → Option β} {f' : α → Option γ} {g : β → γ} {l : List α}
    (h : ∀ a ∈ l, f' a = (f a).map g) : l.mapM f' = (l.mapM f).map (List.map g) := by
  induction l with
  | nil => rfl
  | cons a l ih =>
    have hrest := ih fun b hb => h b (List.mem_cons_of_mem _ hb)
    rw [List.mapM_cons, List.mapM_cons, h a List.mem_cons_self, hrest]
    cases f a with
    | none => rfl
    | some b =>
      cases l.mapM f with
      | none => rfl
      | some bs => rfl

theorem mapM_mono {f f' : α → Option β} {l : List α} (h : ∀ a ∈ l, ∀ b, f a = some b → f' a = some b)
    {bs : List β} (hbs : l.mapM f = some bs) : l.mapM f' = some bs := by
  induction l generalizing bs with
  | nil => exact hbs
  | cons a l ih =>
    rw [List.mapM_cons] at hbs ⊢
    obtain ⟨b, hb, hrest⟩ := Option.bind_eq_some_iff.mp hbs
    obtain ⟨bs', hbs', heq⟩ := Option.bind_eq_some_iff.mp hrest
    rw [h a List.mem_cons_self b hb, ih (fun c hc => h c (List.mem_cons_of_mem _ hc)) hbs']
    exact heq

theorem mapM_congr {f f' : α → Option β} {l : List α} (h : ∀ a ∈ l, f a = f' a) : l.mapM f = l.mapM f' := by
  induction l with
  | nil => rfl
  | cons a l ih =>
    rw [List.mapM_cons, List.mapM_cons, h a List.mem_cons_self, ih fun b hb => h b (List.mem_cons_of_mem _ hb)]

theorem mem_of_mapM {f : α → Option β} {l : List α} {bs : List β} (h : l.mapM f = some bs) {b : β} (hb : b ∈ bs) :
    ∃ a ∈ l, f a = some b := by
  induction l generalizing bs with
  | nil =>
    cases h
    cases hb
  | cons a l ih =>
    rw [List.mapM_cons] at h
    obtain ⟨b', hb', hrest⟩ := Option.bind_eq_some_iff.mp h
    obtain ⟨bs', hbs', heq⟩ := Option.bind_eq_some_iff.mp hrest
    cases heq
    rcases List.mem_cons.mp hb with rfl | hb
    · exact ⟨a, List.mem_cons_self, hb'⟩
    · obtain ⟨a', ha', hfa'⟩ := ih hbs' hb
      exact ⟨a', List.mem_cons_of_mem _ ha', hfa'⟩

end Lists

/-! ## The value of a term -/

namespace Algebra

variable {α : Type} (A : Algebra α)

def eval : Term → α
  | .nil => A.nil
  | .append a b => A.append (eval a) (eval b)
  | .char c => A.char c
  | .env name => A.env name
  | .shell t => A.shell (eval t)

def evalDef : Def Term → Def α
  | .simple t => .simple (A.eval t)
  | .recursive text => .recursive text

def evalVars (vars : Vars Term) : Vars α := fun name => (vars name).map A.evalDef

theorem eval_concat (ts : List Term) : A.eval (termAlgebra.concat ts) = A.concat (ts.map A.eval) := by
  induction ts with
  | nil => rfl
  | cons t ts ih =>
    rw [List.map_cons, concat, concat, ← ih]
    rfl

variable {A}
variable {use use' : Str → Option α} {vars vars' : Vars α} {v : α} {n : Nat} {set : Str → Bool} {as : List Assign}

theorem atomValue_eval {use : Str → Option Term} (h : ∀ text, use' text = (use text).map A.eval) (vars : Vars Term)
    (a : Atom) : A.atomValue use' (A.evalVars vars) a = (termAlgebra.atomValue use vars a).map A.eval := by
  cases a with
  | char c => rfl
  | ref name =>
    simp only [atomValue, evalVars]
    cases vars name with
    | none => rfl
    | some d =>
      cases d with
      | simple t => rfl
      | recursive text => exact h text

theorem pieceValue_eval {use : Str → Option Term} (h : ∀ text, use' text = (use text).map A.eval) (vars : Vars Term)
    (p : Piece) : A.pieceValue use' (A.evalVars vars) p = (termAlgebra.pieceValue use vars p).map A.eval := by
  cases p with
  | atom a => exact atomValue_eval h vars a
  | shell text =>
    rw [pieceValue, pieceValue, mapM_eq_map fun a _ => atomValue_eval h vars a, Option.map_map, Option.map_map]
    congr 1
    funext ts
    exact congrArg A.shell (A.eval_concat ts).symm

theorem expand_eval (n : Nat) (vars : Vars Term) (text : Str) :
    A.expand n (A.evalVars vars) text = (termAlgebra.expand n vars text).map A.eval := by
  induction n generalizing text with
  | zero => rfl
  | succ n ih =>
    rw [expand, expand]
    cases pieces text with
    | none => rfl
    | some ps =>
      rw [Option.bind_some, Option.bind_some, mapM_eq_map fun p _ => pieceValue_eval ih vars p, Option.map_map,
        Option.map_map]
      congr 1
      funext ts
      exact (A.eval_concat ts).symm

theorem evalVars_update (vars : Vars Term) (name : Str) (d : Def Term) :
    A.evalVars (Function.update vars name (some d)) = Function.update (A.evalVars vars) name (some (A.evalDef d)) := by
  funext name'
  by_cases h : name' = name
  · subst h
    simp only [evalVars, Function.update_self, Option.map_some]
  · simp only [evalVars, Function.update_of_ne h]

theorem assign_eval (set : Str → Bool) (n : Nat) (vars : Vars Term) (a : Assign) :
    A.assign set n (A.evalVars vars) a = (termAlgebra.assign set n vars a).map A.evalVars := by
  cases hop : a.op with
  | simple =>
    simp only [assign, hop, expand_eval, Option.map_map]
    congr 1
    funext t
    exact (evalVars_update vars a.name (.simple t)).symm
  | recursive =>
    simp only [assign, hop, Option.map_some]
    exact congrArg some (evalVars_update vars a.name (.recursive a.value)).symm
  | conditional =>
    have hset : (A.evalVars vars a.name).isSome = (vars a.name).isSome := by
      rw [evalVars, Option.isSome_map]
    simp only [assign, hop, hset]
    split
    · rfl
    · exact congrArg some (evalVars_update vars a.name (.recursive a.value)).symm

theorem foldlM_eval (set : Str → Bool) (n : Nat) (as : List Assign) (vars : Vars Term) :
    as.foldlM (A.assign set n) (A.evalVars vars) = (as.foldlM (termAlgebra.assign set n) vars).map A.evalVars := by
  induction as generalizing vars with
  | nil => rfl
  | cons a as ih =>
    rw [List.foldlM_cons, List.foldlM_cons, assign_eval]
    cases termAlgebra.assign set n vars a with
    | none => rfl
    | some vars' => exact ih vars'

/-- The expansion of a recipe line is the value of its term. -/
theorem recipe_eval (set : Str → Bool) (n : Nat) (as : List Assign) (line : Str) :
    A.recipe set n as line = (termAlgebra.recipe set n as line).map A.eval := by
  have hread : A.readVars set n as = (termAlgebra.readVars set n as).map A.evalVars :=
    foldlM_eval set n as fun _ => none
  rw [recipe, recipe, hread]
  cases termAlgebra.readVars set n as with
  | none => rfl
  | some vars => exact expand_eval n vars line

/-! ## More definitions -/

theorem atomValue_mono (h : ∀ text v, use text = some v → use' text = some v) {a : Atom}
    (hv : A.atomValue use vars a = some v) : A.atomValue use' vars a = some v := by
  cases a with
  | char c => exact hv
  | ref name =>
    simp only [atomValue] at hv ⊢
    cases hname : vars name with
    | none =>
      rw [hname] at hv
      exact hv
    | some d =>
      rw [hname] at hv
      cases d with
      | simple value => exact hv
      | recursive text => exact h text v hv

theorem pieceValue_mono (h : ∀ text v, use text = some v → use' text = some v) {p : Piece}
    (hv : A.pieceValue use vars p = some v) : A.pieceValue use' vars p = some v := by
  cases p with
  | atom a => exact atomValue_mono h hv
  | shell text =>
    rw [pieceValue] at hv ⊢
    obtain ⟨vs, hvs, heq⟩ := Option.map_eq_some_iff.mp hv
    rw [mapM_mono (fun a _ v' hv' => atomValue_mono h hv') hvs, Option.map_some, heq]

theorem expand_succ {text : Str} (h : A.expand n vars text = some v) : A.expand (n + 1) vars text = some v := by
  induction n generalizing text v with
  | zero => cases h
  | succ n ih =>
    rw [expand] at h ⊢
    obtain ⟨ps, hps, hvalue⟩ := Option.bind_eq_some_iff.mp h
    obtain ⟨vs, hvs, heq⟩ := Option.map_eq_some_iff.mp hvalue
    rw [hps, Option.bind_some, mapM_mono (fun p _ v' hv' => pieceValue_mono (fun _ _ => ih) hv') hvs, Option.map_some,
      heq]

theorem assign_succ {a : Assign} (h : A.assign set n vars a = some vars') :
    A.assign set (n + 1) vars a = some vars' := by
  cases hop : a.op with
  | simple =>
    simp only [assign, hop] at h ⊢
    obtain ⟨v, hv, heq⟩ := Option.map_eq_some_iff.mp h
    rw [expand_succ hv, Option.map_some, heq]
  | recursive =>
    simp only [assign, hop] at h ⊢
    exact h
  | conditional =>
    simp only [assign, hop] at h ⊢
    exact h

theorem foldlM_succ (h : as.foldlM (A.assign set n) vars = some vars') :
    as.foldlM (A.assign set (n + 1)) vars = some vars' := by
  induction as generalizing vars with
  | nil => exact h
  | cons a as ih =>
    rw [List.foldlM_cons] at h ⊢
    obtain ⟨vars1, hvars1, hrest⟩ := Option.bind_eq_some_iff.mp h
    rw [assign_succ hvars1]
    exact ih hrest

theorem recipe_succ {line : Str} (h : A.recipe set n as line = some v) : A.recipe set (n + 1) as line = some v := by
  obtain ⟨vars, hvars, hv⟩ := Option.bind_eq_some_iff.mp h
  have hvars' : A.readVars set (n + 1) as = some vars := foldlM_succ hvars
  rw [recipe, hvars']
  exact expand_succ hv

theorem recipe_mono {m : Nat} (hnm : n ≤ m) {line : Str} (h : A.recipe set n as line = some v) :
    A.recipe set m as line = some v := by
  induction hnm with
  | refl => exact h
  | step _ ih => exact recipe_succ ih

/-- A recipe line has one expansion. -/
theorem recipe_unique {m : Nat} {line : Str} {w : α} (hv : A.recipe set n as line = some v)
    (hw : A.recipe set m as line = some w) : v = w := by
  have hv' := recipe_mono (Nat.le_max_left n m) hv
  have hw' := recipe_mono (Nat.le_max_right n m) hw
  exact Option.some.inj (hv'.symm.trans hw')

/-! ## Names that can be referred to -/

/-- A part of a text refers to identifiers only. -/
def refersToIdents : Atom → Prop
  | .char _ => True
  | .ref name => isIdent name = true

theorem refersToIdents_of_atoms {text : Str} {as : List Atom} (h : atoms text = some as) :
    ∀ a ∈ as, refersToIdents a := by
  intro a ha
  obtain ⟨token, -, htoken⟩ := mem_of_mapM h ha
  cases token with
  | char c =>
    cases htoken
    trivial
  | dollar =>
    cases htoken
    trivial
  | other c => cases htoken
  | unterminated => cases htoken
  | group bracket inner =>
    rw [Token.atom?] at htoken
    split at htoken
    · rename_i hident
      cases htoken
      exact hident
    · cases htoken

/-- The variables agree where a text can refer to them. -/
def AgreeOnIdents (vars vars' : Vars α) : Prop := ∀ name, isIdent name = true → vars name = vars' name

theorem atomValue_congr (huse : ∀ text, use text = use' text) (h : AgreeOnIdents vars vars') {a : Atom}
    (ha : refersToIdents a) : A.atomValue use vars a = A.atomValue use' vars' a := by
  cases a with
  | char c => rfl
  | ref name =>
    simp only [atomValue, h name ha]
    cases vars' name with
    | none => rfl
    | some d =>
      cases d with
      | simple value => rfl
      | recursive text => exact huse text

/-- A token that is read as a piece: its value depends on the identifiers only. -/
theorem pieceValue_congr (huse : ∀ text, use text = use' text) (h : AgreeOnIdents vars vars') {token : Token}
    {p : Piece} (hp : token.piece? = some p) : A.pieceValue use vars p = A.pieceValue use' vars' p := by
  cases token with
  | char c =>
    cases hp
    rfl
  | dollar =>
    cases hp
    rfl
  | other c => cases hp
  | unterminated => cases hp
  | group bracket inner =>
    rw [Token.piece?] at hp
    by_cases hident : isIdent inner = true
    · rw [if_pos hident] at hp
      cases hp
      have href : refersToIdents (.ref inner) := hident
      exact atomValue_congr huse h href
    · rw [if_neg hident] at hp
      split at hp
      · obtain ⟨as, has, heq⟩ := Option.map_eq_some_iff.mp hp
        obtain ⟨text, -, hatoms⟩ := Option.bind_eq_some_iff.mp has
        subst heq
        rw [pieceValue, pieceValue,
          mapM_congr fun a ha => atomValue_congr huse h (refersToIdents_of_atoms hatoms a ha)]
      · cases hp

theorem expand_congr (h : AgreeOnIdents vars vars') (n : Nat) (text : Str) :
    A.expand n vars text = A.expand n vars' text := by
  induction n generalizing text with
  | zero => rfl
  | succ n ih =>
    rw [expand, expand]
    cases hps : pieces text with
    | none => rfl
    | some ps =>
      have hvalues : ps.mapM (A.pieceValue (A.expand n vars) vars) = ps.mapM (A.pieceValue (A.expand n vars') vars') := by
        refine mapM_congr fun p hp => ?_
        obtain ⟨token, -, htoken⟩ := mem_of_mapM hps hp
        exact pieceValue_congr ih h htoken
      rw [Option.bind_some, Option.bind_some, hvalues]

theorem AgreeOnIdents.update (h : AgreeOnIdents vars vars') (name : Str) (d : Option (Def α)) :
    AgreeOnIdents (Function.update vars name d) (Function.update vars' name d) := by
  intro name' hident
  by_cases heq : name' = name
  · subst heq
    rw [Function.update_self, Function.update_self]
  · rw [Function.update_of_ne heq, Function.update_of_ne heq]
    exact h name' hident

/-- What the environment sets matters where `?=` assigns an identifier. -/
theorem assign_congr {set' : Str → Bool} (h : AgreeOnIdents vars vars') {a : Assign}
    (hset : a.op = .conditional → isIdent a.name = true → set a.name = set' a.name) :
    Option.Rel AgreeOnIdents (A.assign set n vars a) (A.assign set' n vars' a) := by
  cases hop : a.op with
  | simple =>
    simp only [assign, hop, expand_congr h]
    cases A.expand n vars' a.value with
    | none => exact .none
    | some value => exact .some (h.update a.name _)
  | recursive =>
    simp only [assign, hop]
    exact .some (h.update a.name _)
  | conditional =>
    simp only [assign, hop]
    by_cases hident : isIdent a.name = true
    · rw [h a.name hident, hset hop hident]
      split
      · exact .some h
      · exact .some (h.update a.name _)
    · have hupdate : ∀ (v : Vars α) (d : Option (Def α)), AgreeOnIdents (Function.update v a.name d) v := by
        intro v d name hname
        have hne : name ≠ a.name := by
          intro heq
          rw [heq] at hname
          exact hident hname
        rw [Function.update_of_ne hne]
      split
      · split
        · exact .some h
        · exact .some fun name hname => (h name hname).trans (hupdate _ _ name hname).symm
      · split
        · exact .some fun name hname => (hupdate _ _ name hname).trans (h name hname)
        · exact .some (h.update a.name _)

theorem foldlM_congr {set' : Str → Bool}
    (hset : ∀ a ∈ as, a.op = .conditional → isIdent a.name = true → set a.name = set' a.name)
    (h : AgreeOnIdents vars vars') :
    Option.Rel AgreeOnIdents (as.foldlM (A.assign set n) vars) (as.foldlM (A.assign set' n) vars') := by
  induction as generalizing vars vars' with
  | nil => exact .some h
  | cons a as ih =>
    rw [List.foldlM_cons, List.foldlM_cons]
    have hone := assign_congr (A := A) (n := n) h (hset a List.mem_cons_self)
    generalize A.assign set n vars a = x at hone
    generalize A.assign set' n vars' a = y at hone
    cases hone with
    | none => exact .none
    | some hvars => exact ih (fun b hb => hset b (List.mem_cons_of_mem _ hb)) hvars

theorem recipe_congr {set' : Str → Bool}
    (hset : ∀ a ∈ as, a.op = .conditional → isIdent a.name = true → set a.name = set' a.name) (line : Str) :
    A.recipe set n as line = A.recipe set' n as line := by
  have hread : Option.Rel AgreeOnIdents (A.readVars set n as) (A.readVars set' n as) :=
    foldlM_congr hset fun _ _ => rfl
  rw [recipe, recipe]
  generalize A.readVars set n as = x at hread
  generalize A.readVars set' n as = y at hread
  cases hread with
  | none => rfl
  | some hvars => exact expand_congr hvars n line

end Algebra

end Vizra.Makefile
