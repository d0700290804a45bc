import Vizra.PyStd.Str
import Vizra.Report.Basic

/-!
# Python's `shlex`

The tokeniser with `posix=True`, `punctuation_chars=True`, `whitespace_split=True` and `#` as the only comment
character, and where the tokens of a text without quotes, escapes and comments stand in it.
-/

namespace Py

inductive LexError where
  | noClosingQuotation
  | noEscapedCharacter
deriving DecidableEq

/-- The states of `read_token`. -/
inductive LexState where
  | gap
  | comment
  | word
  | punct
  | quote (q : Char)
  /-- behind a backslash, inside the quotes `q` if there are any -/
  | escape (q : Option Char)

def isLexSpace (c : Char) : Bool := (str " \t\r\n").contains c

def isPunctuation (c : Char) : Bool := (str "();<>|&").contains c

def isQuote (c : Char) : Bool := c == '\'' || c == '"'

/-- The state and the token behind the first character of a token. -/
def lexStart (c : Char) : LexState × Str :=
  if c == '\\' then (.escape none, [])
  else if isPunctuation c then (.punct, [c])
  else if isQuote c then (.quote c, [])
  else (.word, [c])

/-- The tokens from a state and the token that is being read. -/
def shlexFrom : LexState → Str → Str → Except LexError (List Str)
  | .gap, _, [] => pure []
  | .gap, _, c :: s =>
    if isLexSpace c then shlexFrom .gap [] s
    else if c == '#' then shlexFrom .comment [] s
    else shlexFrom (lexStart c).1 (lexStart c).2 s
  | .comment, _, [] => pure []
  | .comment, _, c :: s => if c == '\n' then shlexFrom .gap [] s else shlexFrom .comment [] s
  | .quote _, _, [] => throw .noClosingQuotation
  | .quote q, token, c :: s =>
    if c == q then shlexFrom .word token s
    else if c == '\\' && q == '"' then shlexFrom (.escape (some q)) token s
    else shlexFrom (.quote q) (token ++ [c]) s
  | .escape _, _, [] => throw .noEscapedCharacter
  | .escape none, token, c :: s => shlexFrom .word (token ++ [c]) s
  | .escape (some q), token, c :: s =>
    -- only the quote itself and the backslash are escaped within quotes
    shlexFrom (.quote q) (token ++ if c != '\\' && c != q then ['\\', c] else [c]) s
  | .word, token, [] => pure [token]
  | .word, token, c :: s =>
    if isLexSpace c then (token :: ·) <$> shlexFrom .gap [] s
    else if c == '#' then (token :: ·) <$> shlexFrom .comment [] s
    else if isQuote c then shlexFrom (.quote c) token s
    else if c == '\\' then shlexFrom (.escape none) token s
    else if !isPunctuation c then shlexFrom .word (token ++ [c]) s
    else (token :: ·) <$> shlexFrom .punct [c] s
  | .punct, token, [] => pure [token]
  | .punct, token, c :: s =>
    if isLexSpace c then (token :: ·) <$> shlexFrom .gap [] s
    else if c == '#' then (token :: ·) <$> shlexFrom .comment [] s
    else if isPunctuation c then shlexFrom .punct (token ++ [c]) s
    else (token :: ·) <$> shlexFrom (lexStart c).1 (lexStart c).2 s

/-- `list(lex)`. -/
def shlex (s : Str) : Except LexError (List Str) := shlexFrom .gap [] s

example : shlex (str "bash -c \"make -i ci\";(x)#c") =
    .ok [str "bash", str "-c", str "make -i ci", str ";(", str "x", str ")"] := by rfl

/-! ## Texts without quotes -/

/-- White space or punctuation. -/
def isLexEdge (c : Char) : Bool := isLexSpace c || isPunctuation c

/-- No quote, no escape and no start of a comment. -/
def isUnquoted (c : Char) : Bool := !isQuote c && c != '\\' && c != '#'

/-- What the state says about the token `tok`, where `pre` is the text in front of it. -/
inductive Reading : LexState → Str → Str → Prop where
  | gap {pre : Str} (hpre : ∀ c ∈ pre.getLast?, isLexEdge c = true) : Reading .gap pre []
  | word {pre tok : Str} (hpre : ∀ c ∈ pre.getLast?, isLexEdge c = true) (hne : tok ≠ [])
      (htok : ∀ c ∈ tok, isLexEdge c = false) : Reading .word pre tok
  | punct {pre tok : Str} (hne : tok ≠ []) (htok : ∀ c ∈ tok, isPunctuation c = true) : Reading .punct pre tok

/-- A token of a text: punctuation, or a word of its own. -/
def IsToken (t s : Str) : Prop :=
  (∀ c ∈ t, isPunctuation c = true) ∨ ((∀ c ∈ t, isLexEdge c = false) ∧ Stands isLexEdge isLexEdge t s)

theorem isLexEdge_of_isLexSpace {c : Char} (h : isLexSpace c = true) : isLexEdge c = true := by
  rw [isLexEdge, h, Bool.true_or]

theorem isLexEdge_of_isPunctuation {c : Char} (h : isPunctuation c = true) : isLexEdge c = true := by
  rw [isLexEdge, h, Bool.or_true]

theorem getLast?_concat_edge {u : Str} {c : Char} (h : isLexEdge c = true) :
    ∀ d ∈ (u ++ [c]).getLast?, isLexEdge d = true := by
  intro d hd
  rw [List.getLast?_concat] at hd
  rwa [← Option.some.inj hd]

theorem Reading.start {c : Char} {pre : Str} (hc : isUnquoted c = true) (hspace : isLexSpace c = false)
    (hpre : ∀ c ∈ pre.getLast?, isLexEdge c = true) : (lexStart c).2 = [c] ∧ Reading (lexStart c).1 pre [c] := by
  simp only [isUnquoted, Bool.and_eq_true, Bool.not_eq_true', bne_iff_ne, ne_eq] at hc
  obtain ⟨⟨hquote, hescape⟩, -⟩ := hc
  unfold lexStart
  rw [if_neg (by simpa using hescape)]
  by_cases hpunct : isPunctuation c = true
  · rw [if_pos hpunct]
    refine ⟨rfl, .punct (List.cons_ne_nil _ _) ?_⟩
    intro d hd
    rwa [List.mem_singleton.mp hd]
  · rw [if_neg hpunct, hquote, if_neg Bool.false_ne_true]
    refine ⟨rfl, .word hpre (List.cons_ne_nil _ _) ?_⟩
    intro d hd
    rw [Bool.not_eq_true] at hpunct
    rw [List.mem_singleton.mp hd, isLexEdge, hspace, hpunct]
    rfl

/-- The tokens of a text without quotes are its words and its punctuation. -/
theorem isToken_of_mem_shlexFrom {state : LexState} {pre tok s : Str} {toks : List Str} (hread : Reading state pre tok)
    (hs : ∀ c ∈ s, isUnquoted c = true) (h : shlexFrom state tok s = .ok toks) {t : Str} (ht : t ∈ toks) :
    IsToken t (pre ++ (tok ++ s)) := by
  induction s generalizing state pre tok toks with
  | nil =>
    cases hread with
    | gap hpre =>
      rw [← Except.ok.inj h] at ht
      cases ht
    | word hpre hne htok =>
      rw [← Except.ok.inj h, List.mem_singleton] at ht
      subst ht
      exact Or.inr ⟨htok, pre, [], rfl, hpre, nofun⟩
    | punct hne htok =>
      rw [← Except.ok.inj h, List.mem_singleton] at ht
      subst ht
      exact Or.inl htok
  | cons c s ih =>
    have hc : isUnquoted c = true := hs c List.mem_cons_self
    have hs' : ∀ c ∈ s, isUnquoted c = true := fun d hd => hs d (List.mem_cons_of_mem _ hd)
    have hparts := hc
    simp only [isUnquoted, Bool.and_eq_true, Bool.not_eq_true', bne_iff_ne, ne_eq] at hparts
    obtain ⟨⟨hquote, hescape⟩, hcomment⟩ := hparts
    have hcomment' : ¬ (c == '#') = true := by simpa using hcomment
    have hescape' : ¬ (c == '\\') = true := by simpa using hescape
    -- behind the edge `c` no token is being read
    have hgap : isLexEdge c = true → ∀ {u : Str} {toks : List Str}, shlexFrom .gap [] s = .ok toks → t ∈ toks →
        IsToken t (u ++ c :: s) := by
      intro hedge u toks h ht
      have hread : Reading .gap (u ++ [c]) [] := .gap (getLast?_concat_edge hedge)
      have htoken := ih hread hs' h ht
      rwa [List.nil_append, List.append_assoc] at htoken
    cases hread with
    | gap hpre =>
      rw [shlexFrom] at h
      by_cases hspace : isLexSpace c = true
      · rw [if_pos hspace] at h
        exact hgap (isLexEdge_of_isLexSpace hspace) h ht
      · rw [if_neg hspace, if_neg hcomment'] at h
        obtain ⟨htok, hread⟩ := Reading.start hc (Bool.not_eq_true _ ▸ hspace) hpre
        rw [htok] at h
        exact ih hread hs' h ht
    | word hpre hne htok =>
      have hself : isLexEdge c = true → IsToken tok (pre ++ (tok ++ c :: s)) := by
        intro hedge
        refine Or.inr ⟨htok, pre, c :: s, rfl, hpre, ?_⟩
        rintro d ⟨⟩
        exact hedge
      rw [shlexFrom] at h
      by_cases hspace : isLexSpace c = true
      · have hedge := isLexEdge_of_isLexSpace hspace
        rw [if_pos hspace, Report.fmap_eq_ok] at h
        obtain ⟨toks', h, rfl⟩ := h
        rcases List.mem_cons.mp ht with rfl | ht
        · exact hself hedge
        · rw [← List.append_assoc]
          exact hgap hedge h ht
      · rw [if_neg hspace, if_neg hcomment', hquote, if_neg Bool.false_ne_true, if_neg hescape'] at h
        by_cases hpunct : isPunctuation c = true
        · rw [hpunct, Bool.not_true, if_neg Bool.false_ne_true, Report.fmap_eq_ok] at h
          obtain ⟨toks', h, rfl⟩ := h
          rcases List.mem_cons.mp ht with rfl | ht
          · exact hself (isLexEdge_of_isPunctuation hpunct)
          · have hread : Reading .punct (pre ++ tok) [c] :=
              .punct (List.cons_ne_nil _ _) (List.forall_mem_singleton.mpr hpunct)
            have htoken := ih hread hs' h ht
            rwa [List.append_assoc] at htoken
        · rw [Bool.not_eq_true] at hspace hpunct
          rw [hpunct, Bool.not_false, if_pos rfl] at h
          have hread : Reading .word pre (tok ++ [c]) := by
            refine .word hpre (List.append_ne_nil_of_left_ne_nil hne _) ?_
            rw [List.forall_mem_append, List.forall_mem_singleton, isLexEdge, hspace, hpunct]
            exact ⟨htok, rfl⟩
          have htoken := ih hread hs' h ht
          rwa [List.append_assoc] at htoken
    | punct hne htok =>
      rw [shlexFrom] at h
      by_cases hspace : isLexSpace c = true
      · rw [if_pos hspace, Report.fmap_eq_ok] at h
        obtain ⟨toks', h, rfl⟩ := h
        rcases List.mem_cons.mp ht with rfl | ht
        · exact Or.inl htok
        · rw [← List.append_assoc]
          exact hgap (isLexEdge_of_isLexSpace hspace) h ht
      · rw [if_neg hspace, if_neg hcomment'] at h
        by_cases hpunct : isPunctuation c = true
        · rw [if_pos hpunct] at h
          have hread : Reading .punct pre (tok ++ [c]) := by
            refine .punct (List.append_ne_nil_of_left_ne_nil hne _) ?_
            rw [List.forall_mem_append, List.forall_mem_singleton]
            exact ⟨htok, hpunct⟩
          have htoken := ih hread hs' h ht
          rwa [List.append_assoc] at htoken
        · rw [if_neg hpunct, Report.fmap_eq_ok] at h
          obtain ⟨toks', h, rfl⟩ := h
          rcases List.mem_cons.mp ht with rfl | ht
          · exact Or.inl htok
          · have hpre : ∀ d ∈ (pre ++ tok).getLast?, isLexEdge d = true := by
              intro d hd
              rw [List.getLast?_append_of_ne_nil _ hne] at hd
              exact isLexEdge_of_isPunctuation (htok d (List.mem_of_mem_getLast? hd))
            obtain ⟨htok', hread⟩ := Reading.start hc (Bool.not_eq_true _ ▸ hspace) hpre
            rw [htok'] at h
            have htoken := ih hread hs' h ht
            rwa [List.append_assoc] at htoken

theorem isToken_of_mem_shlex {s t : Str} {toks : List Str} (hs : ∀ c ∈ s, isUnquoted c = true)
    (h : shlex s = .ok toks) (ht : t ∈ toks) : IsToken t s :=
  @isToken_of_mem_shlexFrom .gap [] [] s toks (.gap nofun) hs h t ht

end Py
