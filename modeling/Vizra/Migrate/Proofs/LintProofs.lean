import Vizra.Migrate.Lint

/-!
# The layout of a destructive statement

A statement may stand over several lines and have comments between its words. The lint looks at one line at a time: it
fails because of a destructive statement exactly if the words of one stand on one line, that line does not start as a
comment and the line before it does not allow it.
-/

namespace Vizra.Migrate

open Py Regex

/-! ## Statements -/

/-- White space between two words. -/
def IsGap (gap : Str) : Prop := gap ≠ [] ∧ ∀ c ∈ gap, isPosixSpace c = true

/-- A destructive statement in capitals, up to its last word that matters. -/
inductive Destructive : Str → Prop where
  | drop {gap kind : Str} (hgap : IsGap gap) (hkind : kind ∈ droppedKinds) : Destructive (str "DROP" ++ (gap ++ kind))
  | rename {gap₁ gap₂ mid : Str} (h₁ : IsGap gap₁) (h₂ : IsGap gap₂) (hmid : ';' ∉ mid) :
      Destructive (str "ALTER" ++ (gap₁ ++ (str "TABLE" ++ (gap₂ ++ (mid ++ str "RENAME")))))
  | retype {gap₁ gap₂ gap₃ gap₄ mid mid' : Str} (h₁ : IsGap gap₁) (h₂ : IsGap gap₂) (hmid : ';' ∉ mid)
      (h₃ : IsGap gap₃) (h₄ : IsGap gap₄) (hmid' : ';' ∉ mid') :
      Destructive (str "ALTER" ++ (gap₁ ++ (str "TABLE" ++ (gap₂ ++ (mid ++
        (str "ALTER" ++ (gap₃ ++ (str "COLUMN" ++ (gap₄ ++ (mid' ++ str "TYPE"))))))))))
  | truncate : Destructive (str "TRUNCATE")

/-- What the characters of a text belong to. -/
inductive SqlMode where
  | code
  | lineComment
  -- with the number of comments around it
  | blockComment (depth : Nat)
  | quoted (quote : Char)

/-- The text with blanks for its comments and dots for what is quoted. -/
def maskFrom : SqlMode → Str → Str
  | _, [] => []
  | .code, '-' :: '-' :: s => ' ' :: ' ' :: maskFrom .lineComment s
  | .code, '/' :: '*' :: s => ' ' :: ' ' :: maskFrom (.blockComment 0) s
  | .code, c :: s => c :: maskFrom (if c == '\'' || c == '"' then .quoted c else .code) s
  | .lineComment, c :: s =>
    if c == '\n' then '\n' :: maskFrom .code s else ' ' :: maskFrom .lineComment s
  | .blockComment depth, '/' :: '*' :: s => ' ' :: ' ' :: maskFrom (.blockComment (depth + 1)) s
  | .blockComment depth, '*' :: '/' :: s =>
    ' ' :: ' ' :: maskFrom (if depth == 0 then .code else .blockComment (depth - 1)) s
  | .blockComment depth, c :: s => (if c == '\n' then '\n' else ' ') :: maskFrom (.blockComment depth) s
  | .quoted quote, c :: s => if c == quote then c :: maskFrom .code s else '.' :: maskFrom (.quoted quote) s

def mask (text : Str) : Str := maskFrom .code text

/-- The line before the one with character `n` allows a destructive statement. -/
def allowedAt (text : Str) (n : Nat) : Bool :=
  match (text.take n).count '\n' with
  | 0 => false
  | k + 1 => ((text.splitOn '\n')[k]?).any allowsDestructive

/-- Outside comments there is a destructive statement, and the line before it does not allow it. -/
def HasStatement (text : Str) : Prop :=
  ∃ pre m post, mask text = pre ++ (m ++ post) ∧ Destructive (m.map Char.toUpper) ∧ allowedAt text pre.length = false

/-- What stands behind the last line feed. -/
def lastLine (s : Str) : Str := s.rtakeWhile (· != '\n')

/-- The words of a destructive statement stand on one line that does not start as a comment, and the line before it
does not allow it. -/
def OnOneLine (text : Str) : Prop :=
  ∃ pre m post, text = pre ++ (m ++ post) ∧ '\n' ∉ m ∧ Destructive (m.map Char.toUpper) ∧
    isCommentLine (lastLine pre) = false ∧ allowedAt text pre.length = false

/-! ## The expression -/

theorem mem_gapRe {w : Str} : w ∈ gapRe.lang ↔ IsGap w := Rx.mem_lang_plus_cls

theorem mem_restRe {w : Str} : w ∈ restRe.lang ↔ ';' ∉ w := by
  rw [restRe, Rx.mem_lang_star_cls]
  constructor
  · intro h hmem
    cases h ';' hmem
  · intro h c hc
    rw [bne_iff_ne]
    rintro rfl
    exact h hc

theorem mem_alterTableRe {r : Rx Char} {w : Str} :
    w ∈ (alterTableRe r).lang ↔ ∃ gap₁ gap₂ mid last, IsGap gap₁ ∧ IsGap gap₂ ∧ ';' ∉ mid ∧ last ∈ r.lang ∧
      w = str "ALTER" ++ (gap₁ ++ (str "TABLE" ++ (gap₂ ++ (mid ++ last)))) := by
  simp only [alterTableRe, Rx.mem_lang_seq, Rx.mem_lang_text, mem_gapRe, mem_restRe]
  constructor
  · rintro ⟨_, _, rfl, rfl, gap₁, _, rfl, h₁, _, _, rfl, rfl, gap₂, _, rfl, h₂, mid, last, rfl, hmid, hlast⟩
    exact ⟨gap₁, gap₂, mid, last, h₁, h₂, hmid, hlast, rfl⟩
  · rintro ⟨gap₁, gap₂, mid, last, h₁, h₂, hmid, hlast, rfl⟩
    exact ⟨_, _, rfl, rfl, gap₁, _, rfl, h₁, _, _, rfl, rfl, gap₂, _, rfl, h₂, mid, last, rfl, hmid, hlast⟩

/-- The expression of the script matches the statements. -/
theorem mem_destructiveRe {w : Str} : w ∈ destructiveRe.lang ↔ Destructive w := by
  rw [destructiveRe, Rx.mem_lang_alt, Rx.mem_lang_alt, Rx.mem_lang_alt, mem_alterTableRe, mem_alterTableRe,
    Rx.mem_lang_text]
  simp only [Rx.mem_lang_seq, Rx.mem_lang_text, Rx.mem_lang_oneOf, mem_gapRe, mem_restRe]
  constructor
  · rintro (⟨_, _, rfl, rfl, gap, kind, rfl, hgap, hkind⟩ | ⟨gap₁, gap₂, mid, _, h₁, h₂, hmid, rfl, rfl⟩ |
      ⟨gap₁, gap₂, mid, _, h₁, h₂, hmid, ⟨_, _, rfl, rfl, gap₃, _, rfl, h₃, _, _, rfl, rfl, gap₄, _, rfl, h₄, mid', _,
        rfl, hmid', rfl⟩, rfl⟩ | rfl)
    · exact .drop hgap hkind
    · exact .rename h₁ h₂ hmid
    · exact .retype h₁ h₂ hmid h₃ h₄ hmid'
    · exact .truncate
  · intro h
    cases h with
    | drop hgap hkind => exact Or.inl ⟨_, _, rfl, rfl, _, _, rfl, hgap, hkind⟩
    | rename h₁ h₂ hmid => exact Or.inr (Or.inl ⟨_, _, _, _, h₁, h₂, hmid, rfl, rfl⟩)
    | retype h₁ h₂ hmid h₃ h₄ hmid' =>
      exact Or.inr (Or.inr (Or.inl ⟨_, _, _, _, h₁, h₂, hmid, ⟨_, _, rfl, rfl, _, _, rfl, h₃, _, _, rfl, rfl, _, _, rfl,
        h₄, _, _, rfl, hmid', rfl⟩, rfl⟩))
    | truncate => exact Or.inr (Or.inr (Or.inr rfl))

theorem matchesDestructive_iff {line : Str} :
    matchesDestructive line = true ↔ ∃ u m v, line = u ++ (m ++ v) ∧ Destructive (m.map Char.toUpper) := by
  rw [matchesDestructive, Rx.accepts_iff, Rx.mem_lang_anywhere]
  constructor
  · rintro ⟨u', m', v', heq, hm⟩
    obtain ⟨u, x, rfl, rfl, hx⟩ := List.map_eq_append_iff.mp heq
    obtain ⟨m, v, rfl, rfl, rfl⟩ := List.map_eq_append_iff.mp hx
    exact ⟨u, m, v, rfl, mem_destructiveRe.mp hm⟩
  · rintro ⟨u, m, v, rfl, hm⟩
    exact ⟨_, _, _, by rw [List.map_append, List.map_append], mem_destructiveRe.mpr hm⟩

theorem head_of_destructive {w : Str} (h : Destructive w) : ∃ d ∈ ['D', 'A', 'T'], w.head? = some d := by
  cases h with
  | drop => exact ⟨'D', by decide, by simp [str]⟩
  | rename => exact ⟨'A', by decide, by simp [str]⟩
  | retype => exact ⟨'A', by decide, by simp [str]⟩
  | truncate => exact ⟨'T', by decide, by simp [str]⟩

/-- A statement starts with a letter. -/
theorem exists_head_of_destructive {m : Str} (h : Destructive (m.map Char.toUpper)) :
    ∃ c cs, m = c :: cs ∧ c ≠ '-' ∧ isPosixSpace c = false := by
  obtain ⟨d, hd, hhead⟩ := head_of_destructive h
  cases m with
  | nil => cases hhead
  | cons c cs =>
    have hupper : c.toUpper = d := Option.some.inj hhead
    have hkept : ∀ b, b.toUpper = b → b ∉ ['D', 'A', 'T'] → c ≠ b := by
      rintro b hb hnot rfl
      rw [hb] at hupper
      exact hnot (hupper ▸ hd)
    refine ⟨c, cs, rfl, hkept '-' rfl (by decide), ?_⟩
    by_contra hspace
    rw [Bool.not_eq_false, isPosixSpace, Bool.or_eq_true, beq_iff_eq, Bool.and_eq_true, decide_eq_true_eq,
      decide_eq_true_eq, UInt32.le_iff_toNat_le, UInt32.le_iff_toNat_le] at hspace
    rcases hspace with hspace | ⟨hlow, hhigh⟩
    · exact hkept ' ' rfl (by decide) hspace
    · have hsame : c.toUpper = c := by
        unfold Char.toUpper
        refine dif_neg ?_
        rintro ⟨h, -⟩
        rw [UInt32.le_iff_toNat_le] at h
        have h' : 97 ≤ c.val.toNat := h
        have hhigh' : c.val.toNat ≤ 13 := hhigh
        omega
      rw [hsame] at hupper
      subst hupper
      have hall : ['D', 'A', 'T'].all (fun d => 13 < d.val.toNat) = true := rfl
      have hbig := of_decide_eq_true (List.all_eq_true.mp hall c hd)
      have hhigh' : c.val.toNat ≤ 13 := hhigh
      omega

/-! ## Lines -/

theorem splitOn_newline_cons (s : Str) : ('\n' :: s).splitOn '\n' = [] :: s.splitOn '\n' := by
  rw [List.splitOn_eq_splitOnP, List.splitOnP_cons_eq_if_modifyHead, if_pos (beq_self_eq_true '\n'),
    ← List.splitOn_eq_splitOnP]

theorem splitOn_char_cons {c : Char} (hc : c ≠ '\n') (s : Str) :
    ∃ line lines, s.splitOn '\n' = line :: lines ∧ (c :: s).splitOn '\n' = (c :: line) :: lines := by
  have hne : s.splitOn '\n' ≠ [] := by
    rw [List.splitOn_eq_splitOnP]
    exact List.splitOnP_ne_nil _ _
  obtain ⟨line, lines, hs⟩ := List.exists_cons_of_ne_nil hne
  refine ⟨line, lines, hs, ?_⟩
  rw [List.splitOn_eq_splitOnP] at hs ⊢
  rw [List.splitOnP_cons_eq_if_modifyHead, if_neg (by simpa using hc), hs, List.modifyHead_cons]

theorem lastLine_of_not_mem {s : Str} (h : '\n' ∉ s) : lastLine s = s := by
  rw [lastLine, List.rtakeWhile_eq_self_iff]
  intro c hc
  rw [bne_iff_ne]
  rintro rfl
  exact h hc

theorem lastLine_append_of_not_mem (a : Str) {s : Str} (h : '\n' ∉ s) : lastLine (a ++ s) = lastLine a ++ s := by
  have hall : ∀ c ∈ s.reverse, (c != '\n') = true := by
    intro c hc
    rw [bne_iff_ne]
    rintro rfl
    exact h (List.mem_reverse.mp hc)
  rw [lastLine, List.rtakeWhile, List.reverse_append, List.takeWhile_append_of_pos hall, List.reverse_append,
    List.reverse_reverse]
  rfl

theorem lastLine_newline_cons (s : Str) : lastLine ('\n' :: s) = lastLine s := by
  rw [lastLine, lastLine, List.rtakeWhile, List.rtakeWhile, List.reverse_cons, List.takeWhile_append]
  split_ifs with hlen
  · rw [(List.takeWhile_prefix _).eq_of_length hlen]
    simp
  · rfl

theorem lastLine_cons_of_mem (c : Char) {s : Str} (h : '\n' ∈ s) : lastLine (c :: s) = lastLine s := by
  rw [lastLine, lastLine, List.rtakeWhile, List.rtakeWhile, List.reverse_cons, List.takeWhile_append]
  split_ifs with hlen
  · have hself := (List.takeWhile_prefix _).eq_of_length hlen
    have hnot := List.takeWhile_eq_self_iff.mp hself '\n' (List.mem_reverse.mpr h)
    cases hnot
  · rfl

/-- The line of a place in a text. -/
theorem getElem?_splitOn (pre rest : Str) :
    ((pre ++ rest).splitOn '\n')[pre.count '\n']? = some (lastLine pre ++ rest.takeWhile (· != '\n')) := by
  induction pre with
  | nil =>
    show (rest.splitOn '\n')[0]? = some (rest.takeWhile (· != '\n'))
    induction rest with
    | nil => rfl
    | cons c rest ih =>
      by_cases hc : c = '\n'
      · subst hc
        rw [splitOn_newline_cons]
        rfl
      · obtain ⟨line, lines, hs, hcons⟩ := splitOn_char_cons hc rest
        rw [hs] at ih
        have hne : (c != '\n') = true := bne_iff_ne.mpr hc
        rw [hcons, List.takeWhile_cons, if_pos hne, ← Option.some.inj ih]
        rfl
  | cons c pre ih =>
    by_cases hc : c = '\n'
    · subst hc
      rw [List.cons_append, splitOn_newline_cons, List.count_cons_self, List.getElem?_cons_succ, ih,
        lastLine_newline_cons]
    · obtain ⟨line, lines, hs, hcons⟩ := splitOn_char_cons hc (pre ++ rest)
      rw [hs] at ih
      rw [List.cons_append, hcons, List.count_cons_of_ne hc]
      by_cases hmem : '\n' ∈ pre
      · obtain ⟨k, hk⟩ := Nat.exists_eq_add_of_lt (List.count_pos_iff.mpr hmem)
        rw [hk, Nat.zero_add] at ih ⊢
        rw [lastLine_cons_of_mem c hmem, ← ih]
        rfl
      · rw [List.count_eq_zero_of_not_mem hmem] at ih ⊢
        rw [lastLine_of_not_mem hmem] at ih
        have hmem' : '\n' ∉ c :: pre := List.not_mem_cons_of_ne_of_not_mem (Ne.symm hc) hmem
        rw [lastLine_of_not_mem hmem', List.cons_append, ← Option.some.inj ih]
        rfl

/-- The place of a line. -/
theorem exists_of_getElem?_splitOn {text line : Str} {k : Nat} (h : (text.splitOn '\n')[k]? = some line) :
    ∃ a b, text = a ++ (line ++ b) ∧ a.count '\n' = k ∧ lastLine a = [] ∧ '\n' ∉ line := by
  induction text generalizing k line with
  | nil =>
    cases k with
    | zero =>
      obtain rfl : [] = line := Option.some.inj h
      exact ⟨[], [], rfl, rfl, rfl, List.not_mem_nil⟩
    | succ k => cases h
  | cons c text ih =>
    by_cases hc : c = '\n'
    · subst hc
      rw [splitOn_newline_cons] at h
      cases k with
      | zero =>
        obtain rfl : [] = line := Option.some.inj h
        exact ⟨[], '\n' :: text, rfl, rfl, rfl, List.not_mem_nil⟩
      | succ k =>
        obtain ⟨a, b, rfl, hk, hlast, hline⟩ := ih h
        exact ⟨'\n' :: a, b, rfl, by rw [List.count_cons_self, hk], by rw [lastLine_newline_cons, hlast], hline⟩
    · obtain ⟨first, lines, hs, hcons⟩ := splitOn_char_cons hc text
      rw [hcons] at h
      rw [hs] at ih
      cases k with
      | zero =>
        obtain rfl : c :: first = line := Option.some.inj h
        obtain ⟨a, b, rfl, hk, hlast, hline⟩ := ih (k := 0) rfl
        have ha : '\n' ∉ a := List.count_eq_zero.mp hk
        rw [lastLine_of_not_mem ha] at hlast
        subst hlast
        exact ⟨[], b, rfl, rfl, rfl, List.not_mem_cons_of_ne_of_not_mem (Ne.symm hc) hline⟩
      | succ k =>
        obtain ⟨a, b, rfl, hk, hlast, hline⟩ := ih (k := k + 1) h
        have ha : '\n' ∈ a := List.count_pos_iff.mp (by omega)
        exact ⟨c :: a, b, rfl, by rw [List.count_cons_of_ne hc, hk], by rw [lastLine_cons_of_mem c ha, hlast], hline⟩

theorem isCommentLine_append (u : Str) {c : Char} (x : Str) (hdash : c ≠ '-') (hspace : isPosixSpace c = false) :
    isCommentLine (u ++ c :: x) = isCommentLine u := by
  induction u with
  | nil => simp [isCommentLine, hspace, str, List.isPrefixOf, hdash.symm]
  | cons d u ih =>
    simp only [isCommentLine, List.cons_append, List.dropWhile_cons] at ih ⊢
    split_ifs with hd
    · exact ih
    · cases u with
      | nil => simp [str, List.isPrefixOf, hdash.symm]
      | cons e u => simp [str, List.isPrefixOf]

/-! ## The loop -/

theorem allowedAt_eq (text : Str) (n : Nat) :
    allowedAt text n = (([] :: text.splitOn '\n')[(text.take n).count '\n']?).any allowsDestructive := by
  unfold allowedAt
  cases (text.take n).count '\n' with
  | zero => rfl
  | succ k => rfl

theorem destructiveLines_ne_nil {n : Nat} {prev : Str} {lines : List Str} :
    destructiveLines n prev lines ≠ [] ↔
      ∃ (k : Nat) (line : Str), lines[k]? = some line ∧ matchesDestructive line = true ∧ isCommentLine line = false ∧
        ((prev :: lines)[k]?).any allowsDestructive = false := by
  induction lines generalizing n prev with
  | nil => simp [destructiveLines]
  | cons first lines ih =>
    rw [destructiveLines, Ne, List.append_eq_nil_iff, not_and_or, ← Ne, ← Ne, ih]
    constructor
    · rintro (hfirst | ⟨k, line, hk, hrest⟩)
      · have hfound : (matchesDestructive first && !isCommentLine first && !allowsDestructive prev) = true := by
          by_contra hnot
          rw [if_neg hnot] at hfirst
          exact hfirst rfl
        rw [Bool.and_eq_true, Bool.and_eq_true, Bool.not_eq_true', Bool.not_eq_true'] at hfound
        exact ⟨0, first, rfl, hfound.1.1, hfound.1.2, hfound.2⟩
      · exact ⟨k + 1, line, hk, hrest⟩
    · rintro ⟨k, line, hk, hmatch, hcomment, hallow⟩
      cases k with
      | zero =>
        obtain rfl : first = line := Option.some.inj hk
        have hallow' : allowsDestructive prev = false := hallow
        refine Or.inl ?_
        rw [hmatch, hcomment, hallow']
        exact List.cons_ne_nil _ _
      | succ k => exact Or.inr ⟨k, line, hk, hmatch, hcomment, hallow⟩

/-- The loop over the lines of a text finds what stands on one line. -/
theorem destructiveLines_iff {text : Str} :
    destructiveLines 1 [] (text.splitOn '\n') ≠ [] ↔ OnOneLine text := by
  rw [destructiveLines_ne_nil]
  constructor
  · rintro ⟨k, line, hk, hmatch, hcomment, hallow⟩
    obtain ⟨a, b, rfl, hcount, hlast, hline⟩ := exists_of_getElem?_splitOn hk
    obtain ⟨u, m, v, rfl, hm⟩ := matchesDestructive_iff.mp hmatch
    obtain ⟨c, cs, rfl, hdash, hspace⟩ := exists_head_of_destructive hm
    simp only [List.mem_append, not_or] at hline
    refine ⟨a ++ u, c :: cs, v ++ b, by simp only [List.append_assoc], hline.2.1, hm, ?_, ?_⟩
    · rw [lastLine_append_of_not_mem a hline.1, hlast, List.nil_append]
      rwa [List.cons_append, isCommentLine_append u _ hdash hspace] at hcomment
    · have hplace : a ++ (u ++ (c :: cs ++ v) ++ b) = a ++ u ++ (c :: cs ++ (v ++ b)) := by
        simp only [List.append_assoc]
      rw [hplace, allowedAt_eq, List.take_left, List.count_append, hcount, List.count_eq_zero_of_not_mem hline.1,
        ← hplace]
      exact hallow
  · rintro ⟨pre, m, post, rfl, hm, hdes, hcomment, hallow⟩
    obtain ⟨c, cs, rfl, hdash, hspace⟩ := exists_head_of_destructive hdes
    have hline := getElem?_splitOn pre (c :: cs ++ post)
    have hall : ∀ d ∈ c :: cs, (d != '\n') = true := by
      intro d hd
      rw [bne_iff_ne]
      rintro rfl
      exact hm hd
    rw [List.takeWhile_append_of_pos hall] at hline
    rw [allowedAt_eq, List.take_left] at hallow
    refine ⟨_, _, hline, matchesDestructive_iff.mpr ⟨_, _, _, rfl, hdes⟩, ?_, hallow⟩
    rwa [List.cons_append, isCommentLine_append _ _ hdash hspace]

/-! ## The script -/

/-- Nothing is wrong with the names, the versions, the down files and the manifest. -/
def OthersPass (dir : Directory) (manifest : Option Bool) : Prop :=
  filenameErrors dir = [] ∧ (sequenceErrors 0 (sortedVersions dir)).1 = [] ∧ downErrors dir = [] ∧
    manifest ≠ some false

theorem sequenceErrors_ne_nil {prev : Nat} {versions : List Str} (h : (sequenceErrors prev versions).2 = true) :
    (sequenceErrors prev versions).1 ≠ [] := by
  induction versions generalizing prev with
  | nil => cases h
  | cons v versions ih =>
    rw [sequenceErrors] at h ⊢
    cases hv : decimal? v with
    | none => exact List.cons_ne_nil _ _
    | some n =>
      rw [hv] at h
      exact List.append_ne_nil_of_right_ne_nil _ (ih h)

theorem destructiveErrors_eq_nil {dir : Directory} :
    destructiveErrors dir = [] ↔ ∀ f ∈ dir.ups, ¬ OnOneLine f.text := by
  rw [destructiveErrors, List.flatMap_eq_nil_iff]
  refine forall₂_congr fun f _ => ?_
  rw [List.map_eq_nil_iff, ← destructiveLines_iff, not_not]

theorem migrateLint_eq_nil {dir : Directory} {manifest : Option Bool} (hups : dir.ups ≠ []) :
    migrateLint dir manifest = [] ↔ OthersPass dir manifest ∧ ∀ f ∈ dir.ups, ¬ OnOneLine f.text := by
  have hempty : dir.ups.isEmpty = false := List.isEmpty_eq_false_iff.mpr hups
  rw [migrateLint, hempty, if_neg Bool.false_ne_true, ← destructiveErrors_eq_nil, OthersPass]
  simp only [List.append_eq_nil_iff]
  cases hstop : (sequenceErrors 0 (sortedVersions dir)).2 with
  | true =>
    have hne := sequenceErrors_ne_nil hstop
    simp [hne]
  | false =>
    by_cases hm : manifest = some false
    · simp [hm]
    · simp [hm]
      tauto

/-- `DROP` and `TABLE` on two lines. -/
def splitDrop : Directory where
  sqlNames := [str "0001_users.down.sql", str "0001_users.up.sql"]
  ups := [⟨str "0001_users.up.sql", str "DROP\nTABLE users;\n"⟩]
  size base := if base = str "0001_users.down.sql" then some 30 else none

end Vizra.Migrate
