import Vizra.Makefile.Proofs.RecipesProofs
import Vizra.Makefile.Recipes

/-!
# The recipe that make's database lists

`recipe_lines` joins the physical lines of a recipe as make does: a line that ends in an odd number of backslashes
continues. `_db_recipe_lines` joins the same lines as the database lists them whenever its buffer, without trailing
white space, ends in a backslash. The two readings are the same words exactly if no line of the recipe ends in a
backslash: up to the first such line the buffer holds the words of the line that is being joined, and at that line the
database reading takes away a backslash that the text reading keeps.
-/

namespace Vizra.Makefile

open Py

variable {buf t raw last : Str} {recs : List LogicalLine}

/-! ## The recipe -/

/-- The TAB lines of the recipe of the rule before the lines. -/
def recipeTabs : List LogicalLine → List LogicalLine
  | [] => []
  | rec :: lines =>
    if rec.tab then rec :: recipeTabs lines
    else if keepsRuleOpen rec then recipeTabs lines
    else []

/-- The text of a recipe line. -/
def recipeBody (rec : LogicalLine) : Str := strip (rec.raw.drop 1)

theorem recipeLines_eq (lines : List LogicalLine) :
    recipeLines lines = (recipeTabs lines).map fun rec => (rec.n, recipeBody rec) := by
  induction lines with
  | nil => rfl
  | cons rec lines ih =>
    rw [recipeLines, recipeTabs]
    split_ifs
    · rw [ih]
      rfl
    · exact ih
    · rfl

theorem recipeTabs_subset (lines : List LogicalLine) : ∀ rec ∈ recipeTabs lines, rec ∈ lines ∧ rec.tab = true := by
  induction lines with
  | nil => exact fun rec h => nomatch h
  | cons rec' lines ih =>
    intro rec h
    rw [recipeTabs] at h
    split_ifs at h with htab
    · rcases List.mem_cons.mp h with rfl | h
      · exact ⟨List.mem_cons_self, htab⟩
      · exact ⟨List.mem_cons_of_mem _ (ih rec h).1, (ih rec h).2⟩
    · exact ⟨List.mem_cons_of_mem _ (ih rec h).1, (ih rec h).2⟩
    · cases h

/-- A physical line as the database lists it: without one leading TAB. -/
def dropTab (segment : Str) : Str := continuation true segment

/-- The recipe of the rule before the lines, as make's database lists it. -/
def recipeListing (lines : List LogicalLine) : List Str :=
  (recipeTabs lines).flatMap fun rec => rec.segments.map dropTab

/-! ## How a recipe line is joined -/

theorem getLast?_of_continued {s : Str} (h : continued s = true) : s.getLast? = some '\\' := by
  rw [continued, beq_iff_eq] at h
  cases hlast : s.getLast? with
  | none =>
    rw [List.getLast?_eq_none_iff.mp hlast] at h
    cases h
  | some c =>
    obtain ⟨t, rfl⟩ := List.getLast?_eq_some_iff.mp hlast
    by_cases hc : c = '\\'
    · rw [hc]
    · rw [List.rtakeWhile_concat_neg _ _ _ (by simpa using hc)] at h
      cases h

/-- A line that is continued, as the database lists it. -/
theorem exists_dropTab_of_continued {s : Str} (h : continued s = true) : ∃ t, dropTab s = t ++ ['\\'] := by
  rw [← List.getLast?_eq_some_iff, dropTab, continuation, if_pos rfl]
  have hlast := getLast?_of_continued h
  split_ifs with htab
  · cases s with
    | nil => cases hlast
    | cons c s =>
      cases s with
      | nil =>
        rw [beq_iff_eq] at htab
        cases htab
        cases hlast
      | cons d s => exact hlast
  · exact hlast

/-- What the segments that are continued contribute to a recipe line. -/
def joinedText (init : List Str) : Str := init.flatMap fun s => (dropTab s).dropLast ++ [' ']

/-- The segments of a recipe line and the text they are joined to. -/
def JoinedAs (segments : List Str) (last raw : Str) : Prop :=
  ∃ init, segments = init ++ [last] ∧ (∀ s ∈ init, continued s = true) ∧
    raw = '\t' :: (joinedText init ++ dropTab last)

theorem exists_joinedAs {text : Str} {rec : LogicalLine} (h : rec ∈ makefileLines text) (htab : rec.tab = true) :
    ∃ last, JoinedAs rec.segments last rec.raw := by
  have hjoined := exists_joined (P := fun j => j.tab = true → JoinedAs j.segments j.last j.raw) ?_ ?_ h
  · obtain ⟨j, hj, rfl⟩ := hjoined
    unfold Joined.close at htab ⊢
    split at htab
    · rename_i hjtab
      rw [if_pos hjtab]
      exact ⟨j.last, hj hjtab⟩
    · cases htab
  · intro n line hline
    have hhead : line.head? = some '\t' := beq_iff_eq.mp hline
    refine ⟨[], rfl, List.forall_mem_nil _, ?_⟩
    cases line with
    | nil => cases hhead
    | cons c line =>
      cases hhead
      rfl
  · intro j nxt hcontinued hj htab'
    obtain ⟨init, hsegments, hinit, hraw⟩ := hj htab'
    obtain ⟨t, ht⟩ := exists_dropTab_of_continued hcontinued
    refine ⟨init ++ [j.last], ?_, ?_, ?_⟩
    · show j.segments ++ [nxt] = _
      rw [hsegments]
      rfl
    · intro s hs
      rcases List.mem_append.mp hs with hs | hs
      · exact hinit s hs
      · rw [List.mem_singleton.mp hs]
        exact hcontinued
    · show j.raw.dropLast ++ [' '] ++ continuation j.tab nxt = _
      have hj' : j.tab = true := htab'
      rw [hraw, ht, hj', joinedText, joinedText, List.flatMap_append, List.flatMap_singleton, ht, ← List.append_assoc,
        ← List.cons_append, List.dropLast_concat, List.dropLast_concat]
      simp only [List.append_assoc, List.cons_append]
      rfl

/-! ## The buffer of the database reading -/

/-- The buffer with the next line that is listed. -/
def glue (buf t : Str) : Str := if buf.isEmpty then t else buf ++ ' ' :: t.dropWhile (· == '\t')

theorem line_of_continues {out : List Str} (h : (rstrip (glue buf t)).getLast? = some '\\') :
    DbRecipe.line ⟨out, buf⟩ t = ⟨out, (rstrip (glue buf t)).dropLast⟩ := by
  show (if (rstrip (glue buf t)).getLast? == some '\\' then _ else _) = _
  rw [h, if_pos (beq_self_eq_true _)]
  rfl

theorem line_of_ends {out : List Str} (h : (rstrip (glue buf t)).getLast? ≠ some '\\') :
    DbRecipe.line ⟨out, buf⟩ t = ⟨out ++ [strip (glue buf t)], []⟩ := by
  show (if (rstrip (glue buf t)).getLast? == some '\\' then _ else _) = _
  rw [if_neg (by simpa using h)]
  rfl

theorem glue_concat (buf t : Str) {c : Char} (hc : c ≠ '\t') : glue buf (t ++ [c]) = glue buf t ++ [c] := by
  unfold glue
  split_ifs
  · rfl
  · rw [List.dropWhile_append]
    have hkeep : [c].dropWhile (· == '\t') = [c] := List.dropWhile_cons_of_neg (by simpa using hc)
    split_ifs with hempty
    · rw [List.isEmpty_iff.mp hempty, hkeep, List.append_assoc]
      rfl
    · rw [List.append_assoc]
      rfl

/-- A line that ends in a backslash is taken to the buffer without it. -/
theorem line_backslash {out : List Str} : DbRecipe.line ⟨out, buf⟩ (t ++ ['\\']) = ⟨out, glue buf t⟩ := by
  have hglue : glue buf (t ++ ['\\']) = glue buf t ++ ['\\'] := glue_concat buf t (by decide)
  have hrstrip : rstrip (glue buf t ++ ['\\']) = glue buf t ++ ['\\'] := by
    rw [rstrip, List.rdropWhile_concat_neg]
    decide
  have hlast : (rstrip (glue buf (t ++ ['\\']))).getLast? = some '\\' := by
    rw [hglue, hrstrip, List.getLast?_concat]
  rw [line_of_continues hlast, hglue, hrstrip, List.dropLast_concat]

/-- The buffer holds the words of a text that is being joined, whatever follows. -/
def SameWords (buf raw : Str) : Prop :=
  ∀ z, splitWords ((if buf.isEmpty then [] else buf ++ [' ']) ++ z) = splitWords (raw ++ z)

theorem sameWords_nil : SameWords [] [] := fun _ => rfl

theorem SameWords.glue (h : SameWords buf raw) (t z : Str) :
    splitWords (glue buf t ++ z) = splitWords (raw ++ t ++ z) := by
  have hwords := h (t ++ z)
  rw [List.append_assoc, ← hwords]
  unfold Makefile.glue
  split_ifs with hempty
  · rfl
  · have htabs : ∀ c ∈ t.takeWhile (· == '\t'), isSpace c = true := by
      intro c hc
      have htab := List.mem_takeWhile_imp hc
      rw [beq_iff_eq] at htab
      rw [htab]
      rfl
    have ht : t ++ z = t.takeWhile (· == '\t') ++ (t.dropWhile (· == '\t') ++ z) := by
      rw [← List.append_assoc, List.takeWhile_append_dropWhile]
    rw [List.append_assoc, List.append_assoc, List.cons_append, List.singleton_append,
      splitWords_append_cons _ _ (show isSpace ' ' = true from rfl),
      splitWords_append_cons _ _ (show isSpace ' ' = true from rfl), ht, splitWords_spaces_append htabs]

theorem SameWords.next (h : SameWords buf raw) (t : Str) : SameWords (Makefile.glue buf t) (raw ++ (t ++ [' '])) := by
  intro z
  have hwords := h.glue t (' ' :: z)
  rw [List.append_assoc] at hwords
  rw [List.append_assoc, List.append_assoc, List.singleton_append, ← hwords]
  split_ifs with hempty
  · rw [List.isEmpty_iff.mp hempty, List.nil_append, List.nil_append]
    exact (@splitWords_spaces_append [' '] (List.forall_mem_singleton.mpr rfl) z).symm
  · rw [List.append_assoc, List.singleton_append]

theorem foldl_init (out : List Str) {init : List Str} (hinit : ∀ s ∈ init, continued s = true) (h : SameWords buf raw) :
    ∃ buf', (init.map dropTab).foldl DbRecipe.line ⟨out, buf⟩ = ⟨out, buf'⟩ ∧ SameWords buf' (raw ++ joinedText init) := by
  induction init generalizing buf raw with
  | nil =>
    refine ⟨buf, rfl, ?_⟩
    rw [joinedText, List.flatMap_nil, List.append_nil]
    exact h
  | cons s init ih =>
    obtain ⟨t, ht⟩ := exists_dropTab_of_continued (hinit s List.mem_cons_self)
    obtain ⟨buf', hfold, hsame⟩ := ih (fun s hs => hinit s (List.mem_cons_of_mem _ hs)) (h.next t)
    refine ⟨buf', ?_, ?_⟩
    · rw [List.map_cons, List.foldl_cons, ht, line_backslash]
      exact hfold
    · rw [joinedText, List.flatMap_cons, ht, List.dropLast_concat, ← List.append_assoc]
      exact hsame

/-- What a recipe line leaves behind that does not end in a backslash. -/
theorem foldl_good (out : List Str) {segments : List Str} (h : JoinedAs segments last raw)
    (hgood : (strip (raw.drop 1)).getLast? ≠ some '\\') :
    ∃ x, (segments.map dropTab).foldl DbRecipe.line ⟨out, []⟩ = ⟨out ++ [strip x], []⟩ ∧
      splitWords x = splitWords (raw.drop 1) := by
  obtain ⟨init, rfl, hinit, rfl⟩ := h
  obtain ⟨buf, hfold, hsame⟩ := foldl_init out hinit sameWords_nil
  have hwords := hsame.glue (dropTab last) []
  rw [List.append_nil, List.append_nil, List.nil_append] at hwords
  refine ⟨glue buf (dropTab last), ?_, hwords⟩
  rw [List.map_append, List.foldl_append, hfold]
  refine line_of_ends ?_
  rw [getLast?_rstrip, ← flatten_splitWords, hwords, flatten_splitWords, ← getLast?_strip]
  exact hgood

/-! ## Backslashes -/

def backslashes (s : Str) : Nat := s.count '\\'

theorem backslashes_append (s t : Str) : backslashes (s ++ t) = backslashes s + backslashes t := List.count_append

theorem backslashes_of_splitWords {s : Str} (h : splitWords s = splitWords t) : backslashes s = backslashes t := by
  have hsolid : solid s = solid t := by rw [← flatten_splitWords, h, flatten_splitWords]
  rw [backslashes, backslashes, ← count_solid rfl s, hsolid, count_solid rfl]

theorem backslashes_strip (s : Str) : backslashes (strip s) = backslashes s :=
  backslashes_of_splitWords (splitWords_strip s)

theorem backslashes_rstrip (s : Str) : backslashes (rstrip s) = backslashes s := by
  refine backslashes_of_splitWords ?_
  have hs : s = rstrip s ++ s.rtakeWhile isSpace := List.rdropWhile_append_rtakeWhile.symm
  have hspaces : ∀ c ∈ s.rtakeWhile isSpace, isSpace c = true := fun c hc => List.mem_rtakeWhile_imp hc
  have hwords := splitWords_append_spaces hspaces (rstrip s)
  rw [← hs] at hwords
  exact hwords.symm

theorem backslashes_glue (buf t : Str) : backslashes (glue buf t) = backslashes buf + backslashes t := by
  have hsame := (show SameWords buf (if buf.isEmpty then [] else buf ++ [' ']) from fun _ => rfl).glue t []
  rw [List.append_nil, List.append_nil] at hsame
  rw [backslashes_of_splitWords hsame, backslashes_append]
  split_ifs with hempty
  · rw [List.isEmpty_iff.mp hempty]
  · rw [backslashes_append]
    rfl

theorem backslashes_norm (s : Str) : backslashes (norm s) = backslashes s := by
  have hjoin : ∀ ws : List Str, backslashes ((str " ").intercalate ws) = backslashes ws.flatten := by
    intro ws
    induction ws with
    | nil => rfl
    | cons w ws ih =>
      cases ws with
      | nil => rw [List.intercalate_singleton, List.flatten_singleton]
      | cons v ws =>
        have hflat : (w :: v :: ws).flatten = w ++ (v :: ws).flatten := rfl
        have hnone : backslashes (str " ") = 0 := rfl
        rw [List.intercalate_cons_cons, backslashes_append, backslashes_append, ih, hflat, backslashes_append]
        omega
  rw [norm, hjoin, flatten_splitWords, backslashes, count_solid rfl]
  rfl

/-- The backslashes that the database reading has kept. -/
def DbRecipe.kept (s : DbRecipe) : Nat := backslashes s.out.flatten + backslashes s.buf

/-- A line that is listed keeps its backslashes but one, if the buffer then ends in one. -/
theorem kept_line (s : DbRecipe) (t : Str) :
    (s.line t).kept + (if (rstrip (glue s.buf t)).getLast? = some '\\' then 1 else 0) = s.kept + backslashes t := by
  obtain ⟨out, buf⟩ := s
  have hglue := backslashes_glue buf t
  split_ifs with hlast
  · rw [line_of_continues hlast]
    obtain ⟨u, hu⟩ := List.getLast?_eq_some_iff.mp hlast
    have hrstrip := backslashes_rstrip (glue buf t)
    rw [hu, backslashes_append] at hrstrip
    show backslashes out.flatten + backslashes (rstrip (glue buf t)).dropLast + 1 =
      backslashes out.flatten + backslashes buf + backslashes t
    rw [hu, List.dropLast_concat]
    have hone : backslashes ['\\'] = 1 := rfl
    omega
  · rw [line_of_ends hlast]
    show backslashes (out ++ [strip (glue buf t)]).flatten + backslashes [] + 0 =
      backslashes out.flatten + backslashes buf + backslashes t
    rw [List.flatten_append, List.flatten_singleton, backslashes_append, backslashes_strip, hglue]
    have hnone : backslashes [] = 0 := rfl
    omega

theorem kept_line_le (s : DbRecipe) (t : Str) : (s.line t).kept ≤ s.kept + backslashes t := by
  have h := kept_line s t
  omega

theorem kept_init (s : DbRecipe) {init : List Str} (hinit : ∀ x ∈ init, continued x = true) :
    ((init.map dropTab).foldl DbRecipe.line s).kept = s.kept + backslashes (joinedText init) := by
  induction init generalizing s with
  | nil => rfl
  | cons x init ih =>
    obtain ⟨t, ht⟩ := exists_dropTab_of_continued (hinit x List.mem_cons_self)
    have hrest := ih (s.line (t ++ ['\\'])) fun y hy => hinit y (List.mem_cons_of_mem _ hy)
    rw [List.map_cons, List.foldl_cons, ht, hrest, line_backslash]
    show backslashes s.out.flatten + backslashes (glue s.buf t) + backslashes (joinedText init) =
      backslashes s.out.flatten + backslashes s.buf + backslashes (joinedText (x :: init))
    rw [backslashes_glue, joinedText, joinedText, List.flatMap_cons, ht, List.dropLast_concat, backslashes_append,
      backslashes_append]
    have hnone : backslashes [' '] = 0 := rfl
    omega

/-- A recipe line leaves at most the backslashes of its text. -/
theorem kept_segments_le (s : DbRecipe) {segments : List Str} (h : JoinedAs segments last raw) :
    ((segments.map dropTab).foldl DbRecipe.line s).kept ≤ s.kept + backslashes (strip (raw.drop 1)) := by
  obtain ⟨init, rfl, hinit, rfl⟩ := h
  rw [List.map_append, List.foldl_append, backslashes_strip]
  have hinit := kept_init s hinit
  have hlast := kept_line_le ((init.map dropTab).foldl DbRecipe.line s) (dropTab last)
  show (DbRecipe.line _ (dropTab last)).kept ≤ s.kept + backslashes (joinedText init ++ dropTab last)
  rw [backslashes_append]
  omega

/-- A recipe line that ends in a backslash leaves fewer, where nothing is in the buffer before it. -/
theorem kept_segments_lt (out : List Str) {segments : List Str} (h : JoinedAs segments last raw)
    (hbad : (strip (raw.drop 1)).getLast? = some '\\') :
    ((segments.map dropTab).foldl DbRecipe.line ⟨out, []⟩).kept <
      DbRecipe.kept ⟨out, []⟩ + backslashes (strip (raw.drop 1)) := by
  obtain ⟨init, rfl, hinit, rfl⟩ := h
  obtain ⟨buf, hfold, hsame⟩ := foldl_init out hinit sameWords_nil
  have hwords := hsame.glue (dropTab last) []
  rw [List.append_nil, List.append_nil, List.nil_append] at hwords
  have hlast : (rstrip (glue buf (dropTab last))).getLast? = some '\\' := by
    rw [getLast?_rstrip, ← flatten_splitWords, hwords, flatten_splitWords, ← getLast?_strip]
    exact hbad
  have hkept := kept_init ⟨out, []⟩ hinit
  have hline := kept_line ⟨out, buf⟩ (dropTab last)
  rw [if_pos hlast] at hline
  rw [List.map_append, List.foldl_append, backslashes_strip]
  rw [hfold] at hkept ⊢
  show (DbRecipe.line ⟨out, buf⟩ (dropTab last)).kept < _ + backslashes (joinedText init ++ dropTab last)
  rw [backslashes_append]
  omega

/-! ## The two readings -/

/-- What a recipe line is listed as. -/
def listed (rec : LogicalLine) : List Str := rec.segments.map dropTab

/-- The recipe lines are joined from their segments. -/
def AllJoined (recs : List LogicalLine) : Prop := ∀ rec ∈ recs, ∃ last, JoinedAs rec.segments last rec.raw

theorem allJoined_recipeTabs {text : Str} (i : Nat) : AllJoined (recipeTabs ((makefileLines text).drop i)) := by
  intro rec hrec
  obtain ⟨hmem, htab⟩ := recipeTabs_subset _ rec hrec
  exact exists_joinedAs (List.mem_of_mem_drop hmem) htab

/-- Two readings of a line: the same words, and empty together. -/
def ReadAlike (x y : Str) : Prop := splitWords x = splitWords y ∧ (x = [] ↔ y = [])

theorem foldl_good_recs (hjoined : AllJoined recs) (hgood : ∀ rec ∈ recs, (recipeBody rec).getLast? ≠ some '\\')
    (out : List Str) :
    ∃ xs, (recs.flatMap listed).foldl DbRecipe.line ⟨out, []⟩ = ⟨out ++ xs, []⟩ ∧
      List.Forall₂ ReadAlike xs (recs.map recipeBody) := by
  induction recs generalizing out with
  | nil =>
    refine ⟨[], ?_, .nil⟩
    rw [List.append_nil]
    rfl
  | cons rec recs ih =>
    obtain ⟨last, hlast⟩ := hjoined rec List.mem_cons_self
    obtain ⟨x, hx, hwords⟩ := foldl_good out hlast (hgood rec List.mem_cons_self)
    obtain ⟨xs, hxs, hreading⟩ := ih (fun r hr => hjoined r (List.mem_cons_of_mem _ hr))
      (fun r hr => hgood r (List.mem_cons_of_mem _ hr)) (out ++ [strip x])
    refine ⟨strip x :: xs, ?_, .cons ⟨?_, ?_⟩ hreading⟩
    · rw [List.flatMap_cons, List.foldl_append, listed, hx, hxs, List.append_assoc]
      rfl
    · rw [recipeBody, splitWords_strip, splitWords_strip, hwords]
    · rw [recipeBody, strip_eq_nil_iff, strip_eq_nil_iff, hwords]

theorem norm_of_readAlike {xs ys : List Str} (h : List.Forall₂ ReadAlike xs ys) :
    (xs.filter fun b => !b.isEmpty).map norm = (ys.filter fun b => !b.isEmpty).map norm := by
  induction h with
  | nil => rfl
  | @cons x y xs ys hxy _ ih =>
    obtain ⟨hwords, hempty⟩ := hxy
    by_cases hx : x = []
    · have hy : y = [] := hempty.mp hx
      rw [hx, hy]
      exact ih
    · have hy : y ≠ [] := fun hy => hx (hempty.mpr hy)
      have hkeep : ∀ {b : Str}, b ≠ [] → (!b.isEmpty) = true := by
        intro b hb
        rw [Bool.not_eq_true', List.isEmpty_eq_false_iff]
        exact hb
      simp only [List.filter_cons, hkeep hx, hkeep hy, if_true, List.map_cons]
      rw [ih, norm, norm, hwords]

theorem kept_recs_le (hjoined : AllJoined recs) (s : DbRecipe) :
    ((recs.flatMap listed).foldl DbRecipe.line s).kept ≤ s.kept + backslashes (recs.map recipeBody).flatten := by
  induction recs generalizing s with
  | nil => exact Nat.le_refl _
  | cons rec recs ih =>
    obtain ⟨last, hlast⟩ := hjoined rec List.mem_cons_self
    have hrec := kept_segments_le s hlast
    have hrest := ih (fun r hr => hjoined r (List.mem_cons_of_mem _ hr)) ((listed rec).foldl DbRecipe.line s)
    have hbody : backslashes ((rec :: recs).map recipeBody).flatten =
        backslashes (strip (rec.raw.drop 1)) + backslashes (recs.map recipeBody).flatten := backslashes_append _ _
    rw [List.flatMap_cons, List.foldl_append, hbody]
    unfold listed at hrest ⊢
    omega

/-- If a recipe line ends in a backslash, the database reading loses one. -/
theorem kept_recs_lt (hjoined : AllJoined recs) {bad : LogicalLine} (hmem : bad ∈ recs)
    (hbad : (recipeBody bad).getLast? = some '\\') (out : List Str) :
    ((recs.flatMap listed).foldl DbRecipe.line ⟨out, []⟩).kept <
      DbRecipe.kept ⟨out, []⟩ + backslashes (recs.map recipeBody).flatten := by
  induction recs generalizing out with
  | nil => cases hmem
  | cons rec recs ih =>
    obtain ⟨last, hlast⟩ := hjoined rec List.mem_cons_self
    have hjoined' : AllJoined recs := fun r hr => hjoined r (List.mem_cons_of_mem _ hr)
    have hbody : backslashes ((rec :: recs).map recipeBody).flatten =
        backslashes (strip (rec.raw.drop 1)) + backslashes (recs.map recipeBody).flatten := backslashes_append _ _
    rw [List.flatMap_cons, List.foldl_append, hbody]
    by_cases hrec : (recipeBody rec).getLast? = some '\\'
    · have hlt := kept_segments_lt out hlast hrec
      have hrest := kept_recs_le hjoined' ((listed rec).foldl DbRecipe.line ⟨out, []⟩)
      unfold listed at hrest ⊢
      omega
    · have hbad' : bad ∈ recs := by
        rcases List.mem_cons.mp hmem with rfl | hmem
        · exact absurd hbad hrec
        · exact hmem
      obtain ⟨x, hx, hwords⟩ := foldl_good out hlast hrec
      have hrest := ih hjoined' hbad' (out ++ [strip x])
      have hkept : DbRecipe.kept ⟨out ++ [strip x], []⟩ =
          DbRecipe.kept ⟨out, []⟩ + backslashes (strip (rec.raw.drop 1)) := by
        have hsame : backslashes (strip x) = backslashes (strip (rec.raw.drop 1)) := by
          rw [backslashes_strip, backslashes_strip, backslashes_of_splitWords hwords]
        show backslashes (out ++ [strip x]).flatten + backslashes [] = backslashes out.flatten + backslashes [] + _
        rw [List.flatten_append, List.flatten_singleton, backslashes_append, hsame]
        omega
      rw [listed, hx]
      omega

theorem backslashes_filter (ls : List Str) :
    backslashes (ls.filter fun b => !b.isEmpty).flatten = backslashes ls.flatten := by
  rw [List.flatten_filter_not_isEmpty]

theorem backslashes_dbRecipeLines (listing : List Str) :
    backslashes (dbRecipeLines listing).flatten = (listing.foldl DbRecipe.line {}).kept := by
  rw [dbRecipeLines, backslashes_filter, DbRecipe.kept]
  split_ifs with hempty
  · rw [List.isEmpty_iff.mp hempty]
    rfl
  · rw [List.flatten_append, List.flatten_singleton, backslashes_append, backslashes_strip]

theorem backslashes_of_norm {xs ys : List Str} (h : xs.map norm = ys.map norm) :
    backslashes xs.flatten = backslashes ys.flatten := by
  have hnorm : ∀ xs : List Str, backslashes (xs.map norm).flatten = backslashes xs.flatten := by
    intro xs
    induction xs with
    | nil => rfl
    | cons x xs ih =>
      rw [List.map_cons, List.flatten_cons, List.flatten_cons, backslashes_append, backslashes_append, ih,
        backslashes_norm]
  rw [← hnorm xs, h, hnorm]

/-- The two readings of a recipe are the same words exactly if no line of it ends in a backslash. -/
theorem dbRecipeLines_eq_iff (hjoined : AllJoined recs) :
    (dbRecipeLines (recs.flatMap listed)).map norm = ((recs.map recipeBody).filter fun b => !b.isEmpty).map norm ↔
      ∀ rec ∈ recs, (recipeBody rec).getLast? ≠ some '\\' := by
  constructor
  · intro heq rec hrec hbad
    have hlt := kept_recs_lt hjoined hrec hbad []
    have hcount := backslashes_of_norm heq
    rw [backslashes_dbRecipeLines, backslashes_filter] at hcount
    have hstart : DbRecipe.kept ⟨[], []⟩ = 0 := rfl
    have hcount' : ((recs.flatMap listed).foldl DbRecipe.line ⟨[], []⟩).kept =
        backslashes (recs.map recipeBody).flatten := hcount
    omega
  · intro hgood
    obtain ⟨xs, hxs, hreading⟩ := foldl_good_recs hjoined hgood []
    have hlines : dbRecipeLines (recs.flatMap listed) = xs.filter fun b => !b.isEmpty := by
      have hfold : (recs.flatMap listed).foldl DbRecipe.line {} = ⟨xs, []⟩ := hxs
      rw [dbRecipeLines, hfold]
      rfl
    rw [hlines]
    exact norm_of_readAlike hreading

/-! ## The check -/

variable {isFormat : Char → Bool} {text : Str}

theorem recipeBody_ne_nil {inRule : Bool} {rec : LogicalLine} (hline : (lineProblems isFormat inRule rec).1 = [])
    (hrec : rec ∈ makefileLines text) (htab : rec.tab = true) : recipeBody rec ≠ [] := by
  intro hnil
  obtain ⟨last, init, -, -, hraw⟩ := exists_joinedAs hrec htab
  have hsolid : solid (rec.raw.drop 1) = [] := by
    rw [← flatten_splitWords, (strip_eq_nil_iff _).mp hnil]
    rfl
  have hspace : ∀ c ∈ rec.raw, isBlank c = true := by
    intro c hc
    refine blank_of_accepted hline hrec c hc ?_
    rw [hraw] at hc hsolid
    rcases List.mem_cons.mp hc with rfl | hc
    · rfl
    · have hnot := List.filter_eq_nil_iff.mp hsolid c hc
      rwa [Bool.not_eq_true', Bool.not_eq_false] at hnot
  have hblank : (!rec.raw.isEmpty && rec.raw.all isBlank) = true := by
    rw [Bool.and_eq_true, List.all_eq_true]
    refine ⟨?_, hspace⟩
    rw [hraw]
    rfl
  have hbad := badSegments_eq_nil hline
  rw [lineProblems] at hline
  simp only [hbad, hblank, List.isEmpty_nil, Bool.not_true, Bool.false_eq_true, if_false, if_true] at hline
  cases hline

theorem different_mem_iff {db : Database} {gate : List GateLine} {closure : List Str} (ht : t ∈ closure)
    {listing : List Str} (hlookup : db.recipes.lookup t = some listing) (hdup : t ∉ db.duplicates) :
    .different t ∈ checkDbRecipes db gate closure ↔
      (dbRecipeLines listing).map norm ≠ (gate.filter fun l => l.target == t).map fun l => norm l.body := by
  have htarget : ∀ t', .different t ∈ checkDbTarget db gate t' → t' = t := by
    intro t' h
    unfold checkDbTarget at h
    split at h
    · simp at h
    · split_ifs at h
      · simp at h
      · simp at h
        exact h.symm
      · simp at h
  have hself : .different t ∈ checkDbTarget db gate t ↔
      (dbRecipeLines listing).map norm ≠ (gate.filter fun l => l.target == t).map fun l => norm l.body := by
    rw [checkDbTarget, hlookup]
    simp [hdup]
  rw [← hself, checkDbRecipes, List.mem_append, List.mem_flatMap]
  constructor
  · rintro (h | ⟨t', -, h⟩)
    · split_ifs at h
      · cases h
      · simp at h
    · rw [htarget t' h] at h
      exact h
  · intro h
    exact Or.inr ⟨t, ht, h⟩

theorem getLast?_recipeBody {rec : LogicalLine} (h : JoinedAs rec.segments last rec.raw) :
    (recipeBody rec).getLast? = (rstrip rec.raw).getLast? := by
  obtain ⟨init, -, -, hraw⟩ := h
  rw [recipeBody, getLast?_strip, getLast?_rstrip, hraw]
  rfl

/-- The database reading of a recipe that make lists as it stands is the text reading exactly if no TAB line of the
recipe ends in a backslash, trailing white space aside, and exactly then `check_db_recipes` does not call it
different. -/
theorem dbRecipeLines_agree_iff (hok : grammarProblems isFormat text = []) (start : Nat) :
    let lines := (makefileLines text).drop start
    ((dbRecipeLines (recipeListing lines)).map norm =
        (((recipeLines lines).map Prod.snd).filter fun b => !b.isEmpty).map norm ↔
      ∀ rec ∈ recipeTabs lines, (rstrip rec.raw).getLast? ≠ some '\\') ∧
    ∀ (db : Database) (gate : List GateLine) (closure : List Str) (t : Str), t ∈ closure →
      db.recipes.lookup t = some (recipeListing lines) → t ∉ db.duplicates →
      (gate.filter fun l => l.target == t) = (recipeLines lines).map (fun line => ⟨line.1, t, line.2⟩) →
        (.different t ∉ checkDbRecipes db gate closure ↔
          ∀ rec ∈ recipeTabs lines, (rstrip rec.raw).getLast? ≠ some '\\') := by
  intro lines
  have hjoined : AllJoined (recipeTabs lines) := allJoined_recipeTabs start
  have hbodies : (recipeLines lines).map Prod.snd = (recipeTabs lines).map recipeBody := by
    rw [recipeLines_eq, List.map_map]
    rfl
  have hfull : ((recipeTabs lines).map recipeBody).filter (fun b => !b.isEmpty) = (recipeTabs lines).map recipeBody := by
    rw [List.filter_eq_self]
    intro b hb
    obtain ⟨rec, hrec, rfl⟩ := List.mem_map.mp hb
    obtain ⟨hmem, htab⟩ := recipeTabs_subset _ rec hrec
    have hrec' : rec ∈ makefileLines text := List.mem_of_mem_drop hmem
    obtain ⟨inRule, hline⟩ := line_accepted hok hrec'
    rw [Bool.not_eq_true', List.isEmpty_eq_false_iff]
    exact recipeBody_ne_nil hline hrec' htab
  have hcond : (∀ rec ∈ recipeTabs lines, (recipeBody rec).getLast? ≠ some '\\') ↔
      ∀ rec ∈ recipeTabs lines, (rstrip rec.raw).getLast? ≠ some '\\' := by
    refine forall_congr' fun rec => forall_congr' fun hrec => ?_
    obtain ⟨last, hlast⟩ := hjoined rec hrec
    rw [getLast?_recipeBody hlast]
  have hiff := dbRecipeLines_eq_iff hjoined
  rw [hcond] at hiff
  refine ⟨?_, ?_⟩
  · rw [hbodies]
    exact hiff
  · intro db gate closure t ht hlookup hdup hgate
    have htext : ((gate.filter fun l => l.target == t).map fun l => norm l.body) =
        ((recipeTabs lines).map recipeBody).map norm := by
      rw [hgate, ← hbodies, List.map_map, List.map_map]
      rfl
    rw [different_mem_iff ht hlookup hdup, htext, not_not, ← hfull]
    exact hiff

/-- A recipe line that is continued. -/
def continuedText : Str := str "x:\n\techo a \\\n\t  b\n\techo c\n"

theorem dbRecipeLines_agree_iff_continued :
    grammarProblems (fun _ => false) continuedText = [] ∧
      ((dbRecipeLines (recipeListing ((makefileLines continuedText).drop 1))).map norm =
          (((recipeLines ((makefileLines continuedText).drop 1)).map Prod.snd).filter fun b => !b.isEmpty).map norm ↔
        ∀ rec ∈ recipeTabs ((makefileLines continuedText).drop 1), (rstrip rec.raw).getLast? ≠ some '\\') := by
  have hok : grammarProblems (fun _ => false) continuedText = [] := by decide +kernel
  exact ⟨hok, (dbRecipeLines_agree_iff hok 1).1⟩

/-- A recipe line that ends in two backslashes, and one behind it. -/
def evenText : Str := str "x:\n\techo a\\\\\n\techo b\n"

/-- The database reading joins the two lines. -/
theorem dbRecipeLines_joins_even :
    grammarProblems (fun _ => false) evenText = [] ∧
      (dbRecipeLines (recipeListing ((makefileLines evenText).drop 1))).map norm = [str "echo a\\ echo b"] ∧
      ((recipeLines ((makefileLines evenText).drop 1)).map Prod.snd).map norm = [str "echo a\\\\", str "echo b"] := by
  decide +kernel

end Vizra.Makefile
