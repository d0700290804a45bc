import Mathlib.Data.List.DropRight
import Mathlib.Data.List.Infix

/-!
# Python's `str`

The methods of a Python string that a verified script calls, over the list of its characters. Case mappings are
those of the texts that are compared with ASCII ones: a character whose image is not ASCII stays as it is.
-/

namespace Py

abbrev Str := List Char

/-- A literal. -/
def str (s : String) : Str := s.toList

/-- `str.isspace` of one character, which is also `\s`. -/
def isSpace (c : Char) : Bool :=
  (0x09 ≤ c.val && c.val ≤ 0x0D) || (0x1C ≤ c.val && c.val ≤ 0x20) || c.val == 0x85 || c.val == 0xA0 ||
    c.val == 0x1680 || (0x2000 ≤ c.val && c.val ≤ 0x200A) || c.val == 0x2028 || c.val == 0x2029 ||
    c.val == 0x202F || c.val == 0x205F || c.val == 0x3000

/-- `strip()` with the characters that are dropped. -/
def stripOf (p : Char → Bool) (s : Str) : Str := (s.dropWhile p).rdropWhile p

/-- `strip()`. -/
def strip (s : Str) : Str := stripOf isSpace s

theorem strip_append {a w b : Str} (ha : ∀ c ∈ a, isSpace c = true) (hb : ∀ c ∈ b, isSpace c = true)
    (hhead : ∀ c ∈ w.head?, isSpace c = false) (hlast : ∀ c ∈ w.getLast?, isSpace c = false) (hw : w ≠ []) :
    strip (a ++ w ++ b) = w := by
  have hleft : (a ++ w ++ b).dropWhile isSpace = w ++ b := by
    rw [List.append_assoc, List.dropWhile_append_of_pos ha]
    obtain ⟨c, w', rfl⟩ := List.exists_cons_of_ne_nil hw
    rw [List.cons_append, List.dropWhile_cons_of_neg]
    rw [hhead c rfl]
    exact Bool.false_ne_true
  have hright : (w ++ b).rdropWhile isSpace = w.rdropWhile isSpace := by
    rw [List.rdropWhile, List.reverse_append, List.dropWhile_append_of_pos, ← List.rdropWhile]
    intro c hc
    exact hb c (List.mem_reverse.mp hc)
  rw [strip, stripOf, hleft, hright, List.rdropWhile_eq_self_iff]
  intro hne
  rw [hlast _ (List.getLast?_eq_some_getLast hne)]
  exact Bool.false_ne_true

/-- `rstrip()`. -/
def rstrip (s : Str) : Str := s.rdropWhile isSpace

/-- `split()`: the words between white space. -/
def splitWords (s : Str) : List Str := (s.splitOnP isSpace).filter fun w => !w.isEmpty

/-- What `strip()` drops on both sides. -/
theorem exists_strip (s : Str) :
    ∃ a b, s = a ++ strip s ++ b ∧ (∀ c ∈ a, isSpace c = true) ∧ ∀ c ∈ b, isSpace c = true := by
  refine ⟨s.takeWhile isSpace, (s.dropWhile isSpace).rtakeWhile isSpace, ?_, ?_, ?_⟩
  · rw [List.append_assoc, strip, stripOf, List.rdropWhile_append_rtakeWhile, List.takeWhile_append_dropWhile]
  · exact fun c hc => List.mem_takeWhile_imp hc
  · exact fun c hc => List.mem_rtakeWhile_imp hc

/-! ### Words -/

theorem splitWords_nil : splitWords [] = [] := rfl

theorem splitWords_append_cons (a b : Str) {c : Char} (hc : isSpace c = true) :
    splitWords (a ++ c :: b) = splitWords a ++ splitWords b := by
  rw [splitWords, List.splitOnP_append_cons a b hc, List.filter_append, ← splitWords, ← splitWords]

theorem splitWords_of_word {w : Str} (hw : ∀ c ∈ w, isSpace c = false) (hne : w ≠ []) : splitWords w = [w] := by
  rw [splitWords, List.splitOnP_eq_singleton hw, List.filter_singleton, List.isEmpty_eq_false_iff.mpr hne]
  rfl

theorem splitWords_spaces_append {a : Str} (ha : ∀ c ∈ a, isSpace c = true) (s : Str) :
    splitWords (a ++ s) = splitWords s := by
  induction a with
  | nil => rfl
  | cons c a ih =>
    rw [List.cons_append, ← List.nil_append (c :: (a ++ s)), splitWords_append_cons _ _ (ha c List.mem_cons_self),
      ih fun d hd => ha d (List.mem_cons_of_mem _ hd)]
    rfl

theorem splitWords_append_spaces {b : Str} (hb : ∀ c ∈ b, isSpace c = true) (s : Str) :
    splitWords (s ++ b) = splitWords s := by
  cases b with
  | nil => rw [List.append_nil]
  | cons c b =>
    have hspaces : splitWords b = splitWords [] := by
      rw [← List.append_nil b]
      exact splitWords_spaces_append (fun d hd => hb d (List.mem_cons_of_mem _ hd)) []
    rw [splitWords_append_cons _ _ (hb c List.mem_cons_self), hspaces, splitWords_nil, List.append_nil]

theorem splitWords_strip (s : Str) : splitWords (strip s) = splitWords s := by
  obtain ⟨a, b, hs, ha, hb⟩ := exists_strip s
  calc splitWords (strip s) = splitWords (a ++ strip s) := (splitWords_spaces_append ha _).symm
    _ = splitWords (a ++ strip s ++ b) := (splitWords_append_spaces hb _).symm
    _ = splitWords s := by rw [← hs]

/-- A word with white space or nothing behind it. -/
theorem splitWords_word_append {w rest : Str} (hw : ∀ c ∈ w, isSpace c = false) (hne : w ≠ [])
    (hrest : ∀ c ∈ rest.head?, isSpace c = true) : splitWords (w ++ rest) = w :: splitWords rest := by
  cases rest with
  | nil => rw [List.append_nil, splitWords_of_word hw hne, splitWords_nil]
  | cons c rest =>
    have hc : isSpace c = true := hrest c rfl
    rw [splitWords_append_cons _ _ hc, splitWords_of_word hw hne, ← List.nil_append (c :: rest),
      splitWords_append_cons _ _ hc]
    rfl

/-- Where the first word stands. -/
theorem exists_of_splitWords_eq_cons {s w : Str} {ws : List Str} (h : splitWords s = w :: ws) :
    ∃ a rest, s = a ++ (w ++ rest) ∧ (∀ c ∈ a, isSpace c = true) ∧ (∀ c ∈ w, isSpace c = false) ∧ w ≠ [] ∧
      ∀ c ∈ rest.head?, isSpace c = true := by
  let body := s.dropWhile isSpace
  let word := body.takeWhile fun c => !isSpace c
  let rest := body.dropWhile fun c => !isSpace c
  have hs : s = s.takeWhile isSpace ++ (word ++ rest) := by
    rw [List.takeWhile_append_dropWhile, List.takeWhile_append_dropWhile]
  have ha : ∀ c ∈ s.takeWhile isSpace, isSpace c = true := fun c hc => List.mem_takeWhile_imp hc
  have hword : ∀ c ∈ word, isSpace c = false := by
    intro c hc
    have hnot := List.mem_takeWhile_imp hc
    rwa [Bool.not_eq_true'] at hnot
  have hrest : ∀ c ∈ rest.head?, isSpace c = true := by
    intro c hc
    have hhead := List.head?_dropWhile_not (fun c => !isSpace c) body
    rw [Option.mem_def.mp hc] at hhead
    have hnot : (!isSpace c) = false := hhead
    rwa [Bool.not_eq_false'] at hnot
  have hne : word ≠ [] := by
    intro hnil
    have hbody : body = [] := by
      cases hb : body with
      | nil => rfl
      | cons c t =>
        exfalso
        have hspace := List.head?_dropWhile_not isSpace s
        rw [show s.dropWhile isSpace = c :: t from hb] at hspace
        have hcons : word = c :: t.takeWhile fun c => !isSpace c := by
          show body.takeWhile _ = _
          rw [hb, List.takeWhile_cons_of_pos]
          rw [Bool.not_eq_true']
          exact hspace
        rw [hnil] at hcons
        cases hcons
    have hempty : splitWords s = [] := by
      rw [hs, splitWords_spaces_append ha, List.takeWhile_append_dropWhile, hbody, splitWords_nil]
    rw [hempty] at h
    cases h
  have heq : splitWords s = word :: splitWords rest := by
    rw [hs, splitWords_spaces_append ha, splitWords_word_append hword hne hrest]
  rw [heq] at h
  obtain ⟨rfl, -⟩ := List.cons.inj h
  exact ⟨_, rest, hs, ha, hword, hne, hrest⟩

/-- What is not white space. -/
def solid (s : Str) : Str := s.filter fun c => !isSpace c

theorem flatten_splitWords (s : Str) : (splitWords s).flatten = solid s := by
  have hsplit : ∀ s : Str, (s.splitOnP isSpace).flatten = solid s := by
    intro s
    induction s with
    | nil => rfl
    | cons c s ih =>
      rw [List.splitOnP_cons_eq_if_modifyHead]
      by_cases hc : isSpace c = true
      · rw [if_pos hc, List.flatten_cons, List.nil_append, ih, solid, solid, List.filter_cons_of_neg]
        rw [hc]
        exact Bool.false_ne_true
      · obtain ⟨w, ws, hw⟩ := List.exists_cons_of_ne_nil (List.splitOnP_ne_nil isSpace s)
        rw [hw] at ih
        rw [Bool.not_eq_true] at hc
        rw [if_neg (by rw [hc]; exact Bool.false_ne_true), hw, List.modifyHead_cons, List.flatten_cons,
          List.cons_append, ← List.flatten_cons, ih, solid, solid, List.filter_cons_of_pos]
        rw [hc]
        rfl
  rw [splitWords, List.flatten_filter_not_isEmpty, hsplit]

theorem getLast?_rstrip (s : Str) : (rstrip s).getLast? = (solid s).getLast? := by
  have hfind : (s.reverse.dropWhile isSpace).head? = (s.reverse.filter fun c => !isSpace c).head? := by
    rw [List.head?_filter, List.find?_eq_head?_dropWhile_not]
    simp only [Bool.not_not]
  rw [rstrip, List.rdropWhile, List.getLast?_reverse, hfind, List.filter_reverse, List.head?_reverse, solid]

theorem getLast?_strip (s : Str) : (strip s).getLast? = (solid s).getLast? := by
  have hrstrip := getLast?_rstrip (s.dropWhile isSpace)
  have hsolid : solid (s.dropWhile isSpace) = solid s := by
    rw [← flatten_splitWords, ← flatten_splitWords]
    congr 1
    calc splitWords (s.dropWhile isSpace)
        = splitWords (s.takeWhile isSpace ++ s.dropWhile isSpace) :=
          (splitWords_spaces_append (fun c hc => List.mem_takeWhile_imp hc) _).symm
      _ = splitWords s := by rw [List.takeWhile_append_dropWhile]
  rw [hsolid] at hrstrip
  exact hrstrip

theorem strip_eq_nil_iff (s : Str) : strip s = [] ↔ splitWords s = [] := by
  constructor
  · intro h
    rw [← splitWords_strip, h, splitWords_nil]
  · intro h
    have hlast := getLast?_strip s
    rw [← flatten_splitWords, h] at hlast
    exact List.getLast?_eq_none_iff.mp hlast

theorem count_solid {c : Char} (hc : isSpace c = false) (s : Str) : (solid s).count c = s.count c := by
  refine List.count_filter ?_
  rw [hc]
  rfl

/-! ### Places -/

/-- The text `t` stands in `s`: in front of it is the start or a character of `p`, behind it the end or one of `q`. -/
def Stands (p q : Char → Bool) (t s : Str) : Prop :=
  ∃ a b, s = a ++ (t ++ b) ∧ (∀ c ∈ a.getLast?, p c = true) ∧ ∀ c ∈ b.head?, q c = true

theorem Stands.mono {p q p' q' : Char → Bool} {t s : Str} (h : Stands p q t s) (hp : ∀ c, p c = true → p' c = true)
    (hq : ∀ c, q c = true → q' c = true) : Stands p' q' t s := by
  obtain ⟨a, b, hs, ha, hb⟩ := h
  exact ⟨a, b, hs, fun c hc => hp c (ha c hc), fun c hc => hq c (hb c hc)⟩

/-- At the ends of the inner text the characters around it count. -/
theorem Stands.trans {p q : Char → Bool} {t u s : Str} (h : Stands p q t u) (h' : Stands p q u s) :
    Stands p q t s := by
  obtain ⟨a, b, rfl, ha, hb⟩ := h
  obtain ⟨a', b', rfl, ha', hb'⟩ := h'
  refine ⟨a' ++ a, b ++ b', by simp only [List.append_assoc], ?_, ?_⟩
  · intro c hc
    rw [List.getLast?_append, Option.mem_def, Option.or_eq_some_iff] at hc
    rcases hc with hc | ⟨-, hc⟩
    · exact ha c hc
    · exact ha' c hc
  · intro c hc
    rw [List.head?_append, Option.mem_def, Option.or_eq_some_iff] at hc
    rcases hc with hc | ⟨-, hc⟩
    · exact hb c hc
    · exact hb' c hc

/-- The words are what stands between white space and has none in it. -/
theorem mem_splitWords_iff {s w : Str} :
    w ∈ splitWords s ↔ w ≠ [] ∧ (∀ c ∈ w, isSpace c = false) ∧ Stands isSpace isSpace w s := by
  constructor
  · intro hw
    induction hn : s.length using Nat.strong_induction_on generalizing s with
    | h n ih =>
      obtain ⟨v, vs, hvs⟩ := List.exists_cons_of_ne_nil (List.ne_nil_of_mem hw)
      obtain ⟨a, rest, rfl, ha, hv, hne, hrest⟩ := exists_of_splitWords_eq_cons hvs
      rw [splitWords_spaces_append ha, splitWords_word_append hv hne hrest] at hw
      rcases List.mem_cons.mp hw with rfl | hw
      · exact ⟨hne, hv, a, rest, rfl, fun c hc => ha c (List.mem_of_mem_getLast? hc), hrest⟩
      · have hshort : rest.length < n := by
          have hpos := List.length_pos_iff.mpr hne
          rw [← hn, List.length_append, List.length_append]
          omega
        obtain ⟨hwne, hword, a', b, rfl, ha', hb⟩ := ih _ hshort hw rfl
        refine ⟨hwne, hword, a ++ (v ++ a'), b, by simp only [List.append_assoc], ?_, hb⟩
        have hne' : a' ≠ [] := by
          rintro rfl
          obtain ⟨c, w', rfl⟩ := List.exists_cons_of_ne_nil hwne
          have hspace := hrest c rfl
          rw [hword c List.mem_cons_self] at hspace
          cases hspace
        rw [← List.append_assoc, List.getLast?_append_of_ne_nil _ hne']
        exact ha'
  · rintro ⟨hne, hword, a, b, rfl, ha, hb⟩
    rcases List.eq_nil_or_concat a with rfl | ⟨a, c, rfl⟩
    · rw [List.nil_append, splitWords_word_append hword hne hb]
      exact List.mem_cons_self
    · rw [List.concat_eq_append] at ha ⊢
      have hc : isSpace c = true := ha c List.getLast?_concat
      rw [List.append_assoc, List.singleton_append, splitWords_append_cons _ _ hc,
        splitWords_word_append hword hne hb]
      exact List.mem_append_right _ List.mem_cons_self

/-! ### Case -/

def lowerChar (c : Char) : Char :=
  -- the Kelvin sign
  if c.val == 0x212A then 'k' else c.toLower

/-- `lower()`. -/
def lower (s : Str) : Str := s.map lowerChar

def upperChar (c : Char) : Str :=
  match c.val.toNat with
  | 0xDF => ['S', 'S']
  | 0x131 => ['I']
  | 0x17F => ['S']
  | 0xFB00 => ['F', 'F']
  | 0xFB01 => ['F', 'I']
  | 0xFB02 => ['F', 'L']
  | 0xFB03 => ['F', 'F', 'I']
  | 0xFB04 => ['F', 'F', 'L']
  | 0xFB05 => ['S', 'T']
  | 0xFB06 => ['S', 'T']
  | _ => [c.toUpper]

/-- `upper()`. -/
def upper (s : Str) : Str := s.flatMap upperChar

/-- `replace` of one character. -/
def replaceChar (a b : Char) (s : Str) : Str := s.map fun c => if c = a then b else c

/-- `sub in s`. -/
def contains (s sub : Str) : Bool := s.tails.any fun t => sub.isPrefixOf t

/-- The characters that end a line for `splitlines()`. -/
def isLineEnd (c : Char) : Bool :=
  (0x0A ≤ c.val && c.val ≤ 0x0D) || (0x1C ≤ c.val && c.val ≤ 0x1E) || c.val == 0x85 || c.val == 0x2028 ||
    c.val == 0x2029

/-- `splitlines()`, with the line that is being read. -/
def splitLinesFrom : Str → Str → List Str
  | line, [] => if line.isEmpty then [] else [line]
  | line, '\r' :: '\n' :: s => line :: splitLinesFrom [] s
  | line, c :: s => if isLineEnd c then line :: splitLinesFrom [] s else splitLinesFrom (line ++ [c]) s

/-- `splitlines()`. -/
def splitLines (s : Str) : List Str := splitLinesFrom [] s

theorem splitLinesFrom_line {acc line : Str} (hline : ∀ c ∈ line, isLineEnd c = false) {s : Str} :
    splitLinesFrom acc (line ++ '\n' :: s) = (acc ++ line) :: splitLinesFrom [] s := by
  induction line generalizing acc with
  | nil =>
    rw [List.nil_append, List.append_nil, splitLinesFrom.eq_def]
    rfl
  | cons c line ih =>
    have hc : isLineEnd c = false := hline c List.mem_cons_self
    have hne : c ≠ '\r' := by
      rintro rfl
      exact nomatch hc
    have hstep : splitLinesFrom acc (c :: (line ++ '\n' :: s)) = splitLinesFrom (acc ++ [c]) (line ++ '\n' :: s) := by
      rw [splitLinesFrom, hc]
      · exact if_neg Bool.false_ne_true
      · rintro t rfl
        exact absurd rfl hne
    rw [List.cons_append, hstep, ih fun d hd => hline d (List.mem_cons_of_mem _ hd), List.append_assoc,
      List.singleton_append]

theorem isSpace_of_isLineEnd {c : Char} (h : isLineEnd c = true) : isSpace c = true := by
  simp only [isLineEnd, isSpace, Bool.or_eq_true, Bool.and_eq_true, decide_eq_true_eq, beq_iff_eq,
    UInt32.le_iff_toNat_le, ← UInt32.toNat_inj, UInt32.reduceToNat] at h ⊢
  omega

/-- A line stands between ends of lines, where the first one is continued. -/
theorem stands_of_mem_splitLinesFrom {acc s line : Str} (h : line ∈ splitLinesFrom acc s) {pre : Str}
    (hpre : ∀ c ∈ pre.getLast?, isLineEnd c = true) : Stands isLineEnd isLineEnd line (pre ++ (acc ++ s)) := by
  induction acc, s using splitLinesFrom.induct generalizing pre with
  | case1 acc hempty =>
    rw [splitLinesFrom, if_pos hempty] at h
    cases h
  | case2 acc hempty =>
    rw [splitLinesFrom, if_neg hempty] at h
    rw [List.mem_singleton.mp h]
    exact ⟨pre, [], rfl, hpre, nofun⟩
  | case3 acc s ih =>
    rw [splitLinesFrom] at h
    rcases List.mem_cons.mp h with rfl | h
    · refine ⟨pre, '\r' :: '\n' :: s, rfl, hpre, ?_⟩
      rintro c ⟨⟩
      rfl
    · have hstands := @ih h (pre ++ (acc ++ ['\r', '\n'])) (by simp [isLineEnd])
      simpa using hstands
  | case4 acc c s hcr hc ih =>
    rw [splitLinesFrom.eq_3 acc c s hcr, if_pos hc] at h
    rcases List.mem_cons.mp h with rfl | h
    · refine ⟨pre, c :: s, rfl, hpre, ?_⟩
      rintro d ⟨⟩
      exact hc
    · have hstands := @ih h (pre ++ (acc ++ [c])) (by simp [hc])
      simpa using hstands
  | case5 acc c s hcr hc ih =>
    rw [splitLinesFrom.eq_3 acc c s hcr, if_neg hc] at h
    have hstands := ih h hpre
    rwa [List.append_assoc, List.singleton_append] at hstands

theorem stands_of_mem_splitLines {s line : Str} (h : line ∈ splitLines s) : Stands isLineEnd isLineEnd line s :=
  @stands_of_mem_splitLinesFrom [] s line h [] nofun

/-- Lines that are each ended by a line feed. -/
def unlines (lines : List Str) : Str := lines.flatMap fun line => line ++ ['\n']

theorem splitLines_unlines {lines : List Str} (h : ∀ line ∈ lines, ∀ c ∈ line, isLineEnd c = false) :
    splitLines (unlines lines) = lines := by
  unfold splitLines unlines
  induction lines with
  | nil => rfl
  | cons line lines ih =>
    rw [List.flatMap_cons, List.append_assoc, List.singleton_append,
      splitLinesFrom_line (h line List.mem_cons_self), ih fun l hl => h l (List.mem_cons_of_mem _ hl), List.nil_append]

/-- `<=` of two strings. -/
def le : Str → Str → Bool
  | [], _ => true
  | _ :: _, [] => false
  | c :: s, d :: t => c < d || (c == d && le s t)

/-! ## `os.path` -/

def isAbs (path : Str) : Bool := path.head? == some '/'

/-- The loop of `normpath` over the parts of a path, with those that are kept; `rooted` says whether the path starts
with a slash. -/
def normParts (rooted : Bool) : List Str → List Str → List Str
  | kept, [] => kept
  | kept, part :: parts =>
    if part.isEmpty || part == str "." then normParts rooted kept parts
    else if part != str ".." || (!rooted && kept.isEmpty) || kept.getLast? == some (str "..") then
      normParts rooted (kept ++ [part]) parts
    else normParts rooted kept.dropLast parts

def normpath (path : Str) : Str :=
  let slashes :=
    -- two slashes in front are kept, three are not
    if (str "//").isPrefixOf path && !(str "///").isPrefixOf path then str "//"
    else if isAbs path then str "/"
    else []
  let norm := slashes ++ (str "/").intercalate (normParts (isAbs path) [] (path.splitOn '/'))
  if norm.isEmpty then str "." else norm

end Py
