import Vizra.Makefile.Pin
import Vizra.Makefile.Proofs.GrammarProofs

/-!
# What the pin accepts

The grammar has no directives, so no line of an accepted text should be followed as one. That is so for the lines
that are no recipe lines: a directive word in front of an operator is refused. A recipe line is a command for the
shell and may start with `include` or `load`; `static_read_set` follows it all the same, and then the pin must name a
second file.
-/

namespace Vizra.Makefile

open Py

/-! ## Directives -/

theorem readDirectives_facts {d : Str} (h : d ∈ readDirectives) :
    d ∈ directiveKeywords ∧ d ≠ [] ∧ ∀ c ∈ d, isLeadChar c = true := by
  have hall : ∀ d ∈ readDirectives, d ∈ directiveKeywords ∧ d ≠ [] ∧ d.all isLeadChar = true := by decide
  obtain ⟨hkeyword, hne, hlead⟩ := hall d h
  exact ⟨hkeyword, hne, List.all_eq_true.mp hlead⟩

/-- The text of a directive. -/
theorem matchReadDirective_eq_some {code d args : Str} (h : matchReadDirective code = some (d, args)) :
    d ∈ readDirectives ∧ ∃ blanks rest, code = blanks ++ (d ++ rest) ∧ (∀ c ∈ blanks, isBlank c = true) ∧
      (∀ c ∈ rest.head?, isBlank c = true) ∧ args = strip rest := by
  obtain ⟨d', hfind, heq⟩ := Option.map_eq_some_iff.mp h
  cases heq
  have hfound := List.find?_some hfind
  rw [Bool.and_eq_true] at hfound
  obtain ⟨rest, hrest⟩ := List.isPrefixOf_iff_prefix.mp hfound.1
  refine ⟨List.mem_of_find?_eq_some hfind, code.takeWhile isBlank, rest, ?_, ?_, ?_, ?_⟩
  · rw [hrest, List.takeWhile_append_dropWhile]
  · exact fun c hc => List.mem_takeWhile_imp hc
  · intro c hc
    have hnext := hfound.2
    rw [← hrest, List.drop_left, Option.mem_def.mp hc, Option.all_some] at hnext
    exact hnext
  · rw [← hrest, List.drop_left]

/-- The words of a directive. -/
theorem splitWords_of_directive {code d args : Str} (h : matchReadDirective code = some (d, args)) :
    splitWords code = d :: splitWords args := by
  obtain ⟨hd, blanks, rest, rfl, hblanks, hrest, rfl⟩ := matchReadDirective_eq_some h
  obtain ⟨-, hne, hlead⟩ := readDirectives_facts hd
  rw [splitWords_spaces_append (fun c hc => isSpace_of_isBlank (hblanks c hc)), splitWords_strip]
  exact splitWords_word_append (fun c hc => isSpace_of_isLeadChar (hlead c hc)) hne
    fun c hc => isSpace_of_isBlank (hrest c hc)

/-- Where the white space is blanks, a text whose first word is a directive reads as one. -/
theorem exists_directive {code w : Str} {ws : List Str} (hblank : ∀ c ∈ code, isSpace c = true → isBlank c = true)
    (hwords : splitWords code = w :: ws) (hw : w ∈ readDirectives) :
    ∃ args, matchReadDirective code = some (w, args) := by
  obtain ⟨a, rest, hcode, ha, hword, hne, hrest⟩ := exists_of_splitWords_eq_cons hwords
  have hmem : ∀ c ∈ a ++ (w ++ rest), c ∈ code := fun c hc => hcode ▸ hc
  have hbody : code.dropWhile isBlank = w ++ rest := by
    rw [hcode]
    refine dropWhile_eq_of_append ?_ ?_
    · intro c hc
      exact hblank c (hmem c (List.mem_append_left _ hc)) (ha c hc)
    · intro c hc
      obtain ⟨b, bs, rfl⟩ := List.exists_cons_of_ne_nil hne
      cases hc
      by_contra hnot
      rw [Bool.not_eq_false] at hnot
      have hspace := isSpace_of_isBlank hnot
      rw [hword c List.mem_cons_self] at hspace
      cases hspace
  have hnext : rest.head?.all isBlank = true := by
    cases rest with
    | nil => rfl
    | cons c rest =>
      exact hblank c (hmem c (List.mem_append_right _ (List.mem_append_right _ List.mem_cons_self))) (hrest c rfl)
  have hsome : (matchReadDirective code).isSome = true := by
    rw [matchReadDirective, Option.isSome_map, List.find?_isSome]
    refine ⟨w, hw, ?_⟩
    rw [hbody, List.drop_left, hnext, Bool.and_true]
    exact List.isPrefixOf_iff_prefix.mpr (List.prefix_append w rest)
  obtain ⟨⟨d, args⟩, hmatch⟩ := Option.isSome_iff_exists.mp hsome
  have hfirst := splitWords_of_directive hmatch
  rw [hwords] at hfirst
  rw [(List.cons.inj hfirst).1]
  exact ⟨args, hmatch⟩

/-- A text with a lead does not start with a directive, unless that is the lead. -/
theorem lead_of_directive {code d args lead : Str} (h : matchReadDirective code = some (d, args))
    (hlead : leadOfOperator code = some lead) : lead = d := by
  obtain ⟨hd, blanks, rest, hcode, hblanks, hrest, -⟩ := matchReadDirective_eq_some h
  obtain ⟨-, hne, hchars⟩ := readDirectives_facts hd
  simp only [leadOfOperator] at hlead
  split_ifs at hlead with hop
  rw [Bool.and_eq_true, Bool.not_eq_true', List.isEmpty_eq_false_iff] at hop
  have hnone : blanks = [] := by
    cases blanks with
    | nil => rfl
    | cons c blanks =>
      exfalso
      apply hop.1
      rw [hcode, List.cons_append, List.takeWhile_cons_of_neg]
      rw [isLeadChar_of_isBlank (hblanks c List.mem_cons_self)]
      exact Bool.false_ne_true
  subst hnone
  rw [← Option.some.inj hlead, hcode, List.nil_append]
  exact takeWhile_eq_of_append hchars fun c hc => isLeadChar_of_isBlank (hrest c hc)

variable {isFormat : Char → Bool} {text : Str}

/-- An accepted line that is no recipe line does not read as a directive. -/
theorem matchReadDirective_eq_none {inRule : Bool} {rec : LogicalLine} (hline : (lineProblems isFormat inRule rec).1 = [])
    (hrec : rec ∈ makefileLines text) (htab : rec.tab = false) : matchReadDirective rec.code = none := by
  by_cases hkeeps : keepsRuleOpen rec = true
  · rw [code_of_keepsRuleOpen hrec hkeeps]
    rfl
  · rw [Bool.not_eq_true] at hkeeps
    obtain ⟨lead, hlead, hnot⟩ := exists_lead hline htab hkeeps
    by_contra hsome
    obtain ⟨⟨d, args⟩, hmatch⟩ := Option.ne_none_iff_exists'.mp hsome
    have heq := lead_of_directive hmatch hlead
    rw [heq] at hnot
    exact hnot (readDirectives_facts (matchReadDirective_eq_some hmatch).1).1

/-! ## Recipe lines -/

/-- The first word of a recipe line is a directive, and there are more words. -/
def ReadsAsDirective (rec : LogicalLine) : Prop :=
  rec.tab = true ∧ ∃ w v ws, splitWords rec.raw = w :: v :: ws ∧ w ∈ readDirectives

/-- The accepted lines that name something behind a directive are such recipe lines. -/
theorem readLine_ne_nil_iff {inRule : Bool} {rec : LogicalLine} (hline : (lineProblems isFormat inRule rec).1 = [])
    (hrec : rec ∈ makefileLines text) (rel : Str) : readLine rel rec ≠ [] ↔ ReadsAsDirective rec := by
  constructor
  · intro hne
    unfold readLine at hne
    split at hne
    · exact absurd rfl hne
    · rename_i d args hmatch
      have htab : rec.tab = true := by
        by_contra htab
        rw [Bool.not_eq_true] at htab
        rw [matchReadDirective_eq_none hline hrec htab] at hmatch
        cases hmatch
      rw [ne_eq, List.map_eq_nil_iff] at hne
      obtain ⟨v, ws, hargs⟩ := List.exists_cons_of_ne_nil hne
      have hwords := splitWords_of_directive hmatch
      rw [code_of_tab hrec htab, hargs] at hwords
      exact ⟨htab, d, v, ws, hwords, (matchReadDirective_eq_some hmatch).1⟩
  · rintro ⟨htab, w, v, ws, hwords, hw⟩ hnil
    obtain ⟨args, hmatch⟩ := exists_directive (blank_of_accepted hline hrec) hwords hw
    have hargs := splitWords_of_directive hmatch
    rw [hwords] at hargs
    rw [readLine, code_of_tab hrec htab, hmatch] at hnil
    have hempty : splitWords args = [] := List.map_eq_nil_iff.mp hnil
    rw [hempty] at hargs
    cases (List.cons.inj hargs).2

/-! ## The pin file -/

theorem nodup_pinEntries {n : Nat} {header : Bool} {entries pins : Pins} {lines : List Str}
    (h : pinEntries n header entries lines = .ok pins) (hentries : entries.names.Nodup) : pins.names.Nodup := by
  induction n, header, entries, lines using pinEntries.induct with
  | case1 n header entries hempty =>
    rw [pinEntries, if_pos hempty] at h
    cases h
  | case2 n header entries hempty =>
    rw [pinEntries, if_neg hempty] at h
    cases h
    exact hentries
  | case3 n header entries line lines hskip ih =>
    rw [pinEntries, if_pos hskip] at h
    exact ih h hentries
  | case4 n header entries line lines hskip hheader hmatch ih =>
    rw [pinEntries, if_neg hskip, if_pos hheader, if_pos hmatch] at h
    exact ih h hentries
  | case5 n header entries line lines hskip hheader hmatch =>
    rw [pinEntries, if_neg hskip, if_pos hheader, if_neg hmatch] at h
    cases h
  | case6 n header entries line lines hskip hheader hmatch =>
    rw [pinEntries, if_neg hskip, if_neg hheader, hmatch] at h
    cases h
  | case7 n header entries line lines hskip hheader name digest hmatch hpath =>
    rw [pinEntries, if_neg hskip, if_neg hheader, hmatch] at h
    simp only [if_pos hpath] at h
    cases h
  | case8 n header entries line lines hskip hheader name digest hmatch hpath hdup =>
    rw [pinEntries, if_neg hskip, if_neg hheader, hmatch] at h
    simp only [if_neg hpath, if_pos hdup] at h
    cases h
  | case9 n header entries line lines hskip hheader name digest hmatch hpath hdup ih =>
    rw [pinEntries, if_neg hskip, if_neg hheader, hmatch] at h
    simp only [if_neg hpath, if_neg hdup] at h
    refine ih h ?_
    rw [Pins.names, List.map_append, List.nodup_append]
    refine ⟨hentries, List.nodup_singleton _, ?_⟩
    rintro a ha b hb rfl
    rw [List.mem_singleton.mp hb] at ha
    exact hdup (List.contains_iff_mem.mpr ha)

/-! ## The verdict -/

variable {Bytes : Type}

/-- The text of a regular file of the tree. -/
def Tree.textOf (decode : Bytes → Option Str) (tree : Tree Bytes) (rel : Str) : Option Str :=
  match tree.node rel with
  | .file data => decode data
  | _ => none

variable {sha256 : Bytes → Str} {decode : Bytes → Option Str} {tree : Tree Bytes} {r : PinResult}

theorem text_of_readPinned {rel want : Str} (h : readPinned sha256 decode rel want (tree.node rel) = .inr text) :
    tree.textOf decode rel = some text := by
  unfold Tree.textOf
  cases hnode : tree.node rel with
  | file data =>
    rw [hnode] at h
    simp only [readPinned] at h
    split_ifs at h with hdigest
    cases hdecode : decode data with
    | none =>
      rw [hdecode] at h
      cases h
    | some t =>
      rw [hdecode] at h
      obtain rfl := Sum.inr.inj h
      exact hdecode
  | _ =>
    rw [hnode] at h
    cases h

theorem withStale_eq_nil {pins : Pins} {order : List Str} {problems : List Problem}
    (h : withStale pins order problems = []) : problems = [] ∧ ∀ rel ∈ pins.names, rel ∈ order := by
  simp only [withStale] at h
  split_ifs at h with hstale
  rw [Bool.or_eq_true, List.isEmpty_iff, List.filter_eq_nil_iff] at hstale
  refine ⟨h, ?_⟩
  rcases hstale with hstale | hne
  · intro rel hrel
    by_contra hnot
    apply hstale rel hrel
    rw [Bool.not_eq_true', List.contains_eq_mem, decide_eq_false_iff_not]
    exact hnot
  · rw [h] at hne
    cases hne

theorem staticReadSet_eq {listing : Option (List Str)} {texts : Texts} (h : (staticReadSet listing texts).2 = []) :
    (staticReadSet listing texts).1 = Worklist.reach texts.reads (texts.map Prod.fst) [rootMakefile] ∧
      ∀ rel ∈ (staticReadSet listing texts).1, texts.problems rel = [] := by
  cases listing with
  | none => cases h
  | some present =>
    obtain ⟨-, hproblems⟩ := List.append_eq_nil_iff.mp h
    exact ⟨rfl, List.flatMap_eq_nil_iff.mp hproblems⟩

/-- What `verify_pin` has found out when it reports nothing. -/
structure Passed (decode : Bytes → Option Str) (isFormat : Char → Bool) (tree : Tree Bytes) (r : PinResult) : Prop where
  nodup : r.pins.names.Nodup
  root : rootMakefile ∈ r.pins.names
  texts : ∀ rel ∈ r.pins.names, ∃ text, r.texts.lookup rel = some text
  pinned : ∀ rt ∈ r.texts, rt.1 ∈ r.pins.names ∧ tree.textOf decode rt.1 = some rt.2
  accepted : ∀ rt ∈ r.texts, grammarProblems isFormat rt.2 = []
  order : r.order = Worklist.reach r.texts.reads (r.texts.map Prod.fst) [rootMakefile]
  problems : ∀ rel ∈ r.order, r.texts.problems rel = []
  read : ∀ rel ∈ r.pins.names, rel ∈ r.order

theorem passed_verifyPinned {pins : Pins} (hnodup : pins.names.Nodup) (hroot : rootMakefile ∈ pins.names)
    (hok : (verifyPinned sha256 decode isFormat tree pins).ok = true) :
    Passed decode isFormat tree (verifyPinned sha256 decode isFormat tree pins) := by
  rw [PinResult.ok, Bool.and_eq_true, List.isEmpty_iff, List.isEmpty_iff] at hok
  obtain ⟨hproblems, hgrammar⟩ := hok
  obtain ⟨hproblems, hstale⟩ := withStale_eq_nil hproblems
  obtain ⟨hrest, hunpinned⟩ := List.append_eq_nil_iff.mp hproblems
  obtain ⟨hpinned, hread⟩ := List.append_eq_nil_iff.mp hrest
  obtain ⟨horder, hfiles⟩ := staticReadSet_eq hread
  have htext : ∀ p ∈ pins, ∃ text, readPinned sha256 decode p.1 p.2 (tree.node p.1) = .inr text := by
    intro p hp
    have hleft := List.filterMap_eq_nil_iff.mp hpinned p hp
    cases hnode : readPinned sha256 decode p.1 p.2 (tree.node p.1) with
    | inl problem =>
      rw [hnode] at hleft
      cases hleft
    | inr text => exact ⟨text, rfl⟩
  refine ⟨hnodup, hroot, ?_, ?_, ?_, horder, hfiles, hstale⟩
  · intro rel hrel
    obtain ⟨p, hp, rfl⟩ := List.mem_map.mp hrel
    obtain ⟨text, hp'⟩ := htext p hp
    rw [← Option.ne_none_iff_exists', ne_eq, List.lookup_eq_none_iff]
    intro hnone
    have hmem : (p.1, text) ∈ (verifyPinned sha256 decode isFormat tree pins).texts :=
      List.mem_filterMap.mpr ⟨p, hp, by rw [hp']; rfl⟩
    have hself := hnone _ hmem
    rw [bne_self_eq_false] at hself
    cases hself
  · intro rt hrt
    obtain ⟨p, hp, hmap⟩ := List.mem_filterMap.mp hrt
    obtain ⟨text, hp'⟩ := htext p hp
    rw [hp'] at hmap
    cases hmap
    exact ⟨List.mem_map.mpr ⟨p, hp, rfl⟩, text_of_readPinned hp'⟩
  · intro rt hrt
    exact List.map_eq_nil_iff.mp (List.flatMap_eq_nil_iff.mp hgrammar rt hrt)

theorem passed_of_ok (h : verifyPin sha256 decode isFormat tree = some r) (hok : r.ok = true) :
    Passed decode isFormat tree r := by
  unfold verifyPin at h
  cases hload : loadMakefilePin decode tree.pin with
  | error err =>
    rw [hload] at h
    cases h
    cases hok
  | ok entries =>
    rw [hload] at h
    simp only at h
    split_ifs at h with hroot hraised
    · cases h
      cases hok
    · obtain rfl := Option.some.inj h
      rw [Bool.not_eq_true, Bool.not_eq_false', List.contains_iff_mem] at hroot
      refine passed_verifyPinned ?_ hroot hok
      have hperm := (List.perm_insertionSort (fun p q => le p.1 q.1 = true) entries).map Prod.fst
      refine hperm.nodup_iff.mpr ?_
      unfold loadMakefilePin at hload
      split at hload
      · cases hload
      · cases hload
      · cases hload
      · split at hload
        · cases hload
        · exact nodup_pinEntries hload List.nodup_nil

theorem Texts.mem_of_lookup {texts : Texts} {rel : Str} (h : texts.lookup rel = some text) : (rel, text) ∈ texts := by
  obtain ⟨before, after, heq, -⟩ := List.lookup_eq_some_iff.mp h
  rw [heq]
  exact List.mem_append_right _ List.mem_cons_self

section

variable (hpass : Passed decode isFormat tree r)

include hpass

/-- A line of a file that was read is followed exactly if it is a recipe line that reads as a directive. -/
theorem Passed.followed_ne_nil_iff {rel : Str} (hrel : rel ∈ r.order) (htext : r.texts.lookup rel = some text)
    {rec : LogicalLine} (hrec : rec ∈ makefileLines text) : followed rel rec ≠ [] ↔ ReadsAsDirective rec := by
  obtain ⟨inRule, hline⟩ := line_accepted (hpass.accepted _ (Texts.mem_of_lookup htext)) hrec
  rw [← readLine_ne_nil_iff hline hrec rel]
  have hlines : r.texts.lines rel = makefileLines text := by rw [Texts.lines, htext]
  obtain ⟨-, hproblems⟩ := List.append_eq_nil_iff.mp (hpass.problems rel hrel)
  rw [hlines] at hproblems
  have hleft := List.filterMap_eq_nil_iff.mp (List.flatMap_eq_nil_iff.mp hproblems rec hrec)
  rw [followed, ne_eq, ne_eq, not_iff_not, List.filterMap_eq_nil_iff]
  constructor
  · intro hright
    rw [List.eq_nil_iff_forall_not_mem]
    intro x hx
    cases x with
    | inl problem => cases hleft _ hx
    | inr file => cases hright _ hx
  · intro hnil x hx
    rw [hnil] at hx
    cases hx

/-- If no line of the root makefile is followed, nothing else is read or pinned. -/
theorem Passed.only_root (htext : r.texts.lookup rootMakefile = some text)
    (hlines : ∀ rec ∈ makefileLines text, followed rootMakefile rec = []) :
    (∃ digest, r.pins = [(rootMakefile, digest)]) ∧ r.order = [rootMakefile] := by
  have hreads : r.texts.reads rootMakefile = [] := by
    rw [Texts.reads, Texts.lines, htext]
    exact List.flatMap_eq_nil_iff.mpr hlines
  have horder : r.order = [rootMakefile] := by rw [hpass.order, Worklist.reach_singleton hreads]
  refine ⟨?_, horder⟩
  have hnames : ∀ rel ∈ r.pins.names, rel = rootMakefile := by
    intro rel hrel
    have hread := hpass.read rel hrel
    rw [horder] at hread
    exact List.mem_singleton.mp hread
  have hone := hpass.nodup
  have hroot := hpass.root
  cases hpins : r.pins with
  | nil =>
    rw [hpins] at hroot
    cases hroot
  | cons p pins =>
    rw [hpins] at hnames hone
    have hp : p.1 = rootMakefile := hnames p.1 List.mem_cons_self
    cases pins with
    | nil => exact ⟨p.2, by rw [← hp]⟩
    | cons q pins =>
      exfalso
      have hq : q.1 = rootMakefile := hnames q.1 (List.mem_cons_of_mem _ List.mem_cons_self)
      apply (List.nodup_cons.mp hone).1
      rw [hp, ← hq]
      exact List.mem_cons_self

end

/-- The pinned files and the files that are read are the root makefile alone, and no line of a pinned text is followed,
exactly if no recipe line of the root makefile has a directive for its first word and a second word. -/
theorem verifyPin_only_root_iff (h : verifyPin sha256 decode isFormat tree = some r) (hok : r.ok = true) :
    ∃ text, tree.textOf decode rootMakefile = some text ∧
      (((∃ digest, r.pins = [(rootMakefile, digest)]) ∧ r.order = [rootMakefile] ∧
          ∀ rt ∈ r.texts, ∀ rec ∈ makefileLines rt.2, followed rt.1 rec = []) ↔
        ∀ rec ∈ makefileLines text, ¬ ReadsAsDirective rec) := by
  have hpass := passed_of_ok h hok
  obtain ⟨text, htext⟩ := hpass.texts rootMakefile hpass.root
  have hmem := Texts.mem_of_lookup htext
  have hroot : rootMakefile ∈ r.order := hpass.read _ hpass.root
  refine ⟨text, (hpass.pinned _ hmem).2, ?_⟩
  constructor
  · rintro ⟨-, -, hlines⟩ rec hrec hreads
    exact (hpass.followed_ne_nil_iff hroot htext hrec).mpr hreads (hlines _ hmem rec hrec)
  · intro hnone
    have hlines : ∀ rec ∈ makefileLines text, followed rootMakefile rec = [] := by
      intro rec hrec
      by_contra hne
      exact hnone rec hrec ((hpass.followed_ne_nil_iff hroot htext hrec).mp hne)
    obtain ⟨hpins, horder⟩ := hpass.only_root htext hlines
    refine ⟨hpins, horder, ?_⟩
    intro rt hrt rec hrec
    obtain ⟨hname, hrt'⟩ := hpass.pinned rt hrt
    have hrel : rt.1 = rootMakefile := by
      have hread := hpass.read _ hname
      rw [horder] at hread
      exact List.mem_singleton.mp hread
    rw [hrel, (hpass.pinned _ hmem).2] at hrt'
    rw [hrel]
    rw [← Option.some.inj hrt'] at hrec
    exact hlines rec hrec

/-- A tree of makefiles that are all pinned, where every file has the digest `digest`. -/
def pinnedTree (digest : Str) (files : List (Str × Str)) : Tree Str where
  pin := .file (str "makefiles:\n" ++ files.flatMap fun f => str "  " ++ f.1 ++ str ": " ++ digest ++ str "\n")
  listing := some (files.map Prod.fst)
  node rel :=
    match files.lookup rel with
    | none => .absent
    | some text => .file text

def sameDigest : Str := List.replicate 64 'a'

def plainTree : Tree Str := pinnedTree sameDigest [(rootMakefile, str "all:\n\techo done\n")]

theorem verifyPin_only_root_iff_plain :
    ∃ r, verifyPin (fun _ => sameDigest) some (fun _ => false) plainTree = some r ∧ r.ok = true ∧
      ∃ text, plainTree.textOf some rootMakefile = some text ∧
        (((∃ digest, r.pins = [(rootMakefile, digest)]) ∧ r.order = [rootMakefile] ∧
            ∀ rt ∈ r.texts, ∀ rec ∈ makefileLines rt.2, followed rt.1 rec = []) ↔
          ∀ rec ∈ makefileLines text, ¬ ReadsAsDirective rec) := by
  have hsome : (verifyPin (fun _ => sameDigest) some (fun _ => false) plainTree).map PinResult.ok = some true := by
    decide +kernel
  obtain ⟨r, hr, hok⟩ := Option.map_eq_some_iff.mp hsome
  exact ⟨r, hr, hok, verifyPin_only_root_iff hr hok⟩

/-- A recipe line `include other.mk`, and a second makefile that is pinned for it. -/
def recipeTree : Tree Str :=
  pinnedTree sameDigest [(rootMakefile, str "all:\n\tinclude other.mk\n"), (str "other.mk", [])]

/-- The recipe line is followed, and the pin accepts the second makefile. -/
theorem verifyPin_follows_recipe :
    (verifyPin (fun _ => sameDigest) some (fun _ => false) recipeTree).map
        (fun r => (r.ok, r.pins.names, r.order)) =
      some (true, [rootMakefile, str "other.mk"], [rootMakefile, str "other.mk"]) := by
  decide +kernel

end Vizra.Makefile
