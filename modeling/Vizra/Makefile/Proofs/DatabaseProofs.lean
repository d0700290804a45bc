import Vizra.Makefile.Database

/-!
# What the lines around the database change

Only the entries of the targets are read inside the markers of the database. The special targets and the variables
are read from every line of make's output, so what is printed before or behind the database can add to them.
-/

namespace Vizra.Makefile

open Py

variable {s s' : DbState} {name : Str} {lines done : List Str}

/-- What is made of a line wherever it stands. -/
inductive Recognised where
  | marker
  | default (text : Str)
  | ignore
  | phony (names : List Str)
  | oneshell
  | secondexpansion
  | var (name value : Str)
  | nothing
deriving DecidableEq

def isMarker (line : Str) : Bool := startsDatabase line || endsDatabase line

def recognise (line : Str) : Recognised :=
  if isMarker line then .marker
  else
    match special ".DEFAULT:" line with
    | some text => .default text
    | none =>
      if (special ".IGNORE:" line).isSome then .ignore
      else
        match special ".PHONY:" line with
        | some text => .phony (splitWords text)
        | none =>
          if (special ".ONESHELL:" line).isSome then .oneshell
          else if (special ".SECONDEXPANSION:" line).isSome then .secondexpansion
          else
            match matchVariable line with
            | some (name, value) => .var name value
            | none => .nothing

/-- The value that a line gives a variable. -/
def Recognised.value (name : Str) : Recognised → Option Str
  | .var n value => if n = name then some value else none
  | _ => none

/-- The names that a line declares phony. -/
def Recognised.phonyNames : Recognised → List Str
  | .phony names => names
  | _ => []

/-- The first value that the lines give a variable. -/
def firstValue (lines : List Str) (name : Str) : Option Str := lines.findSome? fun line => (recognise line).value name

/-- A line that gives `.DEFAULT` a recipe, inside its entry. -/
def isDefaultRecipe (line : Str) : Bool :=
  !isMarker line && !isBlankLine line && (line.head? == some '\t' || announcesRecipe line)

/-- The lines end inside an entry of `.DEFAULT`. -/
def DefaultOpen (lines : List Str) : Prop :=
  ∃ before line after text, lines = before ++ line :: after ∧ recognise line = .default text ∧
    ∀ l ∈ after, isMarker l = true ∨ isBlankLine l = false

/-- The lines show a recipe of `.DEFAULT`. -/
def ShowsDefaultRecipe (lines : List Str) : Prop :=
  ∃ before line after, lines = before ++ line :: after ∧
    ((∃ text, recognise line = .default text ∧ isBlankLine text = false) ∨
      (DefaultOpen before ∧ isDefaultRecipe line = true))

/-! ## One line -/

/-- What a line changes besides the entries of the targets. -/
def DbState.recognised (s : DbState) : Recognised → DbState
  | .default text => { s with inDefault := true, defaultRecipe := s.defaultRecipe || !isBlankLine text }
  | .ignore => { s with ignore := true }
  | .phony names => { s with phony := s.phony ++ names }
  | .oneshell => { s with oneshell := true }
  | .secondexpansion => { s with secondexpansion := true }
  | .var name value =>
    if s.vars.any fun kv => kv.1 == name then s else { s with vars := s.vars ++ [(name, value)] }
  | .nothing => s
  | .marker => s

theorem loose_eq {line : Str} (h : isMarker line = false) : s.loose line = s.recognised (recognise line) := by
  unfold DbState.loose recognise
  rw [h, if_neg Bool.false_ne_true]
  cases special ".DEFAULT:" line with
  | some text => rfl
  | none =>
    simp only []
    split
    · rfl
    · cases special ".PHONY:" line with
      | some text => rfl
      | none =>
        simp only []
        split
        · rfl
        · split
          · rfl
          · cases matchVariable line with
            | some nv => rfl
            | none => rfl

theorem recognise_of_marker {line : Str} (h : isMarker line = true) : recognise line = .marker := by
  rw [recognise, if_pos h]

/-- A marker opens or closes the database. -/
theorem line_of_marker {line : Str} (h : isMarker line = true) :
    ∃ inDb sawDb, s.line line = { s with inDb := inDb, sawDb := sawDb, current := none } := by
  unfold DbState.line
  split
  · exact ⟨_, _, rfl⟩
  · split
    · exact ⟨_, _, rfl⟩
    · rename_i hstart hend
      rw [isMarker, Bool.or_eq_true] at h
      exact absurd h (not_or.mpr ⟨hstart, hend⟩)

/-- A line that is no marker goes through the three readers. -/
theorem line_eq {line : Str} (h : isMarker line = false) :
    s.line line = ((s.entry line).defaultEntry line).recognised (recognise line) := by
  have hstart := (Bool.or_eq_false_iff.mp h).1
  have hend := (Bool.or_eq_false_iff.mp h).2
  rw [DbState.line, hstart, hend, if_neg Bool.false_ne_true, if_neg Bool.false_ne_true, loose_eq h]

/-! ## The special targets and the variables -/

/-- What lines have added to the parts that are read from every line. -/
structure Loose (s : DbState) (lines : List Str) (s' : DbState) : Prop where
  vars : ∀ name, s'.vars.lookup name = (s.vars.lookup name).or (firstValue lines name)
  oneshell : s'.oneshell = true ↔ s.oneshell = true ∨ ∃ l ∈ lines, recognise l = .oneshell
  secondexpansion : s'.secondexpansion = true ↔ s.secondexpansion = true ∨ ∃ l ∈ lines, recognise l = .secondexpansion
  ignore : s'.ignore = true ↔ s.ignore = true ∨ ∃ l ∈ lines, recognise l = .ignore
  phony : ∀ t, t ∈ s'.phony ↔ t ∈ s.phony ∨ ∃ l ∈ lines, t ∈ (recognise l).phonyNames

theorem entry_loose (s : DbState) (line : Str) :
    (s.entry line).vars = s.vars ∧ (s.entry line).oneshell = s.oneshell ∧
      (s.entry line).secondexpansion = s.secondexpansion ∧ (s.entry line).ignore = s.ignore ∧
      (s.entry line).phony = s.phony ∧ (s.entry line).inDefault = s.inDefault ∧
      (s.entry line).defaultRecipe = s.defaultRecipe := by
  unfold DbState.entry
  split
  · simp
  · split
    · simp
    · split
      · split <;> simp
      · split
        · simp
        · unfold DbState.header
          split
          · simp
          · simp only []
            split
            · simp
            · split <;> simp

theorem defaultEntry_loose (s : DbState) (line : Str) :
    (s.defaultEntry line).vars = s.vars ∧ (s.defaultEntry line).oneshell = s.oneshell ∧
      (s.defaultEntry line).secondexpansion = s.secondexpansion ∧ (s.defaultEntry line).ignore = s.ignore ∧
      (s.defaultEntry line).phony = s.phony := by
  unfold DbState.defaultEntry
  split
  · split
    · simp
    · split <;> simp
  · simp

theorem lookup_snoc {vars : List (Str × Str)} {value n : Str} :
    (vars ++ [(name, value)]).lookup n = (vars.lookup n).or (if name = n then some value else none) := by
  rw [List.lookup_append]
  congr 1
  rw [List.lookup_cons, List.lookup_nil]
  by_cases hn : name = n
  · rw [if_pos hn, beq_iff_eq.mpr hn.symm]
  · rw [if_neg hn, beq_eq_false_iff_ne.mpr (Ne.symm hn)]

theorem lookup_ne_none {vars : List (Str × Str)} (h : vars.any (fun kv => kv.1 == name) = true) :
    vars.lookup name ≠ none := by
  intro hnone
  rw [List.lookup_eq_none_iff] at hnone
  obtain ⟨kv, hkv, hname⟩ := List.any_eq_true.mp h
  have := hnone kv hkv
  simp_all

theorem recognised_loose {line : Str} {r : Recognised} (hr : recognise line = r) : Loose s [line] (s.recognised r) := by
  cases r with
  | var name value =>
    unfold DbState.recognised
    simp only []
    split
    · rename_i hany
      constructor
      · intro n
        by_cases hn : name = n
        · subst hn
          obtain ⟨v, hv⟩ := Option.ne_none_iff_exists'.mp (lookup_ne_none hany)
          rw [hv, Option.some_or]
        · simp [firstValue, Recognised.value, hr, hn]
      all_goals simp [Recognised.phonyNames, hr]
    · constructor
      · intro n
        simp [firstValue, Recognised.value, hr, lookup_snoc]
      all_goals simp [Recognised.phonyNames, hr]
  | _ => constructor <;> simp [firstValue, Recognised.value, Recognised.phonyNames, DbState.recognised, hr]

theorem line_loose (s : DbState) (line : Str) : Loose s [line] (s.line line) := by
  by_cases hmarker : isMarker line = true
  · have hr := recognise_of_marker hmarker
    obtain ⟨inDb, sawDb, hline⟩ := @line_of_marker s line hmarker
    rw [hline]
    constructor <;> simp [firstValue, Recognised.value, Recognised.phonyNames, hr]
  · rw [line_eq (Bool.eq_false_iff.mpr hmarker)]
    have hloose := @recognised_loose ((s.entry line).defaultEntry line) line _ rfl
    obtain ⟨hvars, hone, hsecond, hignore, hphony⟩ := defaultEntry_loose (s.entry line) line
    obtain ⟨hvars', hone', hsecond', hignore', hphony', -⟩ := entry_loose s line
    constructor
    · intro name
      rw [hloose.vars, hvars, hvars']
    · rw [hloose.oneshell, hone, hone']
    · rw [hloose.secondexpansion, hsecond, hsecond']
    · rw [hloose.ignore, hignore, hignore']
    · intro t
      rw [hloose.phony, hphony, hphony']

theorem firstValue_append {lines' : List Str} :
    firstValue (lines ++ lines') name = (firstValue lines name).or (firstValue lines' name) := by
  rw [firstValue, List.findSome?_append, firstValue, firstValue]

theorem Loose.trans {s'' : DbState} {lines' : List Str} (h : Loose s lines s') (h' : Loose s' lines' s'') :
    Loose s (lines ++ lines') s'' := by
  constructor
  · intro name
    rw [h'.vars, h.vars, firstValue_append, Option.or_assoc]
  · rw [h'.oneshell, h.oneshell, or_assoc]
    simp [or_and_right, exists_or]
  · rw [h'.secondexpansion, h.secondexpansion, or_assoc]
    simp [or_and_right, exists_or]
  · rw [h'.ignore, h.ignore, or_assoc]
    simp [or_and_right, exists_or]
  · intro t
    rw [h'.phony, h.phony, or_assoc]
    simp [or_and_right, exists_or]

theorem run_loose (s : DbState) (lines : List Str) : Loose s lines (lines.foldl DbState.line s) := by
  induction lines generalizing s with
  | nil => constructor <;> simp [firstValue]
  | cons line lines ih => exact (line_loose s line).trans (ih (s.line line))

/-! ## The recipe of `.DEFAULT` -/

theorem snoc_eq_append_cons {α : Type} {done before after : List α} {a x : α}
    (h : done ++ [a] = before ++ x :: after) :
    (after = [] ∧ before = done ∧ x = a) ∨ ∃ after', after = after' ++ [a] ∧ done = before ++ x :: after' := by
  rcases List.eq_nil_or_concat after with rfl | ⟨after', y, rfl⟩
  · obtain ⟨hdone, hx⟩ := List.append_inj' h rfl
    exact Or.inl ⟨rfl, hdone.symm, (List.cons.inj hx).1.symm⟩
  · rw [List.concat_eq_append, ← List.cons_append, ← List.append_assoc] at h
    obtain ⟨hdone, hx⟩ := List.append_inj' h rfl
    exact Or.inr ⟨after', by rw [(List.cons.inj hx).1, List.concat_eq_append], hdone⟩

theorem defaultOpen_snoc {line : Str} :
    DefaultOpen (done ++ [line]) ↔
      (∃ text, recognise line = .default text) ∨
        (DefaultOpen done ∧ (isMarker line = true ∨ isBlankLine line = false)) := by
  constructor
  · rintro ⟨before, l, after, text, heq, hl, hafter⟩
    rcases snoc_eq_append_cons heq with ⟨rfl, rfl, rfl⟩ | ⟨after', rfl, rfl⟩
    · exact Or.inl ⟨text, hl⟩
    · refine Or.inr ⟨⟨before, l, after', text, rfl, hl, fun m hm => ?_⟩, ?_⟩
      · exact hafter m (List.mem_append_left _ hm)
      · exact hafter line (List.mem_append_right _ List.mem_cons_self)
  · rintro (⟨text, hline⟩ | ⟨⟨before, l, after, text, rfl, hl, hafter⟩, hline⟩)
    · exact ⟨done, line, [], text, rfl, hline, nofun⟩
    · refine ⟨before, l, after ++ [line], text, by simp, hl, fun m hm => ?_⟩
      rcases List.mem_append.mp hm with hm | hm
      · exact hafter m hm
      · rwa [List.mem_singleton.mp hm]

theorem showsDefaultRecipe_snoc {line : Str} :
    ShowsDefaultRecipe (done ++ [line]) ↔
      ShowsDefaultRecipe done ∨ (∃ text, recognise line = .default text ∧ isBlankLine text = false) ∨
        (DefaultOpen done ∧ isDefaultRecipe line = true) := by
  constructor
  · rintro ⟨before, l, after, heq, hl⟩
    rcases snoc_eq_append_cons heq with ⟨rfl, rfl, rfl⟩ | ⟨after', rfl, rfl⟩
    · exact Or.inr hl
    · exact Or.inl ⟨before, l, after', rfl, hl⟩
  · rintro (⟨before, l, after, rfl, hl⟩ | hline)
    · exact ⟨before, l, after ++ [line], by simp, hl⟩
    · exact ⟨done, line, [], rfl, hline⟩

/-- The two flags for `.DEFAULT` say what the lines show. -/
structure DefaultReads (s : DbState) (lines : List Str) : Prop where
  inDefault : s.inDefault = true ↔ DefaultOpen lines
  defaultRecipe : s.defaultRecipe = true ↔ ShowsDefaultRecipe lines

theorem recognised_default {r : Recognised} :
    ((s.recognised r).inDefault = true ↔ (∃ text, r = .default text) ∨ s.inDefault = true) ∧
      ((s.recognised r).defaultRecipe = true ↔
        s.defaultRecipe = true ∨ ∃ text, r = .default text ∧ isBlankLine text = false) := by
  cases r with
  | var name value =>
    unfold DbState.recognised
    simp only []
    split <;> simp
  | _ => simp [DbState.recognised]

theorem defaultEntry_default (s : DbState) {line : Str} (hmarker : isMarker line = false) :
    ((s.defaultEntry line).inDefault = true ↔ s.inDefault = true ∧ isBlankLine line = false) ∧
      ((s.defaultEntry line).defaultRecipe = true ↔
        s.defaultRecipe = true ∨ (s.inDefault = true ∧ isDefaultRecipe line = true)) := by
  unfold DbState.defaultEntry isDefaultRecipe
  rw [hmarker]
  by_cases hdefault : s.inDefault = true
  · rw [if_pos hdefault]
    by_cases hblank : isBlankLine line = true
    · simp [hblank]
    · rw [if_neg hblank]
      split
      · rename_i hrecipe
        simp [hblank, hdefault, hrecipe]
      · rename_i hrecipe
        simp [hblank, hdefault, hrecipe]
  · simp [hdefault]

theorem DefaultReads.line (h : DefaultReads s done) (line : Str) : DefaultReads (s.line line) (done ++ [line]) := by
  by_cases hmarker : isMarker line = true
  · have hr := recognise_of_marker hmarker
    obtain ⟨inDb, sawDb, hline⟩ := @line_of_marker s line hmarker
    rw [hline]
    constructor
    · simp [h.inDefault, defaultOpen_snoc, hr, hmarker]
    · simp [h.defaultRecipe, showsDefaultRecipe_snoc, hr, hmarker, isDefaultRecipe]
  · have hmarker' := Bool.eq_false_iff.mpr hmarker
    obtain ⟨-, -, -, -, -, hin, hrec⟩ := entry_loose s line
    obtain ⟨hin', hrec'⟩ := defaultEntry_default (s.entry line) hmarker'
    rw [line_eq hmarker']
    constructor
    · rw [recognised_default.1, hin', hin, h.inDefault, defaultOpen_snoc]
      simp [hmarker]
    · rw [recognised_default.2, hrec', hin, hrec, h.inDefault, h.defaultRecipe, showsDefaultRecipe_snoc, or_assoc,
        or_comm (a := DefaultOpen done ∧ _)]

theorem DefaultReads.run (h : DefaultReads s done) (lines : List Str) :
    DefaultReads (lines.foldl DbState.line s) (done ++ lines) := by
  induction lines generalizing s done with
  | nil => rwa [List.append_nil]
  | cons line lines ih =>
    have hrun := ih (h.line line)
    rwa [List.append_assoc, List.singleton_append] at hrun

theorem defaultReads_init : DefaultReads {} [] := by
  constructor
  · refine ⟨nofun, ?_⟩
    rintro ⟨before, l, after, text, heq, -⟩
    exact absurd heq (by simp)
  · refine ⟨nofun, ?_⟩
    rintro ⟨before, l, after, heq, -⟩
    exact absurd heq (by simp)

/-! ## The entries of the targets -/

/-- The parts of the state that the entries are read into agree. -/
structure SameEntries (s s' : DbState) : Prop where
  recipes : s.recipes = s'.recipes
  prereqs : s.prereqs = s'.prereqs
  duplicates : s.duplicates = s'.duplicates
  unreadable : s.unreadable = s'.unreadable
  current : s.current = s'.current
  inDb : s.inDb = s'.inDb

theorem recognised_entries (s : DbState) (r : Recognised) : SameEntries (s.recognised r) s := by
  cases r with
  | var name value =>
    unfold DbState.recognised
    simp only []
    split <;> exact ⟨rfl, rfl, rfl, rfl, rfl, rfl⟩
  | _ => exact ⟨rfl, rfl, rfl, rfl, rfl, rfl⟩

theorem defaultEntry_entries (s : DbState) (line : Str) : SameEntries (s.defaultEntry line) s := by
  unfold DbState.defaultEntry
  split
  · split
    · exact ⟨rfl, rfl, rfl, rfl, rfl, rfl⟩
    · split <;> exact ⟨rfl, rfl, rfl, rfl, rfl, rfl⟩
  · exact ⟨rfl, rfl, rfl, rfl, rfl, rfl⟩

theorem SameEntries.symm (h : SameEntries s s') : SameEntries s' s :=
  ⟨h.recipes.symm, h.prereqs.symm, h.duplicates.symm, h.unreadable.symm, h.current.symm, h.inDb.symm⟩

theorem SameEntries.trans {s'' : DbState} (h : SameEntries s s') (h' : SameEntries s' s'') : SameEntries s s'' :=
  ⟨h.recipes.trans h'.recipes, h.prereqs.trans h'.prereqs, h.duplicates.trans h'.duplicates,
    h.unreadable.trans h'.unreadable, h.current.trans h'.current, h.inDb.trans h'.inDb⟩

theorem SameEntries.entry (h : SameEntries s s') (line : Str) : SameEntries (s.entry line) (s'.entry line) := by
  obtain ⟨hrecipes, hprereqs, hduplicates, hunreadable, hcurrent, hinDb⟩ := h
  cases s
  cases s'
  simp only at hrecipes hprereqs hduplicates hunreadable hcurrent hinDb
  subst hrecipes hprereqs hduplicates hunreadable hcurrent hinDb
  unfold DbState.entry
  simp only []
  split
  · exact ⟨rfl, rfl, rfl, rfl, rfl, rfl⟩
  · split
    · exact ⟨rfl, rfl, rfl, rfl, rfl, rfl⟩
    · split
      · split <;> exact ⟨rfl, rfl, rfl, rfl, rfl, rfl⟩
      · split
        · exact ⟨rfl, rfl, rfl, rfl, rfl, rfl⟩
        · unfold DbState.header
          split
          · exact ⟨rfl, rfl, rfl, rfl, rfl, rfl⟩
          · simp only []
            split
            · exact ⟨rfl, rfl, rfl, rfl, rfl, rfl⟩
            · split <;> exact ⟨rfl, rfl, rfl, rfl, rfl, rfl⟩

theorem SameEntries.line (h : SameEntries s s') (line : Str) : SameEntries (s.line line) (s'.line line) := by
  by_cases hmarker : isMarker line = true
  · unfold DbState.line
    split
    · exact ⟨h.recipes, h.prereqs, h.duplicates, h.unreadable, rfl, rfl⟩
    · split
      · exact ⟨h.recipes, h.prereqs, h.duplicates, h.unreadable, rfl, rfl⟩
      · rename_i hstart hend
        rw [isMarker, Bool.or_eq_true] at hmarker
        exact absurd hmarker (not_or.mpr ⟨hstart, hend⟩)
  · rw [line_eq (Bool.eq_false_iff.mpr hmarker), line_eq (Bool.eq_false_iff.mpr hmarker)]
    have hleft := (recognised_entries ((s.entry line).defaultEntry line) (recognise line)).trans
      (defaultEntry_entries (s.entry line) line)
    have hright := (recognised_entries ((s'.entry line).defaultEntry line) (recognise line)).trans
      (defaultEntry_entries (s'.entry line) line)
    exact (hleft.trans (h.entry line)).trans hright.symm

theorem SameEntries.run (h : SameEntries s s') (lines : List Str) :
    SameEntries (lines.foldl DbState.line s) (lines.foldl DbState.line s') := by
  induction lines generalizing s s' with
  | nil => exact h
  | cons line lines ih => exact ih (h.line line)

/-- Outside the database no entry is read. -/
theorem SameEntries.outside (hinDb : s.inDb = false) (h : ∀ l ∈ lines, isMarker l = false) :
    SameEntries (lines.foldl DbState.line s) s := by
  induction lines generalizing s with
  | nil => exact ⟨rfl, rfl, rfl, rfl, rfl, rfl⟩
  | cons line lines ih =>
    have hentry : s.entry line = s := by rw [DbState.entry, hinDb, Bool.not_false, if_pos rfl]
    have hline : SameEntries (s.line line) s := by
      have hsame := (recognised_entries ((s.entry line).defaultEntry line) (recognise line)).trans
        (defaultEntry_entries (s.entry line) line)
      rw [line_eq (h line List.mem_cons_self)]
      rwa [hentry] at hsame ⊢
    have hrest := ih (hline.inDb.trans hinDb) fun l hl => h l (List.mem_cons_of_mem _ hl)
    exact hrest.trans hline

/-! ## The database and the lines around it -/

/-- The lines from the marker that opens the database to the one that closes it. -/
structure DatabaseSection (lines : List Str) : Prop where
  intro ::
  bounds : ∃ first body last, lines = first :: (body ++ [last]) ∧ startsDatabase first = true ∧ endsDatabase last = true

/-- Two databases from which the same is read. -/
structure SameReading (db db' : Database) : Prop where
  vars : ∀ name, db.vars.lookup name = db'.vars.lookup name
  oneshell : db.oneshell = db'.oneshell
  secondexpansion : db.secondexpansion = db'.secondexpansion
  ignore : db.ignore = db'.ignore
  defaultRecipe : db.defaultRecipe = db'.defaultRecipe
  phony : ∀ t, t ∈ db.phony ↔ t ∈ db'.phony
  recipes : db.recipes = db'.recipes
  prereqs : db.prereqs = db'.prereqs

/-- The lines around a section show nothing that the section does not show. -/
structure AddsNothing (pre sec post : List Str) : Prop where
  before : ∀ name value, name ∉ flagNames → firstValue pre name = some value → firstValue sec name = some value
  behind : ∀ name, name ∉ flagNames → firstValue post name ≠ none → firstValue sec name ≠ none
  oneshell : (∃ l ∈ pre ++ post, recognise l = .oneshell) → ∃ l ∈ sec, recognise l = .oneshell
  secondexpansion : (∃ l ∈ pre ++ post, recognise l = .secondexpansion) → ∃ l ∈ sec, recognise l = .secondexpansion
  ignore : (∃ l ∈ pre ++ post, recognise l = .ignore) → ∃ l ∈ sec, recognise l = .ignore
  phony : ∀ t, (∃ l ∈ pre ++ post, t ∈ (recognise l).phonyNames) → ∃ l ∈ sec, t ∈ (recognise l).phonyNames
  defaultRecipe : ShowsDefaultRecipe (pre ++ sec ++ post) → ShowsDefaultRecipe sec

theorem lookup_filter_flagNames {vars : List (Str × Str)} :
    (vars.filter fun kv => !flagNames.contains kv.1).lookup name =
      if name ∈ flagNames then none else vars.lookup name := by
  induction vars with
  | nil => simp
  | cons kv vars ih =>
    by_cases hkv : kv.1 ∈ flagNames
    · rw [List.filter_cons_of_neg (by simpa using hkv), ih, List.lookup_cons]
      by_cases hname : name ∈ flagNames
      · rw [if_pos hname, if_pos hname]
      · have hne : name ≠ kv.1 := fun h => hname (h ▸ hkv)
        rw [beq_eq_false_iff_ne.mpr hne]
    · rw [List.filter_cons_of_pos (by simpa using hkv), List.lookup_cons, List.lookup_cons, ih]
      by_cases hname : name = kv.1
      · rw [beq_iff_eq.mpr hname, hname]
        simp only [if_neg hkv]
      · rw [beq_eq_false_iff_ne.mpr hname]

section

variable {lines : List Str}

/-- The final state of the loop over some lines. -/
def readLines (lines : List Str) : DbState := lines.foldl DbState.line {}

theorem readLines_vars :
    (readLines lines).close.vars.lookup name = if name ∈ flagNames then none else firstValue lines name := by
  have hvars := (run_loose {} lines).vars name
  rw [List.lookup_nil, Option.none_or] at hvars
  rw [DbState.close, lookup_filter_flagNames, readLines, hvars]

theorem readLines_oneshell : (readLines lines).oneshell = true ↔ ∃ l ∈ lines, recognise l = .oneshell := by
  have h := (run_loose {} lines).oneshell
  rwa [or_iff_right Bool.false_ne_true] at h

theorem readLines_secondexpansion :
    (readLines lines).secondexpansion = true ↔ ∃ l ∈ lines, recognise l = .secondexpansion := by
  have h := (run_loose {} lines).secondexpansion
  rwa [or_iff_right Bool.false_ne_true] at h

theorem readLines_ignore : (readLines lines).ignore = true ↔ ∃ l ∈ lines, recognise l = .ignore := by
  have h := (run_loose {} lines).ignore
  rwa [or_iff_right Bool.false_ne_true] at h

theorem readLines_phony {t : Str} : t ∈ (readLines lines).phony ↔ ∃ l ∈ lines, t ∈ (recognise l).phonyNames := by
  have h := (run_loose {} lines).phony t
  rwa [or_iff_right List.not_mem_nil] at h

theorem readLines_defaultRecipe : (readLines lines).defaultRecipe = true ↔ ShowsDefaultRecipe lines :=
  (defaultReads_init.run lines).defaultRecipe

end

theorem endsDatabase_inDb {line : Str} (h : endsDatabase line = true) : (s.line line).inDb = false := by
  have hstart : startsDatabase line = false := by
    obtain ⟨rest, rfl⟩ := List.isPrefixOf_iff_prefix.mp h
    rfl
  rw [DbState.line, hstart, if_neg Bool.false_ne_true, if_pos h]

theorem DatabaseSection.inDb {sec : List Str} (hsec : DatabaseSection sec) (s : DbState) :
    (sec.foldl DbState.line s).inDb = false := by
  obtain ⟨first, body, last, rfl, -, hlast⟩ := hsec.bounds
  rw [← List.cons_append, List.foldl_append, List.foldl_cons, List.foldl_nil]
  exact endsDatabase_inDb hlast

/-- The entries are those of the section. -/
theorem DatabaseSection.entries {pre sec post : List Str} (hsec : DatabaseSection sec)
    (hpre : ∀ l ∈ pre, isMarker l = false) (hpost : ∀ l ∈ post, isMarker l = false) :
    SameEntries (readLines (pre ++ sec ++ post)) (readLines sec) := by
  rw [readLines, List.foldl_append, List.foldl_append]
  have hbefore : SameEntries (pre.foldl DbState.line {}) {} := SameEntries.outside rfl hpre
  exact (SameEntries.outside (hsec.inDb _) hpost).trans (hbefore.run sec)

/-- A recipe of `.DEFAULT` in the section is one in the whole output. -/
theorem ShowsDefaultRecipe.around {pre sec post : List Str} (h : ShowsDefaultRecipe sec) :
    ShowsDefaultRecipe (pre ++ sec ++ post) := by
  obtain ⟨before, line, after, rfl, hline⟩ := h
  refine ⟨pre ++ before, line, after ++ post, by simp, ?_⟩
  rcases hline with htext | ⟨⟨a, l, b, text, rfl, hl, hb⟩, hrecipe⟩
  · exact Or.inl htext
  · exact Or.inr ⟨⟨pre ++ a, l, b, text, by simp, hl, hb⟩, hrecipe⟩

section

variable {pre sec post : List Str} {R : Str → Prop}

/-- What some line of the whole output shows is shown by the section, when the lines around it add nothing. -/
theorem shown_iff :
    ((∃ l ∈ pre ++ sec ++ post, R l) ↔ ∃ l ∈ sec, R l) ↔ ((∃ l ∈ pre ++ post, R l) → ∃ l ∈ sec, R l) := by
  constructor
  · rintro h ⟨l, hl, hR⟩
    refine h.mp ⟨l, ?_, hR⟩
    rcases List.mem_append.mp hl with hl | hl
    · exact List.mem_append_left _ (List.mem_append_left _ hl)
    · exact List.mem_append_right _ hl
  · intro h
    constructor
    · rintro ⟨l, hl, hR⟩
      rcases List.mem_append.mp hl with hl | hl
      · rcases List.mem_append.mp hl with hl | hl
        · exact h ⟨l, List.mem_append_left _ hl, hR⟩
        · exact ⟨l, hl, hR⟩
      · exact h ⟨l, List.mem_append_right _ hl, hR⟩
    · rintro ⟨l, hl, hR⟩
      exact ⟨l, List.mem_append_left _ (List.mem_append_right _ hl), hR⟩

theorem flag_eq_iff {a b : Bool} (ha : a = true ↔ ∃ l ∈ pre ++ sec ++ post, R l) (hb : b = true ↔ ∃ l ∈ sec, R l) :
    a = b ↔ ((∃ l ∈ pre ++ post, R l) → ∃ l ∈ sec, R l) := by
  rw [Bool.eq_iff_iff, ha, hb, shown_iff]

/-- The first values are those of the section. -/
theorem firstValue_around_iff :
    firstValue (pre ++ sec ++ post) name = firstValue sec name ↔
      (∀ value, firstValue pre name = some value → firstValue sec name = some value) ∧
        (firstValue post name ≠ none → firstValue sec name ≠ none) := by
  rw [firstValue_append, firstValue_append]
  cases firstValue pre name with
  | some value =>
    rw [Option.some_or, Option.some_or]
    constructor
    · intro h
      refine ⟨fun v hv => by rw [← h, hv], fun _ => ?_⟩
      rw [← h]
      exact Option.some_ne_none _
    · rintro ⟨h, -⟩
      exact (h value rfl).symm
  | none =>
    rw [Option.none_or]
    cases firstValue sec name with
    | some value => simp
    | none => cases firstValue post name <;> simp

end

theorem parseDatabase_unlines (h : ∀ l ∈ lines, ∀ c ∈ l, isLineEnd c = false) :
    parseDatabase (unlines lines) = (readLines lines).close := by
  rw [parseDatabase, splitLines_unlines h, readLines]

/-- From make's output the same is read as from its database alone, exactly when the lines around the database show no
variable, special target or phony name that the database does not show. -/
theorem parseDatabase_section_iff {pre sec post : List Str} (hsec : DatabaseSection sec)
    (hlines : ∀ l ∈ pre ++ sec ++ post, ∀ c ∈ l, isLineEnd c = false)
    (hpre : ∀ l ∈ pre, isMarker l = false) (hpost : ∀ l ∈ post, isMarker l = false) :
    SameReading (parseDatabase (unlines (pre ++ sec ++ post))) (parseDatabase (unlines sec)) ↔
      AddsNothing pre sec post := by
  have hentries := hsec.entries hpre hpost
  rw [parseDatabase_unlines hlines,
    parseDatabase_unlines fun l hl => hlines l (List.mem_append_left _ (List.mem_append_right _ hl))]
  constructor
  · intro h
    have hvars : ∀ name, name ∉ flagNames → firstValue (pre ++ sec ++ post) name = firstValue sec name := by
      intro name hname
      have hsame := h.vars name
      rwa [readLines_vars, readLines_vars, if_neg hname, if_neg hname] at hsame
    constructor
    · intro name value hname
      exact (firstValue_around_iff.mp (hvars name hname)).1 value
    · intro name hname
      exact (firstValue_around_iff.mp (hvars name hname)).2
    · exact (flag_eq_iff readLines_oneshell readLines_oneshell).mp h.oneshell
    · exact (flag_eq_iff readLines_secondexpansion readLines_secondexpansion).mp h.secondexpansion
    · exact (flag_eq_iff readLines_ignore readLines_ignore).mp h.ignore
    · intro t
      exact shown_iff.mp (readLines_phony.symm.trans ((h.phony t).trans readLines_phony))
    · intro hshown
      exact readLines_defaultRecipe.mp (h.defaultRecipe.symm.trans (readLines_defaultRecipe.mpr hshown))
  · intro h
    constructor
    · intro name
      rw [readLines_vars, readLines_vars]
      by_cases hname : name ∈ flagNames
      · rw [if_pos hname, if_pos hname]
      · rw [if_neg hname, if_neg hname]
        exact firstValue_around_iff.mpr ⟨fun value => h.before name value hname, h.behind name hname⟩
    · exact (flag_eq_iff readLines_oneshell readLines_oneshell).mpr h.oneshell
    · exact (flag_eq_iff readLines_secondexpansion readLines_secondexpansion).mpr h.secondexpansion
    · exact (flag_eq_iff readLines_ignore readLines_ignore).mpr h.ignore
    · refine Bool.eq_iff_iff.mpr (readLines_defaultRecipe.trans (Iff.trans ?_ readLines_defaultRecipe.symm))
      exact ⟨h.defaultRecipe, ShowsDefaultRecipe.around⟩
    · intro t
      exact readLines_phony.trans ((shown_iff.mpr (h.phony t)).trans readLines_phony.symm)
    · exact hentries.recipes
    · exact hentries.prereqs

theorem noLineEnd_of_all (h : (lines.all fun l => l.all fun c => !isLineEnd c) = true) :
    ∀ l ∈ lines, ∀ c ∈ l, isLineEnd c = false := by
  simpa using h

/-- A small database. -/
def smallSection : List Str := ["# Make data base, printed by make", "", "SHELL = /bin/true", "", "ci: test",
  "#  recipe to execute", "\tgo test ./...", "", "# Finished Make data base by make"].map str

theorem smallSection_section : DatabaseSection smallSection :=
  ⟨_, ["", "SHELL = /bin/true", "", "ci: test", "#  recipe to execute", "\tgo test ./...", ""].map str, _, rfl, rfl,
    rfl⟩

/-- Commands that `make -n` prints before the database and behind it. -/
theorem parseDatabase_section_iff_commands :
    SameReading (parseDatabase (unlines ([str "go test ./..."] ++ smallSection ++ [str "make: done"])))
      (parseDatabase (unlines smallSection)) := by
  have hpre : recognise (str "go test ./...") = .nothing := by decide
  have hpost : recognise (str "make: done") = .nothing := by decide
  have hdefault : ¬ ShowsDefaultRecipe ([str "go test ./..."] ++ smallSection ++ [str "make: done"]) := by
    rw [← readLines_defaultRecipe]
    decide
  refine (parseDatabase_section_iff smallSection_section (noLineEnd_of_all (by decide)) ?_ ?_).mpr ?_
  · simpa using (by decide : isMarker (str "go test ./...") = false)
  · simpa using (by decide : isMarker (str "make: done") = false)
  · constructor
    case defaultRecipe => exact fun h => absurd h hdefault
    all_goals simp [firstValue, Recognised.value, Recognised.phonyNames, hpre, hpost]

/-- A recipe that prints a line like a variable's, before the database, replaces the SHELL that is judged. -/
theorem parseDatabase_forged_shell :
    let forged := parseDatabase (unlines ([str "SHELL = /usr/bin/env bash"] ++ smallSection ++ []))
    let alone := parseDatabase (unlines smallSection)
    isMarker (str "SHELL = /usr/bin/env bash") = false ∧
      forged.vars.lookup (str "SHELL") = some approvedShell ∧
      alone.vars.lookup (str "SHELL") = some (str "/bin/true") ∧ ¬ SameReading forged alone := by
  have hforged : (parseDatabase (unlines ([str "SHELL = /usr/bin/env bash"] ++ smallSection ++ []))).vars.lookup
      (str "SHELL") = some approvedShell := by decide
  have halone : (parseDatabase (unlines smallSection)).vars.lookup (str "SHELL") = some (str "/bin/true") := by decide
  refine ⟨by decide, hforged, halone, fun h => ?_⟩
  have hsame := h.vars (str "SHELL")
  rw [hforged, halone] at hsame
  exact absurd hsame (by decide)

end Vizra.Makefile
