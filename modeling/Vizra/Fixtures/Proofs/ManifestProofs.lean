import Vizra.Fixtures.Manifest
import Vizra.Report.Basic
import Mathlib.Data.List.Nodup
import Mathlib.Data.List.Perm.Basic
import Mathlib.Data.List.Perm.Subperm
import Mathlib.Tactic.Linarith

/-!
# What `VerifyAgainstManifest` compares

`Built` says what a manifest of `Build` consists of, and `noProblem_iff` what a manifest has to share with it for
no problem to be reported: `Compared`. The fields in `Uncompared` are pinned as well and never looked at, so that
the two together are agreement.
-/

namespace Vizra.Fixtures

open Go Report

variable {s : Spec} {m b : Manifest} {files : List (Bytes × FileInfo)}

/-! ## Lists -/

section Lists

variable {α β : Type}

theorem lastWith_mem {key : α → Bytes} {k : Bytes} {l : List α} {a : α} (h : lastWith key k l = some a) :
    a ∈ l ∧ key a = k := by
  rw [lastWith] at h
  refine ⟨List.mem_reverse.mp (List.mem_of_find?_eq_some h), ?_⟩
  simpa using List.find?_some h

theorem lastWith_eq_none_iff {key : α → Bytes} {k : Bytes} {l : List α} :
    lastWith key k l = none ↔ k ∉ l.map key := by
  rw [lastWith, List.find?_eq_none, List.mem_map, not_exists]
  simp

/-- With distinct keys the record of a key is the one that has it. -/
theorem lastWith_of_nodup {key : α → Bytes} {l : List α} (hl : (l.map key).Nodup) {a : α} (ha : a ∈ l) :
    lastWith key (key a) l = some a := by
  cases h : lastWith key (key a) l with
  | none => exact absurd (List.mem_map_of_mem ha) (lastWith_eq_none_iff.mp h)
  | some a' =>
    obtain ⟨hmem, hkey⟩ := lastWith_mem h
    rw [List.inj_on_of_nodup_map hl hmem ha hkey]

theorem map_eq_map_iff {f : α → β} {l l' : List α} :
    l.map f = l'.map f ↔ List.Forall₂ (fun a a' => f a = f a') l l' := by
  rw [← List.forall₂_eq_eq_eq, List.forall₂_map_left_iff, List.forall₂_map_right_iff]

/-- Lists with the same distinct keys in the same order, of which a pair with a key can be told by it. -/
theorem forall₂_of_keys {γ : Type} {key : α → Bytes} {f : α → γ} {l l' : List α} (hl : (l'.map key).Nodup)
    (hkeys : l.map key = l'.map key) (h : ∀ a ∈ l, ∀ a' ∈ l', key a = key a' → f a = f a') : l.map f = l'.map f := by
  rw [map_eq_map_iff] at hkeys ⊢
  induction hkeys with
  | nil => exact .nil
  | @cons a a' l l' hkey hrest ih =>
    rw [List.map_cons, List.nodup_cons] at hl
    refine .cons (h a List.mem_cons_self a' List.mem_cons_self hkey) (ih hl.2 fun b hb b' hb' => ?_)
    exact h b (List.mem_cons_of_mem _ hb) b' (List.mem_cons_of_mem _ hb')

theorem dedup_filter_eq_nil_iff {l l' : List Bytes} :
    (l.dedup.filter fun p => !l'.contains p) = [] ↔ ∀ p ∈ l, p ∈ l' := by
  simp [List.filter_eq_nil_iff, List.mem_dedup]

end Lists

theorem sortProblems_eq_nil_iff {probs : List Problem} : sortProblems probs = [] ↔ probs = [] := by
  rw [← List.length_eq_zero_iff, sortProblems, List.length_mergeSort, List.length_eq_zero_iff]

theorem corpus_nodup : (corpus.map Spec.path).Nodup := by decide +kernel

theorem codecInputs_nodup : (codecInputs.map CodecOrigin.path).Nodup := by decide +kernel

/-! ## The declared set -/

def itemNumbers : List Int := (List.range adr009Count).map fun i : Nat => (i : Int) + 1

theorem mem_itemNumbers {item : Int} : item ∈ itemNumbers ↔ 1 ≤ item ∧ item ≤ adr009Count := by
  rw [itemNumbers, List.mem_map]
  constructor
  · rintro ⟨i, hi, rfl⟩
    rw [List.mem_range] at hi
    omega
  · rintro ⟨hlo, hhi⟩
    refine ⟨(item - 1).toNat, ?_, ?_⟩
    · rw [List.mem_range]
      omega
    · omega

theorem itemNumbers_nodup : itemNumbers.Nodup := by decide

theorem Side.length_paths (s : Side) (item : Int) :
    (s.paths item).length = (s.items.map Prod.fst).count item := by
  rw [Side.paths, List.length_map, ← List.countP_eq_length_filter, List.count, List.countP_map]
  rfl

theorem Side.itemProblems_eq_nil_iff {s : Side} {item : Int} :
    s.itemProblems item = [] ↔ (s.items.map Prod.fst).count item = 1 := by
  rw [← Side.length_paths, Side.itemProblems]
  split
  · rename_i h
    simp [h]
  · rename_i h
    simp [h]
  · rename_i h1 h2
    constructor
    · intro h
      cases h
    · intro h
      obtain ⟨p, hp⟩ := List.length_eq_one_iff.mp h
      exact absurd hp (h2 p)

/-- Nothing is reported of a side exactly if it has one entry for each item. -/
theorem Side.problems_eq_nil_iff {s : Side} : s.problems = [] ↔ (s.items.map Prod.fst).Perm itemNumbers := by
  have hcount : s.countProblems = [] ↔ (s.items.map Prod.fst).length = adr009Count := by
    rw [Side.countProblems, List.length_map]
    split
    · rename_i h
      exact iff_of_false (List.cons_ne_nil _ _) h
    · rename_i h
      exact iff_of_true rfl (not_not.mp h)
  have hitems : ((List.range adr009Count).flatMap fun i : Nat => s.itemProblems (i + 1)) = [] ↔
      ∀ item ∈ itemNumbers, (s.items.map Prod.fst).count item = 1 := by
    rw [List.flatMap_eq_nil_iff, itemNumbers, List.forall_mem_map]
    exact forall₂_congr fun i _ => Side.itemProblems_eq_nil_iff
  have houtside : s.outside = [] ↔ ∀ item ∈ s.items.map Prod.fst, item ∈ itemNumbers := by
    rw [Side.outside, List.filter_eq_nil_iff]
    refine forall_congr' fun item => ?_
    rw [List.mem_dedup, mem_itemNumbers]
    simp
  rw [Side.problems, List.append_eq_nil_iff, List.append_eq_nil_iff, List.map_eq_nil_iff, hcount, hitems, houtside]
  constructor
  · rintro ⟨⟨-, hone⟩, hmem⟩
    rw [List.perm_iff_count]
    intro item
    by_cases hitem : item ∈ itemNumbers
    · rw [hone item hitem, List.count_eq_one_of_mem itemNumbers_nodup hitem]
    · rw [List.count_eq_zero_of_not_mem hitem, List.count_eq_zero_of_not_mem fun h => hitem (hmem item h)]
  · intro hperm
    refine ⟨⟨?_, fun item hitem => ?_⟩, fun item hitem => hperm.mem_iff.mp hitem⟩
    · rw [hperm.length_eq]
      rfl
    · rw [hperm.count_eq, List.count_eq_one_of_mem itemNumbers_nodup hitem]

theorem corpusSide_problems : corpusSide.problems = [] := by
  have hitems : corpusSide.items.map Prod.fst = itemNumbers := by decide +kernel
  rw [Side.problems_eq_nil_iff, hitems]

theorem checkDeclaredSet_eq_nil_iff : checkDeclaredSet m = [] ↔ (m.fixtures.map Entry.adr009).Perm itemNumbers := by
  have hitems : (manifestSide m).items.map Prod.fst = m.fixtures.map Entry.adr009 := by
    rw [manifestSide, List.map_map]
    rfl
  rw [checkDeclaredSet, corpusSide_problems, List.append_nil, Side.problems_eq_nil_iff, hitems]

/-! ## What `Build` returns -/

/-- The entry of a fixture whose bytes are `c`. -/
def Machine.entryOf (M : Machine) (s : Spec) (c : Bytes) : Entry :=
  { id := s.id, path := s.path, format := s.format, tier := s.tier, adr009 := s.adr009
    sha256 := M.sha256Hex c, bytes := c.length, width := s.width, height := s.height, decode := s.decode }

/-- The record of a codec input whose bytes are `c`. -/
def Machine.originOf (M : Machine) (o : CodecOrigin) (c : Bytes) : CodecOrigin :=
  { o with sha256 := M.sha256Hex c, bytes := c.length }

/-- A manifest of `Build`, with the file infos of `Generate`. -/
structure Built (M : Machine) (b : Manifest) (files : List (Bytes × FileInfo)) : Prop where
  digest : M.sourceDigest = .ok b.generator.sourceSHA256
  goMod : M.goDirective = .ok b.toolchain.goMod
  go : b.toolchain.go = M.goVersion
  version : b.generator.version = Fixtures.version
  sourceFiles : b.generator.sourceFiles = generatorSourceFiles
  origins : List.Forall₂ (fun o o' => ∃ c, M.readFile o.path = .ok c ∧ o' = M.originOf o c) codecInputs b.codecInputs
  files : List.Forall₂ (fun s f => ∃ c, M.build s = .ok c ∧ f = (s.path, ⟨M.sha256Hex c, c.length⟩)) corpus files
  entries : List.Forall₂ (fun s e => ∃ c, M.build s = .ok c ∧ e = M.entryOf s c) corpus b.fixtures

namespace Machine

variable {M : Machine}

theorem generateAll_ok {dir : Dir} {specs : List Spec} :
    M.generateAll dir specs = .ok files ↔
      (∀ s ∈ specs, M.writeFile dir s.path = .ok ()) ∧
        List.Forall₂ (fun s f => ∃ c, M.build s = .ok c ∧ f = (s.path, ⟨M.sha256Hex c, c.length⟩)) specs files := by
  induction specs generalizing files with
  | nil =>
    rw [generateAll, List.forall₂_nil_left_iff]
    constructor
    · intro h
      exact ⟨nofun, (Except.ok.inj h).symm⟩
    · rintro ⟨-, rfl⟩
      rfl
  | cons s specs ih =>
    rw [generateAll, bind_eq_ok, List.forall_mem_cons, List.forall₂_cons_left_iff]
    constructor
    · rintro ⟨c, hc, h⟩
      obtain ⟨u, hwrite, h⟩ := bind_eq_ok.mp h
      obtain ⟨rest, hrest, h⟩ := bind_eq_ok.mp h
      obtain ⟨hwrites, hall⟩ := ih.mp hrest
      exact ⟨⟨mapError_eq_ok.mp hwrite, hwrites⟩, _, rest, ⟨c, mapError_eq_ok.mp hc, rfl⟩, hall,
        (Except.ok.inj h).symm⟩
    · rintro ⟨⟨hwrite, hwrites⟩, f, rest, ⟨c, hc, rfl⟩, hall, rfl⟩
      refine ⟨c, mapError_eq_ok.mpr hc, bind_eq_ok.mpr ⟨(), mapError_eq_ok.mpr hwrite, ?_⟩⟩
      exact bind_eq_ok.mpr ⟨rest, ih.mpr ⟨hwrites, hall⟩, rfl⟩

theorem originsOf_ok {os os' : List CodecOrigin} (h : M.originsOf os = .ok os') :
    List.Forall₂ (fun o o' => ∃ c, M.readFile o.path = .ok c ∧ o' = M.originOf o c) os os' := by
  induction os generalizing os' with
  | nil =>
    rw [← Except.ok.inj h]
    exact .nil
  | cons o os ih =>
    obtain ⟨c, hc, h⟩ := bind_eq_ok.mp h
    obtain ⟨rest, hrest, h⟩ := bind_eq_ok.mp h
    rw [← Except.ok.inj h]
    exact .cons ⟨c, mapError_eq_ok.mp hc, rfl⟩ (ih hrest)

theorem lookup_of_files {specs : List Spec} (hn : (specs.map Spec.path).Nodup)
    (h : List.Forall₂ (fun s f => ∃ c, M.build s = .ok c ∧ f = (s.path, ⟨M.sha256Hex c, c.length⟩)) specs files)
    (hs : s ∈ specs) : ∃ c, M.build s = .ok c ∧ files.lookup s.path = some ⟨M.sha256Hex c, c.length⟩ := by
  induction h with
  | nil => cases hs
  | @cons s' f specs files hf _ ih =>
    obtain ⟨c, hc, rfl⟩ := hf
    rw [List.map_cons, List.nodup_cons] at hn
    rcases List.mem_cons.mp hs with rfl | hs
    · exact ⟨c, hc, by rw [List.lookup_cons_self]⟩
    · obtain ⟨c', hc', hlookup⟩ := ih hn.2 hs
      refine ⟨c', hc', ?_⟩
      have hne : (s.path == s'.path) = false := by
        rw [beq_eq_false_iff_ne]
        intro heq
        exact hn.1 (heq ▸ List.mem_map_of_mem hs)
      rw [List.lookup_cons, hne]
      exact hlookup

theorem entriesOf_ok {specs : List Spec} {es : List Entry}
    (hfiles : ∀ s ∈ specs, ∃ c, M.build s = .ok c ∧ files.lookup s.path = some ⟨M.sha256Hex c, c.length⟩)
    (h : entriesOf files specs = .ok es) :
    List.Forall₂ (fun s e => ∃ c, M.build s = .ok c ∧ e = M.entryOf s c) specs es := by
  induction specs generalizing es with
  | nil =>
    rw [← Except.ok.inj h]
    exact .nil
  | cons s specs ih =>
    rw [List.forall_mem_cons] at hfiles
    obtain ⟨c, hc, hlookup⟩ := hfiles.1
    rw [entriesOf, hlookup] at h
    obtain ⟨rest, hrest, h⟩ := bind_eq_ok.mp h
    rw [← Except.ok.inj h]
    exact .cons ⟨c, hc, rfl⟩ (ih hfiles.2 hrest)

theorem built_of_build (h : M.buildManifest = .ok b) : ∃ files, Built M b files := by
  obtain ⟨digest, hdigest, h⟩ := bind_eq_ok.mp h
  obtain ⟨goMod, hgoMod, h⟩ := bind_eq_ok.mp h
  obtain ⟨files, hfiles, h⟩ := bind_eq_ok.mp h
  obtain ⟨origins, horigins, h⟩ := bind_eq_ok.mp h
  obtain ⟨entries, hentries, h⟩ := bind_eq_ok.mp h
  obtain ⟨u, -, hall⟩ := bind_eq_ok.mp hfiles
  have hfiles' := (generateAll_ok.mp hall).2
  refine ⟨files, ?_⟩
  rw [← Except.ok.inj h]
  exact {
    digest := hdigest
    goMod := hgoMod
    go := rfl
    version := rfl
    sourceFiles := rfl
    origins := originsOf_ok horigins
    files := hfiles'
    entries := entriesOf_ok (fun s hs => lookup_of_files corpus_nodup hfiles' hs) hentries }

end Machine

namespace Built

variable {M : Machine} {b : Manifest} {files : List (Bytes × FileInfo)}

theorem fixture_paths (h : Built M b files) : b.fixtures.map Entry.path = corpus.map Spec.path := by
  rw [← List.forall₂_eq_eq_eq, List.forall₂_map_left_iff, List.forall₂_map_right_iff]
  refine (h.entries.imp ?_).flip
  rintro s e ⟨c, -, rfl⟩
  rfl

theorem fixture_nodup (h : Built M b files) : (b.fixtures.map Entry.path).Nodup := by
  rw [h.fixture_paths]
  exact corpus_nodup

theorem fixture_items (h : Built M b files) : b.fixtures.map Entry.adr009 = itemNumbers := by
  have hcorpus : corpus.map Spec.adr009 = itemNumbers := by decide
  rw [← hcorpus, ← List.forall₂_eq_eq_eq, List.forall₂_map_left_iff, List.forall₂_map_right_iff]
  refine (h.entries.imp ?_).flip
  rintro s e ⟨c, -, rfl⟩
  rfl

theorem codec_paths (h : Built M b files) : b.codecInputs.map CodecOrigin.path = codecInputs.map CodecOrigin.path := by
  rw [← List.forall₂_eq_eq_eq, List.forall₂_map_left_iff, List.forall₂_map_right_iff]
  refine (h.origins.imp ?_).flip
  rintro o o' ⟨c, -, rfl⟩
  rfl

theorem codec_nodup (h : Built M b files) : (b.codecInputs.map CodecOrigin.path).Nodup := by
  rw [h.codec_paths]
  exact codecInputs_nodup

/-- The entry of a specification and its file info. -/
theorem entry_of_spec (h : Built M b files) (hs : s ∈ corpus) :
    ∃ c, M.build s = .ok c ∧ M.entryOf s c ∈ b.fixtures ∧
      files.lookup s.path = some ⟨M.sha256Hex c, c.length⟩ := by
  obtain ⟨c, hc, hlookup⟩ := Machine.lookup_of_files corpus_nodup h.files hs
  obtain ⟨e, he, c', hc', rfl⟩ := forall₂_exists_left h.entries hs
  rw [hc] at hc'
  obtain rfl := Except.ok.inj hc'
  exact ⟨c, hc, he, hlookup⟩

theorem spec_of_entry (h : Built M b files) {e : Entry} (he : e ∈ b.fixtures) :
    ∃ s ∈ corpus, ∃ c, M.build s = .ok c ∧ e = M.entryOf s c := forall₂_exists_right h.entries he

theorem origin_of_input (h : Built M b files) {o : CodecOrigin} (ho : o ∈ codecInputs) :
    ∃ c, M.readFile o.path = .ok c ∧ M.originOf o c ∈ b.codecInputs := by
  obtain ⟨o', ho', c, hc, rfl⟩ := forall₂_exists_left h.origins ho
  exact ⟨c, hc, ho'⟩

theorem input_of_origin (h : Built M b files) {o' : CodecOrigin} (ho : o' ∈ b.codecInputs) :
    ∃ o ∈ codecInputs, ∃ c, M.readFile o.path = .ok c ∧ o' = M.originOf o c := forall₂_exists_right h.origins ho

end Built

/-! ## Agreement -/

/-- The pinned fields of a fixture. -/
def Entry.pinned (e : Entry) : Bytes × Bytes × Bytes × Bytes × Int × Int × Int × Int × Bytes :=
  (e.path, e.sha256, e.format, e.tier, e.adr009, e.bytes, e.width, e.height, e.decode)

/-- The pinned fields of a codec input. -/
def CodecOrigin.pinned (o : CodecOrigin) : Bytes × Bytes × Int × Bytes × Bytes × List Bytes :=
  (o.path, o.sha256, o.bytes, o.tool, o.toolVersion, o.argv)

/-- The manifests agree in their pins, in their lists of entries and in every pinned field of each entry. -/
structure Agrees (m b : Manifest) : Prop where
  generator : m.generator = b.generator
  toolchain : m.toolchain = b.toolchain
  codecInputs : m.codecInputs.map CodecOrigin.pinned = b.codecInputs.map CodecOrigin.pinned
  fixtures : m.fixtures.map Entry.pinned = b.fixtures.map Entry.pinned

/-- What is compared: the pins, the paths with their digests, the tool versions, and the set of ADR-009 items. -/
structure Compared (m b : Manifest) : Prop where
  generator : m.generator = b.generator
  toolchain : m.toolchain = b.toolchain
  items : (m.fixtures.map Entry.adr009).Perm itemNumbers
  fixtures : (m.fixtures.map fun e => (e.path, e.sha256)).Perm (b.fixtures.map fun e => (e.path, e.sha256))
  codecPaths : ∀ o ∈ m.codecInputs, o.path ∈ b.codecInputs.map CodecOrigin.path
  codecInputs : ∀ o' ∈ b.codecInputs, ∃ o, lastWith CodecOrigin.path o'.path m.codecInputs = some o ∧
    o.sha256 = o'.sha256 ∧ o.toolVersion = o'.toolVersion

/-- What is pinned and not compared: the order of the entries, and the other fields of each. -/
structure Uncompared (m b : Manifest) : Prop where
  codecOrder : m.codecInputs.map CodecOrigin.path = b.codecInputs.map CodecOrigin.path
  codecInputs : m.codecInputs.map (fun o => (o.bytes, o.tool, o.argv)) =
    b.codecInputs.map fun o => (o.bytes, o.tool, o.argv)
  fixtureOrder : m.fixtures.map Entry.path = b.fixtures.map Entry.path
  fixtures : m.fixtures.map (fun e => (e.format, e.tier, e.adr009, e.bytes, e.width, e.height, e.decode)) =
    b.fixtures.map fun e => (e.format, e.tier, e.adr009, e.bytes, e.width, e.height, e.decode)

/-- A function of the pinned fields agrees on lists that agree in them. -/
theorem map_of_pinned {α β γ : Type} {f : α → β} (g : β → γ) {l l' : List α} (h : l.map f = l'.map f) :
    l.map (fun a => g (f a)) = l'.map fun a => g (f a) := by
  have hmap := congrArg (List.map g) h
  rwa [List.map_map, List.map_map] at hmap

theorem Agrees.uncompared (h : Agrees m b) : Uncompared m b where
  codecOrder := map_of_pinned (fun p => p.1) h.codecInputs
  codecInputs := map_of_pinned (fun p => (p.2.2.1, p.2.2.2.1, p.2.2.2.2.2)) h.codecInputs
  fixtureOrder := map_of_pinned (fun p => p.1) h.fixtures
  fixtures := map_of_pinned (fun p => p.2.2) h.fixtures

theorem Agrees.compared {M : Machine} (hb : Built M b files) (h : Agrees m b) : Compared m b where
  generator := h.generator
  toolchain := h.toolchain
  items := by
    have hitems : m.fixtures.map Entry.adr009 = b.fixtures.map Entry.adr009 :=
      map_of_pinned (fun p => p.2.2.2.2.1) h.fixtures
    rw [hitems, hb.fixture_items]
  fixtures := by
    have hpairs : (m.fixtures.map fun e => (e.path, e.sha256)) = b.fixtures.map fun e => (e.path, e.sha256) :=
      map_of_pinned (fun p => (p.1, p.2.1)) h.fixtures
    rw [hpairs]
  codecPaths o ho := by
    rw [← h.uncompared.codecOrder]
    exact List.mem_map_of_mem ho
  codecInputs o' ho' := by
    cases hlast : lastWith CodecOrigin.path o'.path m.codecInputs with
    | none =>
      refine absurd ?_ (lastWith_eq_none_iff.mp hlast)
      rw [h.uncompared.codecOrder]
      exact List.mem_map_of_mem ho'
    | some o =>
      obtain ⟨hmem, hpath⟩ := lastWith_mem hlast
      have hpinned := List.mem_map_of_mem (f := CodecOrigin.pinned) hmem
      rw [h.codecInputs] at hpinned
      obtain ⟨o'', ho'', heq⟩ := List.mem_map.mp hpinned
      simp only [CodecOrigin.pinned, Prod.mk.injEq] at heq
      have hsame := List.inj_on_of_nodup_map hb.codec_nodup ho'' ho' (heq.1.trans hpath)
      rw [hsame] at heq
      exact ⟨o, rfl, heq.2.1.symm, heq.2.2.2.2.1.symm⟩

theorem agrees_of_compared {M : Machine} (hb : Built M b files) (hc : Compared m b) (hu : Uncompared m b) :
    Agrees m b := by
  have hsha : m.fixtures.map Entry.sha256 = b.fixtures.map Entry.sha256 := by
    refine forall₂_of_keys hb.fixture_nodup hu.fixtureOrder fun e he e' he' hpath => ?_
    have hmem := hc.fixtures.mem_iff.mp (List.mem_map_of_mem (f := fun e => (e.path, e.sha256)) he)
    obtain ⟨e'', he'', heq⟩ := List.mem_map.mp hmem
    obtain ⟨hpath', hsha⟩ := Prod.mk.inj heq
    rw [← hsha, List.inj_on_of_nodup_map hb.fixture_nodup he'' he' (hpath'.trans hpath)]
  have hcodec : m.codecInputs.map (fun o => (o.sha256, o.toolVersion)) =
      b.codecInputs.map fun o => (o.sha256, o.toolVersion) := by
    have hnodup : (m.codecInputs.map CodecOrigin.path).Nodup := by
      rw [hu.codecOrder]
      exact hb.codec_nodup
    refine forall₂_of_keys hb.codec_nodup hu.codecOrder fun o ho o' ho' hpath => ?_
    obtain ⟨rec, hrec, hrecsha, hrecversion⟩ := hc.codecInputs o' ho'
    rw [← hpath, lastWith_of_nodup hnodup ho] at hrec
    rw [Option.some.inj hrec, hrecsha, hrecversion]
  refine ⟨hc.generator, hc.toolchain, ?_, ?_⟩
  · have hall := map_eq_map_iff.mp hu.codecOrder
    have hall2 := map_eq_map_iff.mp hu.codecInputs
    have hall3 := map_eq_map_iff.mp hcodec
    rw [map_eq_map_iff]
    rw [List.forall₂_iff_zip] at hall hall2 hall3 ⊢
    refine ⟨hall.1, fun {o o'} hz => ?_⟩
    have h1 := hall.2 hz
    have h2 := hall2.2 hz
    have h3 := hall3.2 hz
    simp only [Prod.mk.injEq] at h2 h3
    simp only [CodecOrigin.pinned, h1, h2, h3]
  · have hall := map_eq_map_iff.mp hu.fixtureOrder
    have hall2 := map_eq_map_iff.mp hu.fixtures
    have hall3 := map_eq_map_iff.mp hsha
    rw [map_eq_map_iff]
    rw [List.forall₂_iff_zip] at hall hall2 hall3 ⊢
    refine ⟨hall.1, fun {e e'} hz => ?_⟩
    have h1 := hall.2 hz
    have h2 := hall2.2 hz
    have h3 := hall3.2 hz
    simp only [Prod.mk.injEq] at h2
    simp only [Entry.pinned, h1, h2, h3]

/-! ## Problems -/

/-- The output directory does not exist. -/
def OutAbsent (M : Machine) : Prop := M.readDir = none ∧ ∀ s ∈ corpus, M.readOut s.path = .notExist

/-- The output directory holds the generated corpus and nothing else. -/
def OutExact (M : Machine) : Prop :=
  (∃ names, M.readDir = some names ∧ ∀ n, n ∈ names ↔ ∃ s ∈ corpus, n = (s.path, false)) ∧
    ∀ s ∈ corpus, ∃ c, M.build s = .ok c ∧ M.readOut s.path = .content c

/-- The corpus can be generated into the scratch directory. -/
def ScratchWritable (M : Machine) : Prop :=
  M.mkdirAll .scratch = .ok () ∧ ∀ s ∈ corpus, M.writeFile .scratch s.path = .ok ()

theorem ite_problem_eq_nil {c : Prop} [Decidable c] {p : Problem} : (if c then [p] else []) = [] ↔ ¬ c := by
  split
  · rename_i h
    exact iff_of_false (List.cons_ne_nil _ _) (not_not.mpr h)
  · rename_i h
    exact iff_of_true rfl h

section Problems

variable {M : Machine} {m b : Manifest} {files : List (Bytes × FileInfo)}

theorem generate_scratch (hb : Built M b files) (hs : ScratchWritable M) : M.generate .scratch = .ok files :=
  bind_eq_ok.mpr ⟨(), mapError_eq_ok.mpr hs.1, Machine.generateAll_ok.mpr ⟨hs.2, hb.files⟩⟩

theorem length_digest (hsha : ∀ x, (M.sha256Hex x).length = 64) (hb : Built M b files) :
    b.generator.sourceSHA256.length = 64 := by
  obtain ⟨chunks, -, h⟩ := bind_eq_ok.mp hb.digest
  rw [← Except.ok.inj h]
  exact hsha _

theorem firstSixteen_of_le {s : Bytes} (h : 16 ≤ s.length) : firstSixteen s = .ok (s.take 16) := by
  rw [firstSixteen, if_pos h]
  rfl

theorem firstSixteen_of_lt {s : Bytes} (h : ¬ 16 ≤ s.length) : firstSixteen s = .error .panic := by
  rw [firstSixteen, if_neg h]
  rfl

/-- The source step passes, reports the digest, or slices it out of range. -/
theorem sourceProblems_cases {digest : Bytes} (hlen : 16 ≤ digest.length) :
    (m.generator.sourceSHA256 = digest ∧ sourceProblems m digest = .ok []) ∨
    (m.generator.sourceSHA256 ≠ digest ∧ 16 ≤ m.generator.sourceSHA256.length ∧
      ∃ p, sourceProblems m digest = .ok [p]) ∨
    (m.generator.sourceSHA256 ≠ digest ∧ m.generator.sourceSHA256.length < 16 ∧
      sourceProblems m digest = .error .panic) := by
  by_cases heq : m.generator.sourceSHA256 = digest
  · refine Or.inl ⟨heq, ?_⟩
    rw [sourceProblems, if_neg (not_not.mpr heq.symm)]
    rfl
  · right
    have hne : digest ≠ m.generator.sourceSHA256 := fun h => heq h.symm
    rw [sourceProblems, if_pos hne, firstSixteen_of_le hlen]
    by_cases hle : 16 ≤ m.generator.sourceSHA256.length
    · refine Or.inl ⟨heq, hle, ?_⟩
      rw [firstSixteen_of_le hle]
      exact ⟨_, rfl⟩
    · refine Or.inr ⟨heq, by omega, ?_⟩
      rw [firstSixteen_of_lt hle]
      rfl

/-- The problems of the cheap steps, when those of the source step are `source`. -/
theorem cheapProblems_eq (hb : Built M b files) :
    cheapProblems M m = sourceProblems m b.generator.sourceSHA256 >>= fun source =>
      pure (checkDeclaredSet m ++ goProblems M m ++ goModProblems m b.toolchain.goMod ++ source ++ versionProblems M m ++
        sourceFilesProblems m ++ codecInputs.flatMap (codecProblems M m) ++ unusedProblems m ++
        m.fixtures.flatMap (diskProblems M) ++ undeclaredProblems M m) := by
  rw [cheapProblems, hb.goMod, hb.digest]
  rfl

theorem verify_of_problems {probs : List Problem} (h : cheapProblems M m = .ok probs) (hne : probs ≠ []) :
    verifyAgainstManifest M m = .ok (sortProblems (probs ++ [notCompared])) :=
  bind_eq_ok.mpr ⟨probs, h, if_pos hne⟩

theorem verify_of_nil (hs : ScratchWritable M) (hb : Built M b files) (h : cheapProblems M m = .ok []) :
    verifyAgainstManifest M m = .ok (sortProblems (corpus.flatMap (fixtureProblems m files) ++ strayProblems m)) := by
  refine bind_eq_ok.mpr ⟨[], h, ?_⟩
  rw [if_neg (not_not.mpr rfl)]
  exact bind_eq_ok.mpr ⟨files, generate_scratch hb hs, rfl⟩

/-- The digest of the manifest is sliced out of range if it is short and not the generator's. -/
theorem verify_panic_iff (hsha : ∀ x, (M.sha256Hex x).length = 64) (hs : ScratchWritable M) (hb : Built M b files) :
    verifyAgainstManifest M m = .error .panic ↔
      m.generator.sourceSHA256 ≠ b.generator.sourceSHA256 ∧ m.generator.sourceSHA256.length < 16 := by
  have hlen : 16 ≤ b.generator.sourceSHA256.length := by
    rw [length_digest hsha hb]
    decide
  have hreturns : ∀ probs, cheapProblems M m = .ok probs → verifyAgainstManifest M m ≠ .error .panic := by
    intro probs hprobs
    by_cases hnil : probs = []
    · rw [verify_of_nil hs hb (hnil ▸ hprobs)]
      exact nofun
    · rw [verify_of_problems hprobs hnil]
      exact nofun
  have hcheap := cheapProblems_eq (m := m) hb
  rcases sourceProblems_cases (m := m) hlen with ⟨heq, hsource⟩ | ⟨hne, hle, p, hsource⟩ | ⟨hne, hlt, hsource⟩
  · rw [hsource] at hcheap
    exact iff_of_false (hreturns _ hcheap) fun h => h.1 heq
  · rw [hsource] at hcheap
    exact iff_of_false (hreturns _ hcheap) fun h => absurd h.2 (by omega)
  · refine iff_of_true ?_ ⟨hne, hlt⟩
    rw [verifyAgainstManifest, hcheap, hsource]
    rfl

/-- Every step of the verifier is silent. -/
structure Silent (M : Machine) (m : Manifest) (files : List (Bytes × FileInfo)) (goMod digest : Bytes) : Prop where
  declared : checkDeclaredSet m = []
  go : goProblems M m = []
  goMod : goModProblems m goMod = []
  source : m.generator.sourceSHA256 = digest
  version : versionProblems M m = []
  sourceFiles : sourceFilesProblems m = []
  codec : ∀ o ∈ codecInputs, codecProblems M m o = []
  unused : unusedProblems m = []
  disk : ∀ e ∈ m.fixtures, diskProblems M e = []
  undeclared : undeclaredProblems M m = []
  fixtures : ∀ s ∈ corpus, fixtureProblems m files s = []
  stray : strayProblems m = []

theorem verify_eq_nil_iff (hsha : ∀ x, (M.sha256Hex x).length = 64) (hs : ScratchWritable M) (hb : Built M b files) :
    verifyAgainstManifest M m = .ok [] ↔ Silent M m files b.toolchain.goMod b.generator.sourceSHA256 := by
  have hlen : 16 ≤ b.generator.sourceSHA256.length := by
    rw [length_digest hsha hb]
    decide
  have hcheap := cheapProblems_eq (m := m) hb
  have hverify : verifyAgainstManifest M m = .ok [] ↔ cheapProblems M m = .ok [] ∧
      corpus.flatMap (fixtureProblems m files) ++ strayProblems m = [] := by
    constructor
    · intro h
      obtain ⟨probs, hprobs, -⟩ := bind_eq_ok.mp h
      by_cases hnil : probs = []
      · subst hnil
        rw [verify_of_nil hs hb hprobs] at h
        exact ⟨hprobs, sortProblems_eq_nil_iff.mp (Except.ok.inj h)⟩
      · rw [verify_of_problems hprobs hnil] at h
        have hsort := sortProblems_eq_nil_iff.mp (Except.ok.inj h)
        cases (List.append_eq_nil_iff.mp hsort).2
    · rintro ⟨hprobs, hrest⟩
      rw [verify_of_nil hs hb hprobs, sortProblems_eq_nil_iff.mpr hrest]
  rw [hverify, hcheap]
  rcases sourceProblems_cases (m := m) hlen with ⟨heq, hsource⟩ | ⟨hne, -, p, hsource⟩ | ⟨hne, -, hsource⟩
  · rw [hsource]
    constructor
    · rintro ⟨hprobs, hrest⟩
      have hnil := Except.ok.inj hprobs
      simp only [List.append_eq_nil_iff, List.flatMap_eq_nil_iff] at hnil hrest
      obtain ⟨⟨⟨⟨⟨⟨⟨⟨⟨h1, h2⟩, h3⟩, -⟩, h5⟩, h6⟩, h7⟩, h8⟩, h9⟩, h10⟩ := hnil
      exact ⟨h1, h2, h3, heq, h5, h6, h7, h8, h9, h10, hrest.1, hrest.2⟩
    · intro h
      have hnil : checkDeclaredSet m ++ goProblems M m ++ goModProblems m b.toolchain.goMod ++ [] ++
          versionProblems M m ++ sourceFilesProblems m ++ codecInputs.flatMap (codecProblems M m) ++ unusedProblems m ++
          m.fixtures.flatMap (diskProblems M) ++ undeclaredProblems M m = [] := by
        simp only [List.append_eq_nil_iff, List.flatMap_eq_nil_iff]
        exact ⟨⟨⟨⟨⟨⟨⟨⟨⟨h.declared, h.go⟩, h.goMod⟩, trivial⟩, h.version⟩, h.sourceFiles⟩, h.codec⟩, h.unused⟩, h.disk⟩,
          h.undeclared⟩
      refine ⟨congrArg Except.ok hnil, ?_⟩
      rw [List.append_eq_nil_iff, List.flatMap_eq_nil_iff]
      exact ⟨h.fixtures, h.stray⟩
  · refine iff_of_false ?_ fun h => hne h.source
    rw [hsource]
    rintro ⟨hprobs, -⟩
    have hnil := Except.ok.inj hprobs
    simp at hnil
  · refine iff_of_false ?_ fun h => hne h.source
    rw [hsource]
    rintro ⟨hprobs, -⟩
    cases hprobs

theorem goProblems_eq_nil_iff : goProblems M m = [] ↔ M.goVersion = m.toolchain.go :=
  ite_problem_eq_nil.trans not_not

theorem goModProblems_eq_nil_iff {goMod : Bytes} : goModProblems m goMod = [] ↔ goMod = m.toolchain.goMod :=
  ite_problem_eq_nil.trans not_not

theorem versionProblems_eq_nil_iff : versionProblems M m = [] ↔ m.generator.version = version :=
  ite_problem_eq_nil.trans not_not

theorem sourceFilesProblems_eq_nil_iff :
    sourceFilesProblems m = [] ↔ m.generator.sourceFiles = generatorSourceFiles :=
  ite_problem_eq_nil.trans not_not

theorem codecProblems_eq_nil_iff {o : CodecOrigin} {c : Bytes} (hc : M.readFile o.path = .ok c) :
    codecProblems M m o = [] ↔ ∃ rec, lastWith CodecOrigin.path o.path m.codecInputs = some rec ∧
      rec.sha256 = M.sha256Hex c ∧ rec.toolVersion = o.toolVersion := by
  rw [codecProblems]
  cases hlast : lastWith CodecOrigin.path o.path m.codecInputs with
  | none => exact iff_of_false (List.cons_ne_nil _ _) nofun
  | some rec =>
    simp only [hc, List.append_eq_nil_iff, ite_problem_eq_nil, not_not, Option.some.injEq, exists_eq_left']
    exact and_congr_left fun _ => eq_comm

theorem unusedProblems_eq_nil_iff :
    unusedProblems m = [] ↔ ∀ o ∈ m.codecInputs, o.path ∈ codecInputs.map CodecOrigin.path := by
  rw [unusedProblems, List.map_eq_nil_iff, dedup_filter_eq_nil_iff, List.forall_mem_map]

theorem fixtureProblems_eq_nil_iff {fi : FileInfo} (hl : files.lookup s.path = some fi) :
    fixtureProblems m files s = [] ↔
      ∃ e, lastWith Entry.path s.path m.fixtures = some e ∧ e.sha256 = fi.sha256 := by
  rw [fixtureProblems]
  cases hlast : lastWith Entry.path s.path m.fixtures with
  | none => exact iff_of_false (List.cons_ne_nil _ _) nofun
  | some e =>
    simp only [hl, Option.getD_some, ite_problem_eq_nil, not_not, Option.some.injEq, exists_eq_left']
    exact eq_comm

theorem strayProblems_eq_nil_iff : strayProblems m = [] ↔ ∀ e ∈ m.fixtures, e.path ∈ corpus.map Spec.path := by
  rw [strayProblems, List.map_eq_nil_iff, dedup_filter_eq_nil_iff, List.forall_mem_map]

theorem diskProblems_eq_nil (hout : OutAbsent M ∨ OutExact M) {e : Entry} {c : Bytes} (hs : s ∈ corpus)
    (hpath : e.path = s.path) (hc : M.build s = .ok c) (hsha : e.sha256 = M.sha256Hex c) : diskProblems M e = [] := by
  rw [diskProblems, hpath]
  rcases hout with ⟨-, habsent⟩ | ⟨-, hexact⟩
  · rw [habsent s hs]
  · obtain ⟨c', hc', hread⟩ := hexact s hs
    rw [hc] at hc'
    obtain rfl := Except.ok.inj hc'
    rw [hread]
    exact ite_problem_eq_nil.mpr (not_not.mpr hsha.symm)

theorem undeclaredProblems_eq_nil (hout : OutAbsent M ∨ OutExact M)
    (hpaths : ∀ s ∈ corpus, s.path ∈ m.fixtures.map Entry.path) : undeclaredProblems M m = [] := by
  rw [undeclaredProblems]
  rcases hout with ⟨habsent, -⟩ | ⟨⟨names, hnames, hmem⟩, -⟩
  · rw [habsent]
  · rw [hnames]
    simp only [List.map_eq_nil_iff, List.filter_eq_nil_iff]
    intro n hn
    obtain ⟨s, hs, rfl⟩ := (hmem n).mp hn
    simpa using fun _ => List.mem_map.mp (hpaths s hs)

/-- Twelve entries that cover the paths of the corpus have them once each. -/
theorem fixture_pairs (hb : Built M b files) (hlen : m.fixtures.length = adr009Count)
    (hfix : ∀ s ∈ corpus, fixtureProblems m files s = []) :
    (m.fixtures.map fun e => (e.path, e.sha256)).Perm (b.fixtures.map fun e => (e.path, e.sha256)) := by
  have hrecord : ∀ s ∈ corpus, ∃ e ∈ m.fixtures, e.path = s.path ∧
      ∃ c, M.build s = .ok c ∧ M.entryOf s c ∈ b.fixtures ∧ e.sha256 = M.sha256Hex c := by
    intro s hs
    obtain ⟨c, hc, hentry, hlookup⟩ := hb.entry_of_spec hs
    obtain ⟨e, hlast, hsha⟩ := (fixtureProblems_eq_nil_iff hlookup).mp (hfix s hs)
    obtain ⟨hmem, hpath⟩ := lastWith_mem hlast
    exact ⟨e, hmem, hpath, c, hc, hentry, hsha⟩
  have hsubset : corpus.map Spec.path ⊆ m.fixtures.map Entry.path := by
    intro p hp
    obtain ⟨s, hs, rfl⟩ := List.mem_map.mp hp
    obtain ⟨e, he, hpath, -⟩ := hrecord s hs
    exact hpath ▸ List.mem_map_of_mem he
  have hperm : (corpus.map Spec.path).Perm (m.fixtures.map Entry.path) := by
    refine (List.subperm_of_subset corpus_nodup hsubset).perm_of_length_le ?_
    rw [List.length_map, List.length_map, hlen]
    decide
  have hnodup : (m.fixtures.map Entry.path).Nodup := hperm.nodup_iff.mp corpus_nodup
  have hpairs : ∀ l : List Entry, (l.map Entry.path).Nodup → (l.map fun e => (e.path, e.sha256)).Nodup := by
    intro l hl
    refine List.Nodup.of_map Prod.fst ?_
    rw [List.map_map]
    exact hl
  rw [List.perm_ext_iff_of_nodup (hpairs _ hnodup) (hpairs _ hb.fixture_nodup)]
  rintro ⟨p, h⟩
  constructor
  · intro hmem
    obtain ⟨e, he, heq⟩ := List.mem_map.mp hmem
    obtain ⟨rfl, rfl⟩ := Prod.mk.inj heq
    obtain ⟨s, hs, hspath⟩ := List.mem_map.mp (hperm.mem_iff.mpr (List.mem_map_of_mem he))
    obtain ⟨e', he', hpath, c, -, hentry, hsha⟩ := hrecord s hs
    rw [← List.inj_on_of_nodup_map hnodup he' he (hpath.trans hspath), hsha, hpath]
    exact List.mem_map_of_mem (f := fun e => (e.path, e.sha256)) hentry
  · intro hmem
    obtain ⟨e, he, heq⟩ := List.mem_map.mp hmem
    obtain ⟨rfl, rfl⟩ := Prod.mk.inj heq
    obtain ⟨s, hs, c, hc, rfl⟩ := hb.spec_of_entry he
    obtain ⟨e', he', hpath, c', hc', -, hsha⟩ := hrecord s hs
    rw [hc] at hc'
    obtain rfl := Except.ok.inj hc'
    have hpair : (e'.path, e'.sha256) = ((M.entryOf s c).path, (M.entryOf s c).sha256) := by
      rw [hpath, hsha]
      rfl
    rw [← hpair]
    exact List.mem_map_of_mem (f := fun e => (e.path, e.sha256)) he'

theorem Silent.compared (hb : Built M b files)
    (h : Silent M m files b.toolchain.goMod b.generator.sourceSHA256) : Compared m b where
  generator := by
    have hversion := versionProblems_eq_nil_iff.mp h.version
    have hfiles := sourceFilesProblems_eq_nil_iff.mp h.sourceFiles
    cases hm : m.generator
    cases hbg : b.generator
    have h1 := hb.version
    have h2 := hb.sourceFiles
    have h3 := h.source
    rw [hm] at hversion hfiles h3
    rw [hbg] at h1 h2 h3
    simp only at hversion hfiles h1 h2 h3
    rw [hversion, hfiles, h1, h2, h3]
  toolchain := by
    have hgo := goProblems_eq_nil_iff.mp h.go
    have hgoMod := goModProblems_eq_nil_iff.mp h.goMod
    have h1 := hb.go
    cases hm : m.toolchain
    cases hbt : b.toolchain
    rw [hm] at hgo hgoMod
    rw [hbt] at hgoMod h1
    simp only at hgo hgoMod h1
    rw [h1, hgo, hgoMod]
  items := checkDeclaredSet_eq_nil_iff.mp h.declared
  fixtures := by
    refine fixture_pairs hb ?_ h.fixtures
    have hlen := (checkDeclaredSet_eq_nil_iff.mp h.declared).length_eq
    rw [List.length_map] at hlen
    exact hlen
  codecPaths := by
    rw [hb.codec_paths]
    exact unusedProblems_eq_nil_iff.mp h.unused
  codecInputs o' ho' := by
    obtain ⟨o, ho, c, hc, rfl⟩ := hb.input_of_origin ho'
    obtain ⟨rec, hrec, hsha, hversion⟩ := (codecProblems_eq_nil_iff hc).mp (h.codec o ho)
    exact ⟨rec, hrec, hsha, hversion⟩

theorem Compared.silent (hout : OutAbsent M ∨ OutExact M) (hb : Built M b files) (h : Compared m b) :
    Silent M m files b.toolchain.goMod b.generator.sourceSHA256 := by
  have hpaths : (m.fixtures.map Entry.path).Perm (corpus.map Spec.path) := by
    have hfst := h.fixtures.map Prod.fst
    rw [List.map_map, List.map_map] at hfst
    rw [← hb.fixture_paths]
    exact hfst
  have hnodup : (m.fixtures.map Entry.path).Nodup := hpaths.nodup_iff.mpr corpus_nodup
  -- each entry is of a fixture, with the digest of its bytes
  have hentry : ∀ e ∈ m.fixtures, ∃ s ∈ corpus, e.path = s.path ∧
      ∃ c, M.build s = .ok c ∧ e.sha256 = M.sha256Hex c := by
    intro e he
    have hmem := h.fixtures.mem_iff.mp (List.mem_map_of_mem (f := fun e => (e.path, e.sha256)) he)
    obtain ⟨e', he', heq⟩ := List.mem_map.mp hmem
    obtain ⟨hpath, hsha⟩ := Prod.mk.inj heq
    obtain ⟨s, hs, c, hc, rfl⟩ := hb.spec_of_entry he'
    exact ⟨s, hs, hpath.symm, c, hc, hsha.symm⟩
  exact {
    declared := checkDeclaredSet_eq_nil_iff.mpr h.items
    go := goProblems_eq_nil_iff.mpr (by rw [h.toolchain, hb.go])
    goMod := goModProblems_eq_nil_iff.mpr (by rw [h.toolchain])
    source := by rw [h.generator]
    version := versionProblems_eq_nil_iff.mpr (by rw [h.generator, hb.version])
    sourceFiles := sourceFilesProblems_eq_nil_iff.mpr (by rw [h.generator, hb.sourceFiles])
    codec := by
      intro o ho
      obtain ⟨c, hc, ho'⟩ := hb.origin_of_input ho
      obtain ⟨rec, hrec, hsha, hversion⟩ := h.codecInputs _ ho'
      exact (codecProblems_eq_nil_iff hc).mpr ⟨rec, hrec, hsha, hversion⟩
    unused := by
      refine unusedProblems_eq_nil_iff.mpr fun o ho => ?_
      rw [← hb.codec_paths]
      exact h.codecPaths o ho
    disk := by
      intro e he
      obtain ⟨s, hs, hpath, c, hc, hsha⟩ := hentry e he
      exact diskProblems_eq_nil hout hs hpath hc hsha
    undeclared := undeclaredProblems_eq_nil hout fun s hs => hpaths.mem_iff.mpr (List.mem_map_of_mem hs)
    fixtures := by
      intro s hs
      obtain ⟨c, hc, -, hlookup⟩ := hb.entry_of_spec hs
      obtain ⟨e, he, hpath⟩ := List.mem_map.mp (hpaths.mem_iff.mpr (List.mem_map_of_mem hs))
      obtain ⟨s', hs', hpath', c', hc', hsha⟩ := hentry e he
      obtain rfl : s' = s := List.inj_on_of_nodup_map corpus_nodup hs' hs (hpath'.symm.trans hpath)
      rw [hc] at hc'
      obtain rfl := Except.ok.inj hc'
      refine (fixtureProblems_eq_nil_iff hlookup).mpr ⟨e, ?_, hsha⟩
      rw [← hpath]
      exact lastWith_of_nodup hnodup he
    stray := strayProblems_eq_nil_iff.mpr fun e he => hpaths.mem_iff.mp (List.mem_map_of_mem he) }

theorem noProblem_iff (hsha : ∀ x, (M.sha256Hex x).length = 64) (hs : ScratchWritable M)
    (hout : OutAbsent M ∨ OutExact M) (hb : Built M b files) :
    verifyAgainstManifest M m = .ok [] ↔ Compared m b :=
  (verify_eq_nil_iff hsha hs hb).trans ⟨Silent.compared hb, Compared.silent hout hb⟩

end Problems

/-- A machine on which every fixture is empty and nothing has been generated. -/
def emptyMachine : Machine where
  goVersion := ascii "go1.27.1"
  readFile path := .ok (if path = ascii "go.mod" then ascii "go 1.26.0" else [])
  readOut _ := .notExist
  readDir := none
  build _ := .ok []
  mkdirAll _ := .ok ()
  writeFile _ _ := .ok ()
  sha256Hex _ := List.replicate 64 0x30
  quote s := s

def emptyManifest : Manifest where
  generator := ⟨version, List.replicate 64 0x30, generatorSourceFiles⟩
  toolchain := ⟨ascii "go1.27.1", ascii "1.26.0"⟩
  codecInputs := codecInputs.map fun o => emptyMachine.originOf o []
  fixtures := corpus.map fun s => emptyMachine.entryOf s []

theorem build_emptyMachine : emptyMachine.buildManifest = .ok emptyManifest := by
  have hdigest : emptyMachine.sourceDigest = .ok (List.replicate 64 0x30) := rfl
  have hgoMod : emptyMachine.goDirective = .ok (ascii "1.26.0") := by decide +kernel
  have hfiles : emptyMachine.generate .out = .ok (corpus.map fun s => (s.path, ⟨List.replicate 64 0x30, 0⟩)) := rfl
  have horigins : emptyMachine.originsOf codecInputs = .ok (codecInputs.map fun o => emptyMachine.originOf o []) := rfl
  have hentries : Machine.entriesOf (corpus.map fun s => (s.path, ⟨List.replicate 64 0x30, 0⟩)) corpus =
      .ok (corpus.map fun s => emptyMachine.entryOf s []) := rfl
  exact bind_eq_ok.mpr ⟨_, hdigest, bind_eq_ok.mpr ⟨_, hgoMod, bind_eq_ok.mpr ⟨_, hfiles,
    bind_eq_ok.mpr ⟨_, horigins, bind_eq_ok.mpr ⟨_, hentries, rfl⟩⟩⟩⟩⟩

/-- The manifest of the empty machine with other widths, its codec inputs in another order and without their
arguments. -/
def driftedManifest : Manifest :=
  { emptyManifest with
    codecInputs := (emptyManifest.codecInputs.map fun o => { o with argv := [] }).reverse
    fixtures := emptyManifest.fixtures.map fun e => { e with width := 1 } }

end Vizra.Fixtures
