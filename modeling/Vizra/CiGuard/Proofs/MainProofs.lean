import Mathlib.Data.Bool.AllAny
import Vizra.CiGuard.Checks

/-!
# What a run of the guard that returns 0 has checked
-/

namespace Vizra.CiGuard

open Py Report

/-- The guard comes as far as its checks, with this input. -/
def Tree.Reads (t : Tree) (g : Input) : Prop := ∃ s, t.manifest = .text s ∧ t.read (readManifest s) = .ok g

variable {repr : Value → Str} {t : Tree} {g : Input}

theorem checks_of_main (h : main repr t = .ok 0) (hg : t.Reads g) :
    g.checks repr t.skipMakefile t.makefileChecks = .ok [] := by
  obtain ⟨s, hs, hread⟩ := hg
  rw [main, hs] at h
  by_cases hempty : (readManifest s).required.isEmpty = true
  · simp only [hempty, if_true] at h
    cases h
  · simp only [hempty, if_false, Bool.false_eq_true] at h
    obtain ⟨g', hg', hrest⟩ := bind_eq_ok.mp h
    rw [hread] at hg'
    cases hg'
    obtain ⟨failures, hfailures, hcode⟩ := bind_eq_ok.mp hrest
    have hcode : (if failures.isEmpty then 0 else 1) = 0 := Except.ok.inj hcode
    cases failures with
    | nil => exact hfailures
    | cons f fs => cases hcode

/-- What can be told of the input by evaluation. -/
theorem reads_of_any {s : Str} (hs : t.manifest = .text s) {p : Input → Bool}
    (h : (t.read (readManifest s)).toOption.any p = true) : ∃ g, t.Reads g ∧ p g = true := by
  cases hread : t.read (readManifest s) with
  | error e =>
    rw [hread] at h
    cases h
  | ok g =>
    rw [hread] at h
    exact ⟨g, ⟨s, hs, hread⟩, h⟩

/-! ## The job of a checked lane -/

/-- What the loop over the checked lanes says of the job that has a lane's name. -/
structure LanePasses (repr : Value → Str) (g : Input) (lane : Str) (e : Entry) : Prop where
  triggered : str "pull_request" ∈ triggers repr e.doc
  jobs : ∀ le ∈ expandNeeds repr g.byKey lane e, g.checkJob repr le.1 le.2 = .ok []
  optOut : continueOnErrorSites e.job = .ok []

theorem lane_passes {lane : Str} {e : Entry} {skip : Bool} {makefile : Except Exit (List Str)}
    (h : g.checks repr skip makefile = .ok []) (hlane : lane ∈ g.checked)
    (he : g.jobs.lookup (.str lane) = some e) : LanePasses repr g lane e := by
  have hlanes : each g.checked (g.checkLane repr) = .ok [] := all_passes.mp h _ (by simp)
  have hone := each_passes.mp hlanes lane hlane
  rw [Input.checkLane, he] at hone
  have hparts := all_passes.mp hone
  constructor
  · have htriggers := found_passes.mp (hparts _ List.mem_cons_self)
    simpa using htriggers
  · exact each_passes.mp (hparts _ (List.mem_cons_of_mem _ List.mem_cons_self))
  · have hsites : Input.checkOptOut lane e = .ok [] := hparts _ (by simp)
    obtain ⟨sites, hsites, h⟩ := bind_eq_ok.mp hsites
    have hnone := failIf_eq_nil.mp (Except.ok.inj h)
    rw [Bool.not_eq_false', List.isEmpty_iff] at hnone
    rw [hsites, hnone]

/-- What the checks of a job that a lane reaches say of it. -/
structure JobPasses (repr : Value → Str) (g : Input) (label : Str) (e : Entry) : Prop where
  anchor : checkAnchor g.pins.anchor e.doc e.job = .ok []
  pinned : checkPinnedMakeSteps g.pins g.envNames e.doc e.job = .ok []
  invocations :
    checkRequiredInvocations g.pins (jobDisplayName (.str (Input.labelKey label)) e.job).text e.job = .ok []
  surroundings : checkJobSurroundings g.pins.anchor e.doc e.job = .ok []
  provenance : checkProvenance repr e.job = .ok []

theorem job_passes {label : Str} {e : Entry} (h : g.checkJob repr label e = .ok []) : JobPasses repr g label e := by
  have hall := all_passes.mp (map_passes.mp h)
  simp only [List.forall_mem_cons] at hall
  exact ⟨hall.1, hall.2.1, hall.2.2.1, hall.2.2.2.1, hall.2.2.2.2.1⟩

theorem mem_expandNeeds_self (byKey : ByKey) (lane : Str) (e : Entry) : (lane, e) ∈ expandNeeds repr byKey lane e :=
  List.mem_cons_self

/-! ## Make steps -/

/-- The step is one that check 8b pins: it runs make and is not the anchor. -/
def MakeStep (anchor : Str) (step : Mapping) : Prop := stepRunsMake step = true ∧ stepIsTheAnchor anchor step = false

theorem makeStep_passes {pins : Pins} {envNames : List Str} {doc job : Mapping}
    (h : checkPinnedMakeSteps pins envNames doc job = .ok []) {steps : List Mapping} (hsteps : jobSteps job = .ok steps)
    {i : Nat} {step : Mapping} (hi : steps[i]? = some step) (hmake : MakeStep pins.anchor step) :
    makeStepProblems pins steps i step = [] := by
  have hmem : (step, i) ∈ steps.zipIdx.filter fun si => stepRunsMake si.1 && !stepIsTheAnchor pins.anchor si.1 := by
    rw [List.mem_filter]
    refine ⟨List.mem_zipIdx_iff_getElem?.mpr hi, ?_⟩
    simp [hmake.1, hmake.2]
  have hne := List.ne_nil_of_mem hmem
  rw [checkPinnedMakeSteps, hsteps] at h
  simp only [bind, Except.bind, List.isEmpty_iff, hne, if_false] at h
  have hall := found_passes.mp (all_passes.mp h _ List.mem_cons_self)
  have hone := List.flatMap_eq_nil_iff.mp hall (step, i) hmem
  exact hone

/-- What check 8b asks of a make step. -/
theorem makeStepProblems_eq_nil {pins : Pins} {steps : List Mapping} {i : Nat} {step : Mapping}
    (h : makeStepProblems pins steps i step = []) :
    trimOneNewline ((step.get (str "run")).asStr?.getD []) ∈ pins.makeSteps ∧ extraKeys step = [] ∧
      ∃ j a, i = j + 1 ∧ steps[j]? = some a ∧ stepIsTheAnchor pins.anchor a = true := by
  obtain ⟨hbodykeys, hbefore⟩ := List.append_eq_nil_iff.mp h
  obtain ⟨hbody, hkeys⟩ := List.append_eq_nil_iff.mp hbodykeys
  refine ⟨by simpa using hbody, by simpa using hkeys, ?_⟩
  cases i with
  | zero => cases hbefore
  | succ j =>
    rw [if_neg (Nat.succ_ne_zero j), Nat.add_sub_cancel] at hbefore
    cases hj : steps[j]? with
    | none =>
      rw [hj] at hbefore
      cases hbefore
    | some a =>
      by_cases hanchor : stepIsTheAnchor pins.anchor a = true
      · exact ⟨j, a, rfl, hj, hanchor⟩
      · rw [hj, Option.filter_some, if_neg hanchor] at hbefore
        cases hbefore

/-- The steps of a job that passes can be read. -/
theorem JobPasses.steps {label : Str} {e : Entry} (h : JobPasses repr g label e) :
    ∃ steps, jobSteps e.job = .ok steps := by
  obtain ⟨steps, hsteps, -⟩ := bind_eq_ok.mp h.anchor
  exact ⟨steps, hsteps⟩

/-! ## Opting out -/

/-- A character of a spelling of `continue-on-error`, and the one that it stands for. -/
def SameLetter (c d : Char) : Prop := c.toLower = d ∨ (c = '_' ∧ d = '-')

instance (c d : Char) : Decidable (SameLetter c d) := inferInstanceAs (Decidable (_ ∨ _))

/-- `continue-on-error` in some spelling: in either case, with `_` for `-`, with spaces around it. -/
def Spells (key : Atom) : Prop :=
  ∃ a word b, key.text = a ++ word ++ b ∧ (∀ c ∈ a, isSpace c = true) ∧ (∀ c ∈ b, isSpace c = true) ∧
    List.Forall₂ SameLetter word (str "continue-on-error")

theorem toLower_eq_underscore {c : Char} (h : c.toLower = '_') : c = '_' := by
  unfold Char.toLower at h
  split at h
  · rename_i hc
    exfalso
    have h1 : 65 ≤ c.toNat := UInt32.le_iff_toNat_le.mp hc.1
    have h2 : c.toNat ≤ 90 := UInt32.le_iff_toNat_le.mp hc.2
    have hval := congrArg (fun d : Char => d.val.toNat) h
    simp only [UInt32.toNat_add] at hval
    change (c.toNat + 32) % 4294967296 = 95 at hval
    omega
  · exact h

theorem toLower_of_isSpace {c : Char} (h : isSpace c = true) : c.toLower = c := by
  unfold Char.toLower
  split
  · rename_i hc
    exfalso
    have h1 : 65 ≤ c.val.toNat := UInt32.le_iff_toNat_le.mp hc.1
    have h2 : c.val.toNat ≤ 90 := UInt32.le_iff_toNat_le.mp hc.2
    simp only [isSpace, Bool.or_eq_true, Bool.and_eq_true, decide_eq_true_eq, beq_iff_eq, UInt32.le_iff_toNat_le,
      ← UInt32.toNat_inj, UInt32.reduceToNat] at h
    omega
  · rfl

theorem SameLetter.not_isSpace {c d : Char} (h : SameLetter c d) (hd : d = 'c' ∨ d = 'r') : isSpace c = false := by
  by_contra hspace
  rw [Bool.not_eq_false] at hspace
  have hcd : c = d := by
    rcases h with h | ⟨-, h⟩
    · rw [← h, toLower_of_isSpace hspace]
    · rcases hd with rfl | rfl <;> cases h
  rw [hcd] at hspace
  rcases hd with rfl | rfl <;> cases hspace

/-- One character of what `isContinueOnError` compares. -/
theorem normal_iff {c d : Char} (hd : d ∈ str "continue-on-error") :
    (if lowerChar c = '_' then '-' else lowerChar c) = d ↔ SameLetter c d := by
  by_cases hkelvin : c.val = 0x212A
  · have hc : c = Char.ofNat 0x212A := Char.ext hkelvin
    subst hc
    have hall : ∀ d ∈ str "continue-on-error",
        (if lowerChar (Char.ofNat 0x212A) = '_' then '-' else lowerChar (Char.ofNat 0x212A)) = d ↔
          SameLetter (Char.ofNat 0x212A) d := List.all_iff_forall_prop.mp (by decide)
    exact hall d hd
  · have hlower : lowerChar c = c.toLower := if_neg (by simpa using hkelvin)
    rw [hlower]
    by_cases hc : c = '_'
    · subst hc
      have hall : ∀ d ∈ str "continue-on-error",
          (if '_'.toLower = '_' then '-' else '_'.toLower) = d ↔ SameLetter '_' d :=
        List.all_iff_forall_prop.mp (by decide)
      exact hall d hd
    · rw [if_neg fun h => hc (toLower_eq_underscore h)]
      constructor
      · exact Or.inl
      · rintro (h | ⟨h, -⟩)
        · exact h
        · exact absurd h hc

theorem map_eq_iff_forall₂ {f : Char → Char} {S : Char → Char → Prop} {target : List Char}
    (h : ∀ c, ∀ d ∈ target, f c = d ↔ S c d) {word : List Char} :
    word.map f = target ↔ List.Forall₂ S word target := by
  induction target generalizing word with
  | nil => rw [List.map_eq_nil_iff, List.forall₂_nil_right_iff]
  | cons d target ih =>
    rw [List.map_eq_cons_iff, List.forall₂_cons_right_iff]
    constructor
    · rintro ⟨c, word', rfl, hc, hrest⟩
      exact ⟨c, word', (h c d List.mem_cons_self).mp hc,
        (ih fun c d hd => h c d (List.mem_cons_of_mem _ hd)).mp hrest, rfl⟩
    · rintro ⟨c, word', hc, hrest, rfl⟩
      exact ⟨c, word', rfl, (h c d List.mem_cons_self).mpr hc,
        (ih fun c d hd => h c d (List.mem_cons_of_mem _ hd)).mpr hrest⟩

/-- The check for the key sees every spelling. -/
theorem isContinueOnError_iff {key : Atom} : isContinueOnError key = true ↔ Spells key := by
  have hnormal : ∀ word : Str, replaceChar '_' '-' (lower word) = str "continue-on-error" ↔
      List.Forall₂ SameLetter word (str "continue-on-error") := by
    intro word
    rw [replaceChar, lower, List.map_map]
    exact map_eq_iff_forall₂ fun c d hd => normal_iff hd
  rw [isContinueOnError, beq_iff_eq, hnormal]
  constructor
  · intro h
    obtain ⟨a, b, htext, ha, hb⟩ := exists_strip key.text
    exact ⟨a, _, b, htext, ha, hb, h⟩
  · rintro ⟨a, word, b, htext, ha, hb, hword⟩
    -- the letters at both ends are not spaces, so `strip()` leaves the word
    have hhead : ∃ c w, word = c :: w ∧ SameLetter c 'c' := by
      obtain ⟨c, w, hc, -, rfl⟩ := List.forall₂_cons_right_iff.mp hword
      exact ⟨c, w, rfl, hc⟩
    have hlast : ∃ c w, word.reverse = c :: w ∧ SameLetter c 'r' := by
      have hrev := List.forall₂_reverse_iff.mpr hword
      obtain ⟨c, w, hc, -, hw⟩ := List.forall₂_cons_right_iff.mp hrev
      exact ⟨c, w, hw, hc⟩
    obtain ⟨c, w, rfl, hc⟩ := hhead
    obtain ⟨d, w', hd', hd⟩ := hlast
    have hstrip : strip key.text = c :: w := by
      rw [htext]
      refine strip_append ha hb ?_ ?_ (List.cons_ne_nil _ _)
      · intro x hx
        rw [List.head?_cons, Option.mem_some_iff] at hx
        rw [← hx]
        exact hc.not_isSpace (Or.inl rfl)
      · intro x hx
        rw [List.getLast?_eq_head?_reverse, hd', List.head?_cons, Option.mem_some_iff] at hx
        rw [← hx]
        exact hd.not_isSpace (Or.inr rfl)
    rwa [hstrip]

/-- Neither the job nor one of its steps carries the key. -/
structure NoOptOut (job : Mapping) : Prop where
  keys : ∀ kv ∈ job, ¬ Spells kv.1
  steps : ∀ steps, jobSteps job = .ok steps → ∀ s ∈ steps, ∀ kv ∈ s, ¬ Spells kv.1

theorem noOptOut_of_sites {job : Mapping} (h : continueOnErrorSites job = .ok []) : NoOptOut job := by
  obtain ⟨items, hitems, hsites⟩ := bind_eq_ok.mp h
  obtain ⟨hjob, hsteps⟩ := List.append_eq_nil_iff.mp (Except.ok.inj hsites)
  constructor
  · intro kv hkv hspells
    have hmem : kv ∈ job.filter fun kv => isContinueOnError kv.1 :=
      List.mem_filter.mpr ⟨hkv, isContinueOnError_iff.mpr hspells⟩
    rw [List.map_eq_nil_iff.mp hjob] at hmem
    cases hmem
  · intro steps hread s hs kv hkv hspells
    rw [jobSteps, hitems] at hread
    cases hread
    obtain ⟨item, hitem, hdict⟩ := List.mem_filterMap.mp hs
    obtain ⟨i, hi⟩ := List.getElem?_of_mem hitem
    have hone := List.flatMap_eq_nil_iff.mp hsteps (item, i) (List.mem_zipIdx_iff_getElem?.mpr hi)
    simp only [hdict] at hone
    have hmem : kv ∈ s.filter fun kv => isContinueOnError kv.1 :=
      List.mem_filter.mpr ⟨hkv, isContinueOnError_iff.mpr hspells⟩
    rw [List.map_eq_nil_iff.mp hone] at hmem
    cases hmem

/-- A step that carries only the keys that are allowed does not opt out. -/
theorem not_spells_of_extraKeys {step : Mapping} (h : extraKeys step = []) : ∀ kv ∈ step, ¬ Spells kv.1 := by
  intro kv hkv hspells
  have hallowed : kv.1.text ∈ stepKeysAllowed := by
    have hnot := List.filter_eq_nil_iff.mp h kv.1 (List.mem_map_of_mem hkv)
    simpa using hnot
  have hcheck := isContinueOnError_iff.mpr hspells
  have hnone : ∀ text ∈ stepKeysAllowed, (replaceChar '_' '-' (lower (strip text)) == str "continue-on-error") = false := by
    decide
  rw [isContinueOnError, hnone _ hallowed] at hcheck
  cases hcheck

/-! ## Small trees -/

/-- The documents below hold no list or mapping that is printed. -/
def sampleRepr (_ : Value) : Str := []

def yamlText (s : String) : Value := .ofStr (str s)

def yamlKey (s : String) (v : Value) : Atom × Value := (.str (str s), v)

def runStep (body : String) : Value := .dict [yamlKey "run" (yamlText body)]

/-- A job on the runner that is asked for. -/
def hostedJob (more : Mapping) : Value := .dict (yamlKey "runs-on" (yamlText "ubuntu-24.04") :: more)

/-- Pins of one make step and of the two suites. -/
def samplePins : Value := .dict [
  yamlKey "make_steps" (.list [yamlText "make ci"]),
  yamlKey "direct_test_steps" (.list [yamlText "go test ./...", yamlText "go test -tags=integration ./..."]),
  yamlKey "anchor_step" (yamlText "./guard"),
  yamlKey "required_invocations" (.dict [yamlKey "ci" (.list [])])]

/-- The lanes of the floor, where `build-test` runs the suites. -/
def floorJobs (cacheMatrix : Mapping) : Mapping := [
  yamlKey "append-only" (hostedJob []),
  yamlKey "build-test" (hostedJob [yamlKey "steps"
    (.list [runStep "go test ./...", runStep "go test -tags=integration ./..."])]),
  yamlKey "cache-matrix" (hostedJob cacheMatrix),
  yamlKey "fixtures" (hostedJob []),
  yamlKey "govulncheck" (hostedJob []),
  yamlKey "docker-build" (hostedJob [])]

def sampleWorkflow (name : String) (on : String) (jobs : Mapping) : File :=
  ⟨str name, .value (.dict [yamlKey "on" (yamlText on), yamlKey "jobs" (.dict jobs)])⟩

def sampleManifest : Str := str "append-only\nbuild-test\ncache-matrix\nfixtures\ngovulncheck\ndocker-build\n"

def sampleTree (workflows : List File) : Tree where
  manifest := .text sampleManifest
  makefile := none
  pins := some (.value samplePins)
  workflows := workflows
  skipMakefile := true
  makefileChecks := pure []

end Vizra.CiGuard
