import Vizra.CiGuard.Proofs.MainProofs

/-!
# Jobs of one name

`main` keeps one job for each display name, the last one in the order of the files. A job before it of the same
name is in no check of a lane.
-/

namespace Vizra.CiGuard

open Py Report

variable {repr : Value → Str} {t : Tree} {g : Input}

/-- The job stands in a workflow file, under a key. -/
def Input.Job (g : Input) (key : Atom) (e : Entry) : Prop :=
  (e.path, e.doc) ∈ g.workflows ∧
    ∃ items, orDict (e.doc.get (str "jobs")) = .ok items ∧ (key, .dict e.job) ∈ items

theorem workflowJobs_ok {path : Str} {doc : Mapping} {jobs : List (Atom × Entry)}
    (h : workflowJobs path doc = .ok jobs) {key : Atom} {e : Entry} :
    (key, e) ∈ jobs ↔ e.path = path ∧ e.doc = doc ∧
      ∃ items, orDict (doc.get (str "jobs")) = .ok items ∧ (key, .dict e.job) ∈ items := by
  obtain ⟨items, hitems, hjobs⟩ := bind_eq_ok.mp h
  cases hjobs
  rw [List.mem_filterMap]
  constructor
  · rintro ⟨kv, hkv, hjob⟩
    obtain ⟨job, hdict, heq⟩ := Option.map_eq_some_iff.mp hjob
    obtain ⟨rfl, rfl⟩ := Prod.mk.inj heq
    refine ⟨rfl, rfl, items, hitems, ?_⟩
    obtain ⟨k, v⟩ := kv
    cases v with
    | dict m =>
      cases hdict
      exact hkv
    | atom a => cases hdict
    | list l => cases hdict
    | elements l => cases hdict
  · rintro ⟨rfl, rfl, items', hitems', hmem⟩
    rw [hitems] at hitems'
    cases hitems'
    exact ⟨_, hmem, rfl⟩

/-- The index lists the jobs of the files. -/
theorem mem_listed (hg : t.Reads g) {key : Atom} {e : Entry} : (key, e) ∈ g.byKey.listed ↔ g.Job key e := by
  obtain ⟨s, -, hread⟩ := hg
  obtain ⟨pins, -, hread⟩ := bind_eq_ok.mp hread
  obtain ⟨workflows, -, hread⟩ := bind_eq_ok.mp hread
  obtain ⟨byKey, hbyKey, hread⟩ := bind_eq_ok.mp hread
  cases hread
  have hall := mapM_eq_ok.mp hbyKey
  rw [ByKey.listed, List.mem_flatMap]
  constructor
  · rintro ⟨b, hb, hmem⟩
    obtain ⟨w, hw, hentry⟩ := forall₂_exists_right hall hb
    obtain ⟨jobs, hjobs, heq⟩ := bind_eq_ok.mp hentry
    cases heq
    obtain ⟨hpath, hdoc, hitems⟩ := (workflowJobs_ok hjobs).mp hmem
    rw [← hdoc] at hitems
    refine ⟨?_, hitems⟩
    rw [hpath, hdoc]
    exact hw
  · rintro ⟨hw, hitems⟩
    obtain ⟨b, hb, hentry⟩ := forall₂_exists_left hall hw
    obtain ⟨jobs, hjobs, heq⟩ := bind_eq_ok.mp hentry
    cases heq
    exact ⟨_, hb, (workflowJobs_ok hjobs).mpr ⟨rfl, rfl, hitems⟩⟩

/-- A job that no later one overwrites is the one of its name. -/
theorem lookup_indexByName {before after : List (Atom × Entry)} {key : Atom} {e : Entry}
    (h : ∀ ke ∈ after, jobDisplayName ke.1 ke.2.job ≠ jobDisplayName key e.job) :
    (indexByName (before ++ (key, e) :: after)).lookup (jobDisplayName key e.job) = some e := by
  induction after using List.reverseRecOn with
  | nil =>
    rw [indexByName, List.foldl_append]
    exact AList.lookup_insert _
  | append_singleton after ke ih =>
    have hne := h ke (List.mem_append_right _ List.mem_cons_self)
    have hrest := ih fun ke' hke' => h ke' (List.mem_append_left _ hke')
    rw [indexByName, ← List.cons_append, ← List.append_assoc, List.foldl_append]
    rw [indexByName] at hrest
    exact (AList.lookup_insert_ne hne.symm).trans hrest

/-! ## The rules for a job of a checked lane -/

/-- The job runs on pull requests, does not opt out of failing, and each of its make steps is a pinned one right
behind the anchor. -/
structure Gated (repr : Value → Str) (pins : Pins) (e : Entry) : Prop where
  triggered : str "pull_request" ∈ triggers repr e.doc
  optOut : NoOptOut e.job
  pinned : ∀ steps, jobSteps e.job = .ok steps → ∀ i step, steps[i]? = some step → MakeStep pins.anchor step →
    trimOneNewline ((step.get (str "run")).asStr?.getD []) ∈ pins.makeSteps ∧
      ∃ j a, i = j + 1 ∧ steps[j]? = some a ∧ stepIsTheAnchor pins.anchor a = true

theorem LanePasses.gated {lane : Str} {e : Entry} (h : LanePasses repr g lane e) : Gated repr g.pins e := by
  have hjob := job_passes (h.jobs _ (mem_expandNeeds_self g.byKey lane e))
  refine ⟨h.triggered, noOptOut_of_sites h.optOut, fun steps hsteps i step hi hmake => ?_⟩
  have hstep := makeStepProblems_eq_nil (makeStep_passes hjob.pinned hsteps hi hmake)
  exact ⟨hstep.1, hstep.2.2⟩

/-- Every job of every workflow file that has the name of a checked lane follows the rules. -/
def EveryJobGated (repr : Value → Str) (t : Tree) : Prop :=
  ∀ g, t.Reads g → ∀ key e, g.Job key e → ∀ lane ∈ g.checked, jobDisplayName key e.job = .str lane →
    Gated repr g.pins e

/-- A job with the name of a checked lane follows the rules if a later job, in the order of the files, has the same
name. -/
def ShadowedJobsGated (repr : Value → Str) (t : Tree) : Prop :=
  ∀ g, t.Reads g → ∀ before key e after, g.byKey.listed = before ++ (key, e) :: after →
    ∀ lane ∈ g.checked, jobDisplayName key e.job = .str lane →
      (∃ ke ∈ after, jobDisplayName ke.1 ke.2.job = .str lane) → Gated repr g.pins e

theorem every_job_gated_iff (h : main repr t = .ok 0) : EveryJobGated repr t ↔ ShadowedJobsGated repr t := by
  constructor
  · intro hall g hg before key e after hlisted lane hlane hname _
    have hmem : (key, e) ∈ g.byKey.listed := by
      rw [hlisted]
      exact List.mem_append_right _ List.mem_cons_self
    exact hall g hg key e ((mem_listed hg).mp hmem) lane hlane hname
  · intro hshadowed g hg key e hjob lane hlane hname
    obtain ⟨before, after, hlisted⟩ := List.append_of_mem ((mem_listed hg).mpr hjob)
    by_cases hlater : ∃ ke ∈ after, jobDisplayName ke.1 ke.2.job = .str lane
    · exact hshadowed g hg before key e after hlisted lane hlane hname hlater
    · have hlast : g.jobs.lookup (.str lane) = some e := by
        rw [Input.jobs, hlisted, ← hname]
        refine lookup_indexByName fun ke hke heq => hlater ⟨ke, hke, ?_⟩
        rw [heq, hname]
      exact (lane_passes (checks_of_main h hg) hlane hlast).gated

/-- A job named `build-test` that never runs on a pull request, before the one that does. -/
def shadowTree : Tree := sampleTree [
  sampleWorkflow "a.yml" "push" [yamlKey "old" (hostedJob [yamlKey "name" (yamlText "build-test")])],
  sampleWorkflow "ci.yml" "pull_request" (floorJobs [])]

theorem main_shadowTree : main sampleRepr shadowTree = .ok 0 := by
  decide +kernel

/-- A job that is named `build-test` does not run on pull requests. -/
def buildTestHidden (g : Input) : Bool :=
  g.checked.contains (str "build-test") && g.byKey.listed.any fun ke =>
    jobDisplayName ke.1 ke.2.job == .str (str "build-test") &&
      !(triggers sampleRepr ke.2.doc).contains (str "pull_request")

theorem shadowed_job_not_gated :
    main sampleRepr shadowTree = .ok 0 ∧ ¬ EveryJobGated sampleRepr shadowTree := by
  refine ⟨main_shadowTree, fun hall => ?_⟩
  have hhidden : (shadowTree.read (readManifest sampleManifest)).toOption.any buildTestHidden = true := by
    decide +kernel
  obtain ⟨g, hreads, hg⟩ := reads_of_any rfl hhidden
  rw [buildTestHidden, Bool.and_eq_true, List.contains_iff_mem] at hg
  obtain ⟨ke, hke, hjob⟩ := List.any_eq_true.mp hg.2
  rw [Bool.and_eq_true, beq_iff_eq] at hjob
  have htriggered := (hall g hreads ke.1 ke.2 ((mem_listed hreads).mp hke) _ hg.1 hjob.1).triggered
  rw [List.contains_iff_mem.mpr htriggered] at hjob
  cases hjob.2

theorem every_job_gated_iff_shadowTree :
    main sampleRepr shadowTree = .ok 0 ∧
      (EveryJobGated sampleRepr shadowTree ↔ ShadowedJobsGated sampleRepr shadowTree) :=
  ⟨main_shadowTree, every_job_gated_iff main_shadowTree⟩

end Vizra.CiGuard
