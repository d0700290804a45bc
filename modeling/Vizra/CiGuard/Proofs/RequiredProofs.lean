import Vizra.CiGuard.Proofs.ClosureProofs

/-!
# Which required invocations the guard has seen

Check 8c is made of each job that the walk over the checked lanes visits, under the name that is read off the label of
the job. An entry of `required_invocations` whose name no visited job has is never looked at.
-/

namespace Vizra.CiGuard

open Py Report Relation

variable {repr : Value → Str} {t : Tree} {g : Input}

/-- The walk over the checked lanes visits a job of this name. -/
def Input.Visits (repr : Value → Str) (g : Input) (name : Str) (e : Entry) : Prop :=
  ∃ lane ∈ g.checked, ∃ named, g.jobs.lookup (.str lane) = some named ∧
    (name = lane ∧ e = named ∨
      ∃ q ∈ needsOf repr named.job, ∃ key,
        ReflTransGen (fun a b => b ∈ needsOfKey repr g.byKey named.path a) q key ∧
          g.byKey.find named.path key = some e ∧ name = (jobDisplayName (.str key) e.job).text)

/-- The job has a step with each body, but for one newline at its end. -/
def Runs (job : Mapping) (bodies : List Str) : Prop :=
  ∃ steps, jobSteps job = .ok steps ∧ ∀ body ∈ bodies, ∃ s ∈ steps, runBody s = .ok body

/-- Every required invocation is run by a visited job of its name. -/
def RequiredRun (repr : Value → Str) (t : Tree) : Prop :=
  ∀ g, t.Reads g → ∀ name bodies, g.pins.requiredInv.lookup name = some bodies →
    ∃ e, g.Visits repr name e ∧ Runs e.job bodies

/-- The job carries a `name`. -/
def Entry.named (e : Entry) : Bool := (e.job.get (str "name")).asStr?.isSome

/-- Every name in `required_invocations` is the name of a visited job. If that is its key and has a colon, then it
runs the bodies. -/
def RequiredVisited (repr : Value → Str) (t : Tree) : Prop :=
  ∀ g, t.Reads g → ∀ name bodies, g.pins.requiredInv.lookup name = some bodies →
    ∃ e, g.Visits repr name e ∧ (e.named = true ∨ ':' ∉ name ∨ Runs e.job bodies)

/-! ## The name of a label -/

theorem labelKey_eq_self {s : Str} (h : ':' ∉ s) : Input.labelKey s = s := by
  rw [Input.labelKey, List.splitOn_eq_singleton h]
  rfl

theorem labelKey_append (pre key : Str) : Input.labelKey (pre ++ ':' :: key) = Input.labelKey key := by
  rw [Input.labelKey, Input.labelKey, List.splitOn_append_cons_self, List.getLast?_append_of_ne_nil]
  exact List.splitOn_ne_nil _ _

theorem labelKey_needs (lane key : Str) : Input.labelKey (lane ++ str " -> needs:" ++ key) = Input.labelKey key := by
  have hsplit : lane ++ str " -> needs:" ++ key = (lane ++ str " -> needs") ++ ':' :: key := by
    rw [List.append_assoc, List.append_assoc]
    rfl
  rw [hsplit, labelKey_append]

theorem jobDisplayName_named {e : Entry} (h : e.named = true) (key key' : Atom) :
    jobDisplayName key e.job = jobDisplayName key' e.job := by
  obtain ⟨name, hname⟩ := Option.isSome_iff_exists.mp h
  rw [jobDisplayName, jobDisplayName, hname]

theorem jobDisplayName_unnamed {e : Entry} (h : ¬ e.named = true) (key : Atom) : jobDisplayName key e.job = key := by
  have hnone := Option.not_isSome_iff_eq_none.mp h
  rw [jobDisplayName, hnone]

/-- The name that is read off a label is the job's, unless that is its key and has a colon. -/
theorem jobDisplayName_label {e : Entry} {label key name : Str} (hlabel : Input.labelKey label = Input.labelKey key)
    (hname : name = (jobDisplayName (.str key) e.job).text) (h : e.named = true ∨ ':' ∉ name) :
    (jobDisplayName (.str (Input.labelKey label)) e.job).text = name := by
  by_cases hnamed : e.named = true
  · rw [hname, jobDisplayName_named hnamed]
  · have hcolon := h.resolve_left hnamed
    rw [jobDisplayName_unnamed hnamed] at hname
    have hkey : name = key := hname
    subst hkey
    rw [jobDisplayName_unnamed hnamed, hlabel, labelKey_eq_self hcolon]
    rfl

/-- The job that is kept under a name has it. -/
theorem jobDisplayName_of_lookup {listed : List (Atom × Entry)} {name : Atom} {e : Entry}
    (h : (indexByName listed).lookup name = some e) : ∃ key, jobDisplayName key e.job = name := by
  induction listed using List.reverseRecOn with
  | nil => cases h
  | append_singleton listed ke ih =>
    rw [indexByName, List.foldl_append] at h
    by_cases hname : name = jobDisplayName ke.1 ke.2.job
    · subst hname
      have hself : (indexByName (listed ++ [ke])).lookup (jobDisplayName ke.1 ke.2.job) = some ke.2 := by
        rw [indexByName, List.foldl_append]
        exact AList.lookup_insert _
      rw [indexByName, List.foldl_append] at hself
      rw [hself] at h
      cases h
      exact ⟨ke.1, rfl⟩
    · exact ih ((AList.lookup_insert_ne hname).symm.trans h)

/-- The guard comes past each visited job, with a label that gives its name. -/
theorem Input.Visits.label {name : Str} {e : Entry} (h : g.Visits repr name e) (hname : e.named = true ∨ ':' ∉ name) :
    ∃ lane ∈ g.checked, ∃ named, g.jobs.lookup (.str lane) = some named ∧
      ∃ label, (label, e) ∈ expandNeeds repr g.byKey lane named ∧
        (jobDisplayName (.str (Input.labelKey label)) e.job).text = name := by
  obtain ⟨lane, hlane, named, hnamed, hcase⟩ := h
  refine ⟨lane, hlane, named, hnamed, ?_⟩
  rcases hcase with ⟨rfl, rfl⟩ | ⟨q, hq, key, hreach, hfind, hdisplay⟩
  · refine ⟨name, mem_expandNeeds_self g.byKey name e, ?_⟩
    obtain ⟨key, hkey⟩ := jobDisplayName_of_lookup hnamed
    refine jobDisplayName_label rfl ?_ hname
    by_cases hn : e.named = true
    · rw [jobDisplayName_named hn (.str name) key, hkey]
      rfl
    · rw [jobDisplayName_unnamed hn]
      rfl
  · have hnodes : ∀ k, k ∉ g.byKey.keys named.path → needsOfKey repr g.byKey named.path k = [] :=
      fun k => needsOfKey_eq_nil
    refine ⟨lane ++ str " -> needs:" ++ key, ?_, jobDisplayName_label (labelKey_needs lane key) hdisplay hname⟩
    refine List.mem_cons_of_mem _ (List.mem_filterMap.mpr ⟨key, (Worklist.mem_reach_iff hnodes).mpr ⟨q, hq, hreach⟩, ?_⟩)
    rw [hfind]
    rfl

/-! ## What check 8c says -/

theorem runs_of_check {pins : Pins} {name : Str} {job : Mapping} {bodies : List Str} {steps : List Mapping}
    (h : checkRequiredInvocations pins name job = .ok []) (hbodies : pins.requiredInv.lookup name = some bodies)
    (hsteps : jobSteps job = .ok steps) : Runs job bodies := by
  refine ⟨steps, hsteps, fun body hbody => ?_⟩
  have hne : bodies ≠ [] := List.ne_nil_of_mem hbody
  rw [checkRequiredInvocations, hbodies] at h
  simp only [Option.getD_some, List.isEmpty_iff, hne, if_false] at h
  obtain ⟨steps', hsteps', hbodies'⟩ := bind_eq_ok.mp h
  rw [hsteps] at hsteps'
  cases hsteps'
  obtain ⟨runs, hruns, hmissing⟩ := bind_eq_ok.mp hbodies'
  have hnone := failIf_eq_nil.mp (Except.ok.inj hmissing)
  rw [Bool.not_eq_false', List.isEmpty_iff, List.filter_eq_nil_iff] at hnone
  have hmem : body ∈ runs := by
    by_contra hnot
    exact hnone body hbody (decide_eq_true hnot)
  obtain ⟨s, hs, hrun⟩ := forall₂_exists_right (mapM_eq_ok.mp hruns) hmem
  exact ⟨s, hs, hrun⟩

/-- A run that returns 0 has seen every required invocation exactly if each entry has the name of a visited job. -/
theorem required_run_iff (h : main repr t = .ok 0) : RequiredRun repr t ↔ RequiredVisited repr t := by
  constructor
  · intro hrun g hg name bodies hbodies
    obtain ⟨e, hvisits, hruns⟩ := hrun g hg name bodies hbodies
    exact ⟨e, hvisits, Or.inr (Or.inr hruns)⟩
  · intro hvisited g hg name bodies hbodies
    obtain ⟨e, hvisits, hcase⟩ := hvisited g hg name bodies hbodies
    refine ⟨e, hvisits, ?_⟩
    rw [← or_assoc] at hcase
    rcases hcase with hname | hruns
    · obtain ⟨lane, hlane, named, hnamed, label, hlabel, hdisplay⟩ := hvisits.label hname
      have hlanes := lane_passes (checks_of_main h hg) hlane hnamed
      have hjob := job_passes (hlanes.jobs _ hlabel)
      have hcheck := hjob.invocations
      rw [hdisplay] at hcheck
      obtain ⟨steps, hsteps⟩ := hjob.steps
      exact runs_of_check hcheck hbodies hsteps
    · exact hruns

/-- Pins that require an invocation of the job `leg`. -/
def legPins : Value := .dict [
  yamlKey "make_steps" (.list [yamlText "make ci"]),
  yamlKey "direct_test_steps" (.list [yamlText "go test ./...", yamlText "go test -tags=integration ./..."]),
  yamlKey "anchor_step" (yamlText "./guard"),
  yamlKey "required_invocations" (.dict [yamlKey "leg" (.list [yamlText "make ci"])])]

/-- A tree in which `cache-matrix` has `needs`, and a job stands under `key`. -/
def legTree (needs : Mapping) (key : String) (steps : List Value) : Tree :=
  { sampleTree [sampleWorkflow "ci.yml" "pull_request"
      (floorJobs needs ++ [yamlKey key (hostedJob [yamlKey "steps" (.list steps)])])] with
    pins := some (.value legPins) }

def gateSteps : List Value := [runStep "./guard", runStep "make ci"]

/-- What evaluation tells of the input. -/
theorem Tree.Reads.any (hg : t.Reads g) {s : Str} (hs : t.manifest = .text s) {p : Input → Bool}
    (h : (t.read (readManifest s)).toOption.any p = true) : p g = true := by
  obtain ⟨s', hs', hread⟩ := hg
  rw [hs] at hs'
  cases hs'
  rw [hread] at h
  exact h

/-- Only `leg` is required, and it is the name of a job that `cache-matrix` needs. -/
def legVisited (g : Input) : Bool :=
  (g.pins.requiredInv.entries.all fun kb => kb.1 == str "leg") && g.checked.contains (str "cache-matrix") &&
    (g.jobs.lookup (.str (str "cache-matrix"))).any fun e =>
      (needsOf sampleRepr e.job).contains (str "leg") && (g.byKey.find e.path (str "leg")).any fun leg =>
        (jobDisplayName (.str (str "leg")) leg.job).text == str "leg"

theorem required_run_iff_leg : RequiredRun sampleRepr (legTree [yamlKey "needs" (yamlText "leg")] "leg" gateSteps) := by
  have hmain : main sampleRepr (legTree [yamlKey "needs" (yamlText "leg")] "leg" gateSteps) = .ok 0 := by decide +kernel
  refine (required_run_iff hmain).mpr fun g hg name bodies hbodies => ?_
  have hread : ((legTree [yamlKey "needs" (yamlText "leg")] "leg" gateSteps).read
      (readManifest sampleManifest)).toOption.any legVisited = true := by decide +kernel
  have hvisited := hg.any rfl hread
  simp only [legVisited, Bool.and_eq_true, List.all_eq_true, List.contains_iff_mem, Option.any_eq_true, beq_iff_eq] at hvisited
  obtain ⟨⟨hrequired, hlane⟩, named, hnamed, hneeds, leg, hleg, hdisplay⟩ := hvisited
  have hname : name = str "leg" := hrequired _ (AList.mem_lookup_iff.mp hbodies)
  subst hname
  exact ⟨leg, ⟨_, hlane, named, hnamed, Or.inr ⟨_, hneeds, _, .refl, hleg, hdisplay.symm⟩⟩, Or.inr (Or.inl (by decide))⟩

/-- `leg` is required, and the walk visits no job of that name. -/
def legMissed (g : Input) : Bool :=
  (g.pins.requiredInv.lookup (str "leg")).isSome && g.checked.all fun lane =>
    (g.jobs.lookup (.str lane)).all fun named => (expandNeeds sampleRepr g.byKey lane named).all fun le =>
      (jobDisplayName (.str (Input.labelKey le.1)) le.2.job).text != str "leg"

theorem not_requiredRun_of_missed {s : Str} (hs : t.manifest = .text s)
    (h : (t.read (readManifest s)).toOption.any legMissed = true) : ¬ RequiredRun sampleRepr t := by
  intro hrun
  obtain ⟨g, hg, hmissed⟩ := reads_of_any hs h
  rw [legMissed, Bool.and_eq_true, Option.isSome_iff_exists, List.all_eq_true] at hmissed
  obtain ⟨⟨bodies, hbodies⟩, hlanes⟩ := hmissed
  obtain ⟨e, hvisits, -⟩ := hrun g hg _ bodies hbodies
  obtain ⟨lane, hlane, named, hnamed, label, hlabel, hdisplay⟩ := hvisits.label (Or.inr (by decide))
  have hnone := hlanes lane hlane
  rw [hnamed, Option.all_some, List.all_eq_true] at hnone
  have hne := hnone _ hlabel
  rw [hdisplay] at hne
  cases hne

/-- Without the edge to `leg`, or with another name for it, the guard returns 0 and `make ci` is run by no job. -/
theorem required_not_run :
    main sampleRepr (legTree [] "leg" []) = .ok 0 ∧ ¬ RequiredRun sampleRepr (legTree [] "leg" []) ∧
      main sampleRepr (legTree [yamlKey "needs" (yamlText "leg2")] "leg2" []) = .ok 0 ∧
      ¬ RequiredRun sampleRepr (legTree [yamlKey "needs" (yamlText "leg2")] "leg2" []) := by
  refine ⟨by decide +kernel, not_requiredRun_of_missed rfl (by decide +kernel), by decide +kernel,
    not_requiredRun_of_missed rfl (by decide +kernel)⟩

end Vizra.CiGuard
