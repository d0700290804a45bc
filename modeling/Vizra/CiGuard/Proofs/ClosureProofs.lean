import Vizra.CiGuard.Proofs.MainProofs

/-!
# Which jobs the guard keeps from opting out

`expand_needs` finds the jobs that a lane reaches through `needs`, but only the job that has the lane's name is
searched for `continue-on-error`.
-/

namespace Vizra.CiGuard

open Py Report Relation

variable {repr : Value → Str}

/-- The job needs another one of its workflow. -/
def Needs (repr : Value → Str) (byKey : ByKey) (path : Str) (e e' : Entry) : Prop :=
  ∃ key ∈ needsOf repr e.job, byKey.find path key = some e'

theorem needsOfKey_eq_nil {byKey : ByKey} {path key : Str} (h : key ∉ byKey.keys path) :
    needsOfKey repr byKey path key = [] := by
  rw [needsOfKey]
  cases hfind : byKey.find path key with
  | none => rfl
  | some e =>
    exfalso
    apply h
    rw [ByKey.find, List.lookup_eq_some_iff] at hfind
    obtain ⟨before, after, heq, -⟩ := hfind
    rw [ByKey.keys, List.mem_filterMap]
    exact ⟨(.str key, e), by rw [heq]; exact List.mem_append_right _ List.mem_cons_self, rfl⟩

/-- A key that the loop reaches, from the needs of a job. -/
theorem transGen_of_reaches {byKey : ByKey} {path q key : Str}
    (h : ReflTransGen (fun a b => b ∈ needsOfKey repr byKey path a) q key) {e leg : Entry}
    (hq : q ∈ needsOf repr e.job) (hleg : byKey.find path key = some leg) :
    TransGen (Needs repr byKey path) e leg := by
  induction h using ReflTransGen.head_induction_on generalizing e with
  | refl => exact .single ⟨_, hq, hleg⟩
  | @head a b hstep _ ih =>
    rw [needsOfKey] at hstep
    cases hfind : byKey.find path a with
    | none =>
      rw [hfind] at hstep
      cases hstep
    | some e' =>
      rw [hfind] at hstep
      exact .head ⟨a, hq, hfind⟩ (ih hstep)

theorem reaches_of_transGen {byKey : ByKey} {path : Str} {e leg : Entry}
    (h : TransGen (Needs repr byKey path) e leg) :
    ∃ q ∈ needsOf repr e.job, ∃ key, ReflTransGen (fun a b => b ∈ needsOfKey repr byKey path a) q key ∧
      byKey.find path key = some leg := by
  induction h using TransGen.head_induction_on with
  | single hneeds =>
    obtain ⟨key, hkey, hfind⟩ := hneeds
    exact ⟨key, hkey, key, .refl, hfind⟩
  | head hneeds _ ih =>
    obtain ⟨a, ha, hfind⟩ := hneeds
    obtain ⟨q, hq, key, hreach, hleg⟩ := ih
    refine ⟨a, ha, key, .head ?_ hreach, hleg⟩
    rw [needsOfKey, hfind]
    exact hq

/-- `expand_needs` finds the named job and what it needs, one job after the other and around any cycle. -/
theorem mem_expandNeeds {byKey : ByKey} {lane : Str} {e e' : Entry} :
    (∃ label, (label, e') ∈ expandNeeds repr byKey lane e) ↔
      e' = e ∨ TransGen (Needs repr byKey e.path) e e' := by
  have hnodes : ∀ k, k ∉ byKey.keys e.path → needsOfKey repr byKey e.path k = [] := fun k => needsOfKey_eq_nil
  constructor
  · rintro ⟨label, h⟩
    rcases List.mem_cons.mp h with h | h
    · exact Or.inl (Prod.mk.inj h).2
    · obtain ⟨key, hkey, hentry⟩ := List.mem_filterMap.mp h
      obtain ⟨e'', hfind, heq⟩ := Option.map_eq_some_iff.mp hentry
      obtain ⟨-, rfl⟩ := Prod.mk.inj heq
      obtain ⟨q, hq, hreach⟩ := (Worklist.mem_reach_iff hnodes).mp hkey
      exact Or.inr (transGen_of_reaches hreach hq hfind)
  · rintro (rfl | h)
    · exact ⟨lane, List.mem_cons_self⟩
    · obtain ⟨q, hq, key, hreach, hfind⟩ := reaches_of_transGen h
      refine ⟨lane ++ str " -> needs:" ++ key, List.mem_cons_of_mem _ (List.mem_filterMap.mpr ⟨key, ?_, ?_⟩)⟩
      · exact (Worklist.mem_reach_iff hnodes).mpr ⟨q, hq, hreach⟩
      · rw [hfind]
        rfl

/-! ## The closure of a lane -/

/-- No job that a checked lane reaches opts out of failing, as the documents have it. -/
def OptOutClosed (repr : Value → Str) (t : Tree) : Prop :=
  ∀ g, t.Reads g → ∀ lane ∈ g.checked, ∀ e, g.jobs.lookup (.str lane) = some e →
    ∀ le ∈ expandNeeds repr g.byKey lane e, NoOptOut le.2.job

/-- Neither the job nor one of its steps carries the key, the make steps apart. -/
structure NoOptOutBesideMake (anchor : Str) (job : Mapping) : Prop where
  keys : ∀ kv ∈ job, ¬ Spells kv.1
  steps : ∀ steps, jobSteps job = .ok steps → ∀ s ∈ steps, ¬ MakeStep anchor s → ∀ kv ∈ s, ¬ Spells kv.1

/-- No job that a checked lane reaches through `needs` opts out, by itself or by a step that does not run make. -/
def LegsKeepIn (repr : Value → Str) (t : Tree) : Prop :=
  ∀ g, t.Reads g → ∀ lane ∈ g.checked, ∀ e, g.jobs.lookup (.str lane) = some e →
    ∀ leg, TransGen (Needs repr g.byKey e.path) e leg → NoOptOutBesideMake g.pins.anchor leg.job

theorem NoOptOut.besideMake {anchor : Str} {job : Mapping} (h : NoOptOut job) : NoOptOutBesideMake anchor job :=
  ⟨h.keys, fun steps hsteps s hs _ => h.steps steps hsteps s hs⟩

/-- The make steps of a job that passes carry no key beyond the allowed ones. -/
theorem noOptOut_of_besideMake {g : Input} {label : Str} {e : Entry} (hpass : JobPasses repr g label e)
    (h : NoOptOutBesideMake g.pins.anchor e.job) : NoOptOut e.job := by
  refine ⟨h.keys, fun steps hsteps s hs => ?_⟩
  by_cases hmake : MakeStep g.pins.anchor s
  · obtain ⟨i, hi⟩ := List.getElem?_of_mem hs
    have hnone := makeStep_passes hpass.pinned hsteps hi hmake
    exact not_spells_of_extraKeys (makeStepProblems_eq_nil hnone).2.1
  · exact h.steps steps hsteps s hs hmake

theorem optOut_closed_iff {t : Tree} (h : main repr t = .ok 0) : OptOutClosed repr t ↔ LegsKeepIn repr t := by
  constructor
  · intro hclosed g hg lane hlane e he leg hleg
    obtain ⟨label, hmem⟩ := mem_expandNeeds.mpr (Or.inr hleg)
    exact (hclosed g hg lane hlane e he _ hmem).besideMake
  · intro hlegs g hg lane hlane e he le hmem
    have hpass := lane_passes (checks_of_main h hg) hlane he
    rcases mem_expandNeeds.mp ⟨le.1, hmem⟩ with heq | hleg
    · rw [heq]
      exact noOptOut_of_sites hpass.optOut
    · exact noOptOut_of_besideMake (job_passes (hpass.jobs le hmem)) (hlegs g hg lane hlane e he _ hleg)

/-- `cache-matrix` needs a leg whose failures do not count. -/
def optOutTree : Tree := sampleTree [sampleWorkflow "ci.yml" "pull_request"
  (floorJobs [yamlKey "needs" (yamlText "leg")] ++
    [yamlKey "leg" (hostedJob [yamlKey "continue-on-error" (yamlText "true")])])]

theorem main_optOutTree : main sampleRepr optOutTree = .ok 0 := by
  decide +kernel

/-- A job that `cache-matrix` reaches carries the key. -/
def cacheMatrixLeaks (g : Input) : Bool :=
  g.checked.contains (str "cache-matrix") && (g.jobs.lookup (.str (str "cache-matrix"))).any fun e =>
    (expandNeeds sampleRepr g.byKey (str "cache-matrix") e).any fun le =>
      le.2.job.any fun kv => isContinueOnError kv.1

theorem optOut_not_closed : main sampleRepr optOutTree = .ok 0 ∧ ¬ OptOutClosed sampleRepr optOutTree := by
  refine ⟨main_optOutTree, fun hclosed => ?_⟩
  have hleaks : (optOutTree.read (readManifest sampleManifest)).toOption.any cacheMatrixLeaks = true := by
    decide +kernel
  obtain ⟨g, hreads, hg⟩ := reads_of_any rfl hleaks
  rw [cacheMatrixLeaks, Bool.and_eq_true, List.contains_iff_mem, Option.any_eq_true] at hg
  obtain ⟨hlane, e, he, hany⟩ := hg
  obtain ⟨le, hle, hjob⟩ := List.any_eq_true.mp hany
  obtain ⟨kv, hkv, hkey⟩ := List.any_eq_true.mp hjob
  exact (hclosed g hreads _ hlane e he le hle).keys kv hkv (isContinueOnError_iff.mp hkey)

theorem optOut_closed_iff_cacheMatrix :
    main sampleRepr optOutTree = .ok 0 ∧
      (OptOutClosed sampleRepr optOutTree ↔ LegsKeepIn sampleRepr optOutTree) :=
  ⟨main_optOutTree, optOut_closed_iff main_optOutTree⟩

end Vizra.CiGuard
