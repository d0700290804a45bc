import Vizra.Lanes.ImageScan
import Vizra.Report.Basic

/-!
# When the verdict on a scan respects the order of the severities

The verdict looks a severity up in the set that `--fail-on` names; the order only serves to print. It respects the
order for every report exactly when the set has all severities above those in it.
-/

namespace Vizra.Lanes

open Py

/-- The place of a severity in the order. -/
def rank (s : Str) : Option Nat := severityOrder.idxOf? s

def AtOrAbove (s t : Str) : Prop := ∃ i j, rank s = some i ∧ rank t = some j ∧ j ≤ i

def Above (s t : Str) : Prop := ∃ i j, rank s = some i ∧ rank t = some j ∧ j < i

section

variable (repr : Json → Str)

/-- The severities of the vulnerabilities that one result lists. -/
def listedSeverities : Json → List Str
  | .dict r =>
    match JsonDict.get r (str "Vulnerabilities") with
    | .list vs => vs.filterMap fun v => v.asDict?.map (severity repr)
    | _ => []
  | _ => []

/-- The severities of the vulnerabilities in a report. -/
def reportSeverities : ReportFile → List Str
  | .value (.dict doc) =>
    match JsonDict.get doc (str "Results") with
    | .list results => results.flatMap (listedSeverities repr)
    | _ => []
  | _ => []

/-- A report in which one finding of another report has become more severe. -/
structure MoreSevere (doc doc' : JsonDict) : Prop where
  intro ::
  place : ∃ (before : List Json) (r : JsonDict) (after vs : List Json) (v : JsonDict) (vs' : List Json) (s : Str),
    doc.get (str "Results") = .list (before ++ .dict r :: after) ∧
    r.get (str "Vulnerabilities") = .list (vs ++ .dict v :: vs') ∧
    Above (severity repr (v.set (str "Severity") (.str s))) (severity repr v) ∧
    doc' = doc.set (str "Results") (.list (before ++ .dict (r.set (str "Vulnerabilities")
      (.list (vs ++ .dict (v.set (str "Severity") (.str s)) :: vs'))) :: after))

end

variable {repr : Json → Str}

/-! ## The order -/

theorem mem_of_rank {s : Str} {i : Nat} (h : rank s = some i) : s ∈ severityOrder := by
  rw [rank, List.idxOf?_eq_some_iff] at h
  obtain ⟨hi, hs, -⟩ := h
  exact List.mem_of_getElem (by simpa using hs)

theorem Above.atOrAbove {s t : Str} (h : Above s t) : AtOrAbove s t := by
  obtain ⟨i, j, hi, hj, hlt⟩ := h
  exact ⟨i, j, hi, hj, Nat.le_of_lt hlt⟩

/-! ## The findings -/

theorem vulnerabilitySeverity_eq_ok {v : Json} {s : Str} :
    vulnerabilitySeverity repr v = .ok s ↔ ∃ d, v = .dict d ∧ severity repr d = s := by
  cases v with
  | dict d => simp [vulnerabilitySeverity]
  | _ => simp [vulnerabilitySeverity]

theorem resultSeverities_list {r : JsonDict} {vs : List Json} (h : r.get (str "Vulnerabilities") = .list vs) :
    resultSeverities repr (.dict r) = vs.mapM (vulnerabilitySeverity repr) := by
  unfold resultSeverities
  simp only [h]
  cases vs with
  | nil => rfl
  | cons v vs => rfl

theorem mapM_vulnerabilitySeverity {vs : List Json} {found : List Str}
    (h : vs.mapM (vulnerabilitySeverity repr) = .ok found) :
    found = vs.filterMap fun v => v.asDict?.map (severity repr) := by
  rw [Report.mapM_eq_ok] at h
  induction h with
  | nil => rfl
  | cons hv _ ih =>
    obtain ⟨d, rfl, rfl⟩ := vulnerabilitySeverity_eq_ok.mp hv
    rw [ih]
    rfl

theorem resultSeverities_eq_ok {r : Json} {found : List Str} (h : resultSeverities repr r = .ok found) :
    found = listedSeverities repr r := by
  cases r with
  | dict d =>
    cases hv : JsonDict.get d (str "Vulnerabilities") with
    | list vs =>
      rw [resultSeverities_list hv] at h
      rw [mapM_vulnerabilitySeverity h, listedSeverities, hv]
    | _ =>
      rw [resultSeverities, hv] at h
      rw [listedSeverities, hv]
      simp only [] at h
      split at h
      · cases h
      · exact (Except.ok.inj h).symm
  | _ => exact (Except.ok.inj h).symm

theorem severities_eq_ok {results : List Json} {found : List Str} :
    severities repr results = .ok found ↔
      ∃ parts, results.mapM (resultSeverities repr) = .ok parts ∧ found = parts.flatten := by
  rw [severities, Report.bind_eq_ok]
  constructor
  · rintro ⟨parts, hparts, h⟩
    exact ⟨parts, hparts, (Except.ok.inj h).symm⟩
  · rintro ⟨parts, hparts, rfl⟩
    exact ⟨parts, hparts, rfl⟩

theorem severities_listed {results : List Json} {found : List Str} (h : severities repr results = .ok found) :
    found = results.flatMap (listedSeverities repr) := by
  obtain ⟨parts, hparts, rfl⟩ := severities_eq_ok.mp h
  rw [Report.mapM_eq_ok] at hparts
  rw [List.flatMap_def]
  congr 1
  clear h
  induction hparts with
  | nil => rfl
  | cons hr _ ih => rw [List.map_cons, ← resultSeverities_eq_ok hr, ih]

/-! ## The checks -/

theorem checkFailOn_eq_ok {text : Str} {failOn : List Str} :
    checkFailOn text = .ok failOn ↔
      failOn = failOnSet text ∧ failOn ≠ [] ∧ ∀ s ∈ failOn, s ∈ severityOrder := by
  have hknown : (failOnSet text).filter (fun s => !severityOrder.contains s) = [] ↔
      ∀ s ∈ failOnSet text, s ∈ severityOrder := by
    simp [List.filter_eq_nil_iff]
  unfold checkFailOn
  by_cases hunknown : (failOnSet text).filter (fun s => !severityOrder.contains s) = []
  · by_cases hempty : failOnSet text = []
    · simp only [hempty]
      refine ⟨nofun, ?_⟩
      rintro ⟨rfl, hne, -⟩
      exact absurd rfl hne
    · simp only [hunknown, List.isEmpty_nil, Bool.not_true, Bool.false_eq_true, if_false, List.isEmpty_iff, hempty]
      constructor
      · intro h
        obtain rfl := Except.ok.inj h
        exact ⟨rfl, hempty, hknown.mp hunknown⟩
      · rintro ⟨rfl, -, -⟩
        rfl
  · simp only [List.isEmpty_eq_false_iff.mpr hunknown, Bool.not_false, if_true]
    refine ⟨nofun, ?_⟩
    rintro ⟨rfl, -, hall⟩
    exact absurd (hknown.mpr hall) hunknown

theorem checkResults_eq_ok {minResults : Int} {doc : JsonDict} {results : List Json} :
    checkResults minResults doc = .ok results ↔
      doc.get (str "Results") = .list results ∧ minResults ≤ results.length ∧
        (classes results).all Json.hashable = true ∧ sortable (classes results) = true ∧
        (classes results).any (Json.isText (str "os-pkgs")) = true := by
  unfold checkResults
  cases hget : doc.get (str "Results") with
  | list rs =>
    simp only []
    split
    · refine ⟨nofun, ?_⟩
      rintro ⟨hrs, hmin, -⟩
      obtain rfl := Json.list.inj hrs
      omega
    · split
      · rename_i hraise
        refine ⟨nofun, ?_⟩
        rintro ⟨hrs, -, hhash, hsort, -⟩
        obtain rfl := Json.list.inj hrs
        rw [hhash, hsort] at hraise
        exact nomatch hraise
      · split
        · rename_i hclass
          refine ⟨nofun, ?_⟩
          rintro ⟨hrs, -, -, -, hos⟩
          obtain rfl := Json.list.inj hrs
          rw [hos] at hclass
          exact nomatch hclass
        · rename_i hmin hraise hclass
          constructor
          · intro h
            obtain rfl := Except.ok.inj h
            simp only [Bool.not_eq_true', Bool.not_eq_false, Bool.and_eq_true] at hraise hclass
            exact ⟨rfl, by omega, hraise.1, hraise.2, hclass⟩
          · rintro ⟨hrs, -⟩
            obtain rfl := Json.list.inj hrs
            rfl
  | _ => exact ⟨nofun, fun h => nomatch h.1⟩

/-- What the script has read when it gives its verdict. -/
structure ScanRead (repr : Json → Str) (args : ScanArgs) (doc : JsonDict) (results : List Json)
    (failOn found : List Str) : Prop where
  failOn_ok : checkFailOn args.failOn = .ok failOn
  exit_ok : checkScannerExit args.scannerExit = .ok ()
  report_ok : loadReport args.report = .ok doc
  artifact_ok : checkArtifact args.imageRef doc = .ok ()
  system_ok : checkSystem doc = .ok ()
  results_ok : checkResults args.minResults doc = .ok results
  found_ok : severities repr results = .ok found

theorem readScan_eq_ok {args : ScanArgs} {failOn found : List Str} :
    readScan repr args = .ok (failOn, found) ↔ ∃ doc results, ScanRead repr args doc results failOn found := by
  unfold readScan
  constructor
  · intro h
    obtain ⟨failOn', hfail, h⟩ := Report.bind_eq_ok.mp h
    obtain ⟨_, hexit, h⟩ := Report.bind_eq_ok.mp h
    obtain ⟨doc, hdoc, h⟩ := Report.bind_eq_ok.mp h
    obtain ⟨_, hartifact, h⟩ := Report.bind_eq_ok.mp h
    obtain ⟨_, hsystem, h⟩ := Report.bind_eq_ok.mp h
    obtain ⟨results, hresults, h⟩ := Report.bind_eq_ok.mp h
    obtain ⟨found', hfound, h⟩ := Report.bind_eq_ok.mp h
    obtain ⟨rfl, rfl⟩ := Prod.mk.inj (Except.ok.inj h)
    exact ⟨doc, results, hfail, hexit, hdoc, hartifact, hsystem, hresults, hfound⟩
  · rintro ⟨doc, results, hfail, hexit, hdoc, hartifact, hsystem, hresults, hfound⟩
    refine Report.bind_eq_ok.mpr ⟨failOn, hfail, ?_⟩
    refine Report.bind_eq_ok.mpr ⟨(), hexit, ?_⟩
    refine Report.bind_eq_ok.mpr ⟨doc, hdoc, ?_⟩
    refine Report.bind_eq_ok.mpr ⟨(), hartifact, ?_⟩
    refine Report.bind_eq_ok.mpr ⟨(), hsystem, ?_⟩
    refine Report.bind_eq_ok.mpr ⟨results, hresults, ?_⟩
    exact Report.bind_eq_ok.mpr ⟨found, hfound, rfl⟩

theorem imageScanVerdict_eq_zero {args : ScanArgs} :
    imageScanVerdict repr args = 0 ↔
      ∃ doc results failOn found, ScanRead repr args doc results failOn found ∧ ∀ s ∈ found, s ∉ failOn := by
  unfold imageScanVerdict
  constructor
  · intro h
    cases hread : readScan repr args with
    | error e =>
      rw [hread] at h
      cases e <;> exact nomatch h
    | ok r =>
      obtain ⟨failOn, found⟩ := r
      obtain ⟨doc, results, hread'⟩ := readScan_eq_ok.mp hread
      refine ⟨doc, results, failOn, found, hread', fun s hs hmem => ?_⟩
      rw [hread] at h
      simp only [] at h
      rw [if_pos (List.any_eq_true.mpr ⟨s, hs, List.contains_iff_mem.mpr hmem⟩)] at h
      exact nomatch h
  · rintro ⟨doc, results, failOn, found, hread, hnone⟩
    rw [readScan_eq_ok.mpr ⟨doc, results, hread⟩]
    simp only []
    rw [if_neg]
    intro hany
    obtain ⟨s, hs, hmem⟩ := List.any_eq_true.mp hany
    exact hnone s hs (List.contains_iff_mem.mp hmem)

theorem loadReport_eq_ok {report : ReportFile} {doc : JsonDict} :
    loadReport report = .ok doc ↔ report = .value (.dict doc) ∧ doc.has (str "SchemaVersion") = true := by
  cases report with
  | value v =>
    cases v with
    | dict doc' =>
      rw [loadReport]
      by_cases hhas : JsonDict.has doc' (str "SchemaVersion") = true
      · rw [if_pos hhas]
        constructor
        · intro h
          obtain rfl := Except.ok.inj h
          exact ⟨rfl, hhas⟩
        · rintro ⟨hdoc, -⟩
          rw [Json.dict.inj (ReportFile.value.inj hdoc)]
      · rw [if_neg hhas]
        refine ⟨nofun, ?_⟩
        rintro ⟨hdoc, hhas'⟩
        rw [Json.dict.inj (ReportFile.value.inj hdoc)] at hhas
        exact absurd hhas' hhas
    | _ => exact ⟨nofun, fun h => nomatch h.1⟩
  | _ => exact ⟨nofun, fun h => nomatch h.1⟩

/-! ## A finding that becomes more severe -/

theorem classes_set {before after : List Json} {r : JsonDict} {v : Json} :
    classes (before ++ .dict (r.set (str "Vulnerabilities") v) :: after) = classes (before ++ .dict r :: after) := by
  have hclass : (r.set (str "Vulnerabilities") v).get (str "Class") = r.get (str "Class") :=
    JsonDict.get_set_of_ne (by decide)
  simp only [classes, List.filterMap_append, List.filterMap_cons, Json.asDict?, Option.map_some, hclass]

/-- The checks do not see which severities the findings have, and the findings differ in one place. -/
theorem ScanRead.of_moreSevere {args : ScanArgs} {doc doc' : JsonDict} {results' : List Json}
    {failOn found' : List Str} (hdoc : args.report = .value (.dict doc)) (hmore : MoreSevere repr doc doc')
    (hread : ScanRead repr { args with report := .value (.dict doc') } doc' results' failOn found') :
    ∃ results as old new bs, ScanRead repr args doc results failOn (as ++ old :: bs) ∧
      found' = as ++ new :: bs ∧ Above new old := by
  obtain ⟨before, r, after, vs, v, vs', s, hresults, hvulns, habove, rfl⟩ := hmore.place
  obtain ⟨hget, hmin, hhash, hsort, hos⟩ := checkResults_eq_ok.mp hread.results_ok
  rw [JsonDict.get_set_self] at hget
  obtain rfl := Json.list.inj hget
  rw [classes_set] at hhash hsort hos
  obtain ⟨parts, hparts, rfl⟩ := severities_eq_ok.mp hread.found_ok
  obtain ⟨p, q, p', hp, hq, hp', rfl⟩ := Report.mapM_append_cons_eq_ok.mp hparts
  rw [resultSeverities_list JsonDict.get_set_self] at hq
  obtain ⟨as, new, bs, has, hnew, hbs, rfl⟩ := Report.mapM_append_cons_eq_ok.mp hq
  obtain rfl : severity repr (v.set (str "Severity") (.str s)) = new := Except.ok.inj hnew
  refine ⟨before ++ .dict r :: after, p.flatten ++ as, severity repr v, _, bs ++ p'.flatten, ?_, ?_, habove⟩
  · refine ⟨hread.failOn_ok, hread.exit_ok, ?_, ?_, ?_, ?_, ?_⟩
    · obtain ⟨-, hhas⟩ := loadReport_eq_ok.mp hread.report_ok
      rw [JsonDict.has_set_of_ne (by decide)] at hhas
      exact loadReport_eq_ok.mpr ⟨hdoc, hhas⟩
    · have h := hread.artifact_ok
      unfold checkArtifact at h ⊢
      rwa [JsonDict.get_set_of_ne (by decide), JsonDict.get_set_of_ne (by decide)] at h
    · have h := hread.system_ok
      unfold checkSystem at h ⊢
      rwa [JsonDict.get_set_of_ne (by decide)] at h
    · refine checkResults_eq_ok.mpr ⟨hresults, ?_, hhash, hsort, hos⟩
      simpa using hmin
    · refine severities_eq_ok.mpr ⟨p ++ (as ++ severity repr v :: bs) :: p', ?_, ?_⟩
      · refine Report.mapM_append_cons_eq_ok.mpr ⟨p, _, p', hp, ?_, hp', rfl⟩
        rw [resultSeverities_list hvulns]
        exact Report.mapM_append_cons_eq_ok.mpr ⟨as, _, bs, has, rfl, hbs, rfl⟩
      · simp
  · simp

/-! ## The verdict and the order -/

/-- The set has every severity that is above one in it. -/
def NamesUpward (failOn : List Str) : Prop := ∀ s ∈ failOn, ∀ t, AtOrAbove t s → t ∈ failOn

/-- A report about the image `x` with one vulnerability. -/
def oneFinding (sev : Str) : JsonDict :=
  [(str "SchemaVersion", .int 2), (str "ArtifactName", .str (str "x")), (str "ArtifactType", .str (str "image")),
    (str "Metadata", .dict [(str "OS", .dict [(str "Family", .str (str "debian"))])]),
    (str "Results", .list [.dict [(str "Class", .str (str "os-pkgs")),
      (str "Vulnerabilities", .list [.dict [(str "Severity", .str sev)]])]])]

theorem upper_of_mem {s : Str} (h : s ∈ severityOrder) : upper s = s := by
  have hall : ∀ s ∈ severityOrder, upper s = s := by decide
  exact hall s h

theorem oneFinding_read {text : Str} {failOn : List Str} (hfail : checkFailOn text = .ok failOn) {sev : Str}
    (hsev : sev ∈ severityOrder) :
    ∃ results, ScanRead repr ⟨.value (.dict (oneFinding sev)), str "x", .code 0, text, 1⟩ (oneFinding sev) results
      failOn [sev] := by
  refine ⟨_, hfail, rfl, rfl, rfl, rfl, rfl, ?_⟩
  have hone : severity repr [(str "Severity", .str sev)] = sev := upper_of_mem hsev
  exact congrArg (fun s => Except.ok [s]) hone

theorem oneFinding_severities {sev : Str} (hsev : sev ∈ severityOrder) :
    reportSeverities repr (.value (.dict (oneFinding sev))) = [sev] := by
  have hone : severity repr [(str "Severity", .str sev)] = sev := upper_of_mem hsev
  exact congrArg (fun s => [s]) hone

/-- A list with a name outside the order is refused. -/
theorem imageScanVerdict_refused {args : ScanArgs} {s : Str} (hs : s ∈ failOnSet args.failOn)
    (hunknown : s ∉ severityOrder) : imageScanVerdict repr args ≠ 0 := by
  intro h
  obtain ⟨doc, results, failOn, found, hread, -⟩ := imageScanVerdict_eq_zero.mp h
  obtain ⟨rfl, -, hall⟩ := checkFailOn_eq_ok.mp hread.failOn_ok
  exact hunknown (hall s hs)

/-- No report passes with a finding at or above what fails. -/
theorem clean_of_namesUpward {args : ScanArgs} (hup : NamesUpward (failOnSet args.failOn))
    (hzero : imageScanVerdict repr args = 0) {sev named : Str} (hsev : sev ∈ reportSeverities repr args.report)
    (hnamed : named ∈ failOnSet args.failOn) : ¬ AtOrAbove sev named := by
  intro habove
  obtain ⟨doc, results, failOn, found, hread, hnone⟩ := imageScanVerdict_eq_zero.mp hzero
  obtain ⟨rfl, -, -⟩ := checkFailOn_eq_ok.mp hread.failOn_ok
  obtain ⟨hreport, -⟩ := loadReport_eq_ok.mp hread.report_ok
  obtain ⟨hresults, -⟩ := checkResults_eq_ok.mp hread.results_ok
  rw [hreport, reportSeverities, hresults] at hsev
  rw [severities_listed hread.found_ok] at hnone
  exact hnone sev hsev (hup named hnamed sev habove)

theorem verdict_mono_of_namesUpward {args : ScanArgs} {doc doc' : JsonDict}
    (hup : NamesUpward (failOnSet args.failOn)) (hdoc : args.report = .value (.dict doc))
    (hmore : MoreSevere repr doc doc')
    (hzero : imageScanVerdict repr { args with report := .value (.dict doc') } = 0) :
    imageScanVerdict repr args = 0 := by
  obtain ⟨doc'', results', failOn, found', hread', hnone⟩ := imageScanVerdict_eq_zero.mp hzero
  obtain ⟨hreport, -⟩ := loadReport_eq_ok.mp hread'.report_ok
  obtain rfl := Json.dict.inj (ReportFile.value.inj hreport)
  obtain ⟨results, as, old, new, bs, hread, rfl, habove⟩ := ScanRead.of_moreSevere hdoc hmore hread'
  obtain ⟨rfl, -, -⟩ := checkFailOn_eq_ok.mp hread.failOn_ok
  refine imageScanVerdict_eq_zero.mpr ⟨doc, results, _, _, hread, fun s hs => ?_⟩
  rw [List.mem_append, List.mem_cons] at hs
  rcases hs with hs | rfl | hs
  · exact hnone s (List.mem_append_left _ hs)
  · intro hold
    exact hnone new (by simp) (hup s hold new habove.atOrAbove)
  · exact hnone s (List.mem_append_right _ (List.mem_cons_of_mem _ hs))

/-- For a list of severities, no report passes with a finding at or above one of them and no finding turns a failure
into a pass by becoming more severe, exactly when the list is refused or names all severities above its own. -/
theorem imageScan_upward_iff (repr : Json → Str) (fail : Str) :
    ((∀ args : ScanArgs, args.failOn = fail → imageScanVerdict repr args = 0 →
        ∀ sev ∈ reportSeverities repr args.report, ∀ named ∈ failOnSet fail, ¬ AtOrAbove sev named) ∧
      (∀ (args : ScanArgs) (doc doc' : JsonDict), args.failOn = fail → args.report = .value (.dict doc) →
        MoreSevere repr doc doc' → imageScanVerdict repr args ≠ 0 →
        imageScanVerdict repr { args with report := .value (.dict doc') } ≠ 0)) ↔
      (∃ s ∈ failOnSet fail, s ∉ severityOrder) ∨ NamesUpward (failOnSet fail) := by
  constructor
  · rintro ⟨hclean, -⟩
    by_cases hknown : ∃ s ∈ failOnSet fail, s ∉ severityOrder
    · exact Or.inl hknown
    · push Not at hknown
      refine Or.inr fun s hs t habove => ?_
      by_contra hmiss
      obtain ⟨i, j, hi, hj, hle⟩ := habove
      have hfail : checkFailOn fail = .ok (failOnSet fail) :=
        checkFailOn_eq_ok.mpr ⟨rfl, List.ne_nil_of_mem hs, hknown⟩
      obtain ⟨results, hread⟩ := @oneFinding_read repr _ _ hfail _ (mem_of_rank hi)
      have hzero : imageScanVerdict repr ⟨.value (.dict (oneFinding t)), str "x", .code 0, fail, 1⟩ = 0 := by
        refine imageScanVerdict_eq_zero.mpr ⟨_, results, _, _, hread, fun s hs => ?_⟩
        rw [List.mem_singleton.mp hs]
        exact hmiss
      refine hclean _ rfl hzero t ?_ s hs ⟨i, j, hi, hj, hle⟩
      rw [oneFinding_severities (mem_of_rank hi)]
      exact List.mem_singleton_self t
  · rintro (⟨s, hs, hunknown⟩ | hup)
    · refine ⟨?_, ?_⟩
      · rintro args rfl hzero
        exact absurd hzero (imageScanVerdict_refused hs hunknown)
      · rintro args doc doc' rfl - - -
        exact imageScanVerdict_refused hs hunknown
    · refine ⟨?_, ?_⟩
      · rintro args rfl hzero sev hsev named hnamed
        exact clean_of_namesUpward hup hzero hsev hnamed
      · rintro args doc doc' rfl hdoc hmore hne hzero
        exact hne (verdict_mono_of_namesUpward hup hdoc hmore hzero)

/-- `--fail-on HIGH` and a CRITICAL finding: the script exits 0. -/
theorem imageScan_passes_critical :
    let args : ScanArgs := ⟨.value (.dict (oneFinding (str "CRITICAL"))), str "x", .code 0, str "HIGH", 1⟩
    imageScanVerdict (fun _ => []) args = 0 ∧ str "CRITICAL" ∈ reportSeverities (fun _ => []) args.report ∧
      str "HIGH" ∈ failOnSet args.failOn ∧ AtOrAbove (str "CRITICAL") (str "HIGH") ∧
      imageScanVerdict (fun _ => []) { args with report := .value (.dict (oneFinding (str "HIGH"))) } = 1 ∧
      MoreSevere (fun _ => []) (oneFinding (str "HIGH")) (oneFinding (str "CRITICAL")) := by
  have habove : Above (str "CRITICAL") (str "HIGH") := ⟨4, 3, by decide, by decide, by decide⟩
  refine ⟨by decide, by decide, by decide, habove.atOrAbove, by decide, ⟨[], _, [], [], _, [], str "CRITICAL", rfl,
    rfl, ?_, rfl⟩⟩
  exact habove

end Vizra.Lanes
