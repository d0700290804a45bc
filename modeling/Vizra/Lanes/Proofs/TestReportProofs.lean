import Mathlib.Data.Set.Card
import Vizra.Lanes.TestReport

/-!
# What a passing test report says

The floors are held against the number of events that end a test. With the skips that are allowed and with every
repetition counted they say nothing about how many different tests passed, unless no test is skipped or passes twice.
-/

namespace Vizra.Lanes

open Py

/-- The test that an event of one kind names. -/
def testEvent (action : Str) : EventLine → Option (Json × Json)
  | .value (.dict ev) =>
    let test := JsonDict.get ev (str "Test")
    if test.truth && (JsonDict.get ev (str "Action")).isText action then some (eventPackage ev, test) else none
  | _ => none

/-- The package that an event of one kind names, if it names no test. -/
def packageEvent (action : Str) : EventLine → Option Json
  | .value (.dict ev) =>
    if !(JsonDict.get ev (str "Test")).truth && (JsonDict.get ev (str "Action")).isText action then
      some (eventPackage ev)
    else none
  | _ => none

def testEvents (action : Str) (lines : List EventLine) : List (Json × Json) := lines.filterMap (testEvent action)

def packageEvents (action : Str) (lines : List EventLine) : List Json := lines.filterMap (packageEvent action)

/-- The number of different tests. -/
noncomputable def distinct (tests : List (Json × Json)) : Nat := {e | e ∈ tests}.ncard

/-- Those of one package. -/
def ofPackage (pkg : Str) (tests : List (Json × Json)) : List (Json × Json) := tests.filter fun e => e.1.isText pkg

/-! ## The loop over the events -/

/-- What a line adds to the tallies. -/
structure Tally.Adds (t : Tally) (line : EventLine) (t' : Tally) : Prop where
  passed : t'.passed = t.passed ++ (testEvent (str "pass") line).toList
  failed : t'.failed = t.failed ++ (testEvent (str "fail") line).toList
  skipped : t'.skipped = t.skipped ++ (testEvent (str "skip") line).toList
  pkgFailed : t'.pkgFailed = t.pkgFailed ++ (packageEvent (str "fail") line).toList

theorem isText_iff {v : Json} {s : Str} : v.isText s = true ↔ v = .str s := by
  cases v with
  | str t => simp [Json.isText]
  | _ => simp [Json.isText]

theorem isText_of_eq {v : Json} {s : Str} (h : v.isText s = true) (t : Str) : v.isText t = (s == t) := by
  rw [isText_iff.mp h]
  rfl

theorem Tally.Adds.of_test {t : Tally} {ev : JsonDict} (htest : (ev.get (str "Test")).truth = true) :
    Tally.Adds t (.value (.dict ev))
      (t.test (ev.get (str "Action")) (eventPackage ev) (ev.get (str "Test"))) := by
  unfold Tally.test
  by_cases hpass : (ev.get (str "Action")).isText (str "pass") = true
  · rw [if_pos hpass]
    constructor <;> simp [testEvent, packageEvent, htest, isText_of_eq hpass] <;> decide
  · rw [if_neg hpass]
    by_cases hfail : (ev.get (str "Action")).isText (str "fail") = true
    · rw [if_pos hfail]
      constructor <;> simp [testEvent, packageEvent, htest, isText_of_eq hfail] <;> decide
    · rw [if_neg hfail]
      by_cases hskip : (ev.get (str "Action")).isText (str "skip") = true
      · rw [if_pos hskip]
        constructor <;> simp [testEvent, packageEvent, htest, isText_of_eq hskip] <;> decide
      · rw [if_neg hskip]
        constructor <;> simp [testEvent, packageEvent, htest, hpass, hfail, hskip]

theorem Tally.Adds.of_package {t t' : Tally} {ev : JsonDict} (htest : ¬ (ev.get (str "Test")).truth = true)
    (h : t.package (ev.get (str "Action")) (eventPackage ev) = .ok t') : Tally.Adds t (.value (.dict ev)) t' := by
  unfold Tally.package at h
  split at h
  · exact nomatch h
  · split at h
    · rename_i hfail
      obtain rfl := Except.ok.inj h
      constructor <;> simp [testEvent, packageEvent, htest, hfail]
    · rename_i hfail
      obtain rfl := Except.ok.inj h
      constructor <;> simp [testEvent, packageEvent, htest, hfail]

theorem Tally.line_adds {t t' : Tally} {line : EventLine} (h : t.line line = .ok t') : Tally.Adds t line t' := by
  have hnone : ∀ {t' : Tally}, t'.passed = t.passed → t'.failed = t.failed → t'.skipped = t.skipped →
      t'.pkgFailed = t.pkgFailed → (∀ a, testEvent a line = none) → (∀ a, packageEvent a line = none) →
      Tally.Adds t line t' := by
    intro t' hp hf hs hk htest hpkg
    exact ⟨by simp [hp, htest], by simp [hf, htest], by simp [hs, htest], by simp [hk, hpkg]⟩
  cases line with
  | blank =>
    obtain rfl := Except.ok.inj h
    exact hnone rfl rfl rfl rfl (fun _ => rfl) (fun _ => rfl)
  | malformed =>
    obtain rfl := Except.ok.inj h
    exact hnone rfl rfl rfl rfl (fun _ => rfl) (fun _ => rfl)
  | value v =>
    cases v with
    | dict ev =>
      rw [Tally.line, Tally.event] at h
      by_cases htest : (JsonDict.get ev (str "Test")).truth = true
      · rw [htest, Bool.and_true] at h
        split at h
        · rename_i hout
          split at h
          · obtain rfl := Except.ok.inj h
            constructor <;> simp [testEvent, packageEvent, htest, isText_of_eq hout] <;> decide
          · exact nomatch h
        · obtain rfl := Except.ok.inj h
          exact ⟨(Tally.Adds.of_test htest).passed, (Tally.Adds.of_test htest).failed,
            (Tally.Adds.of_test htest).skipped, (Tally.Adds.of_test htest).pkgFailed⟩
      · rw [if_neg (by simp [htest]), if_neg htest] at h
        have hadds := Tally.Adds.of_package htest h
        exact ⟨hadds.passed, hadds.failed, hadds.skipped, hadds.pkgFailed⟩
    | _ =>
      obtain rfl := Except.ok.inj h
      exact hnone rfl rfl rfl rfl (fun _ => rfl) (fun _ => rfl)

/-- The tallies are the events of the stream. -/
structure Tally.Reads (t : Tally) (lines : List EventLine) : Prop where
  passed : t.passed = testEvents (str "pass") lines
  failed : t.failed = testEvents (str "fail") lines
  skipped : t.skipped = testEvents (str "skip") lines
  pkgFailed : t.pkgFailed = packageEvents (str "fail") lines

theorem filterMap_snoc {α β : Type} {f : α → Option β} {l : List α} {a : α} :
    (l ++ [a]).filterMap f = l.filterMap f ++ (f a).toList := by
  rw [List.filterMap_append]
  cases h : f a with
  | none => simp [h]
  | some b => simp [h]

theorem Tally.Reads.line {t t' : Tally} {lines : List EventLine} {line : EventLine} (h : t.Reads lines)
    (hadds : Tally.Adds t line t') : t'.Reads (lines ++ [line]) := by
  constructor
  · rw [hadds.passed, h.passed, testEvents, testEvents, filterMap_snoc]
  · rw [hadds.failed, h.failed, testEvents, testEvents, filterMap_snoc]
  · rw [hadds.skipped, h.skipped, testEvents, testEvents, filterMap_snoc]
  · rw [hadds.pkgFailed, h.pkgFailed, packageEvents, packageEvents, filterMap_snoc]

theorem Tally.Reads.run {t t' : Tally} {done lines : List EventLine} (hreads : t.Reads done)
    (h : lines.foldlM Tally.line t = .ok t') : t'.Reads (done ++ lines) := by
  induction lines generalizing t done with
  | nil =>
    obtain rfl := Except.ok.inj h
    rwa [List.append_nil]
  | cons line lines ih =>
    rw [List.foldlM_cons] at h
    obtain ⟨t'', ht'', h⟩ := Report.bind_eq_ok.mp h
    have hrun := ih (hreads.line (Tally.line_adds ht'')) h
    rwa [List.append_assoc, List.singleton_append] at hrun

theorem tally_reads {t : Tally} {lines : List EventLine} (h : tally lines = .ok t) : t.Reads lines :=
  have hempty : Tally.Reads {} [] := ⟨rfl, rfl, rfl, rfl⟩
  hempty.run h

/-! ## The verdict -/

variable {repr : Json → Str}

/-- What a report that exits 0 has read, and that none of its checks found anything. -/
theorem goTestReport_eq_zero {args : ReportArgs} (h : goTestReport repr args = 0) :
    ∃ floor lines t, readFloor args.floors args.suite = .ok floor ∧ args.events = some lines ∧ tally lines = .ok t ∧
      args.goExitFile = some (.code 0) ∧ problems repr floor 0 t = .ok [] := by
  unfold goTestReport at h
  split at h
  · rename_i hjudge
    obtain ⟨floor, hfloor, hjudge⟩ := Report.bind_eq_ok.mp hjudge
    obtain ⟨goExit, hexit, hjudge⟩ := Report.bind_eq_ok.mp hjudge
    cases hlines : args.events with
    | none =>
      rw [hlines] at hjudge
      exact nomatch hjudge
    | some lines =>
      rw [hlines] at hjudge
      obtain ⟨t, ht, hjudge⟩ := Report.bind_eq_ok.mp hjudge
      split at hjudge
      · exact nomatch hjudge
      · have hgo := Report.all_passes.mp hjudge _
          (List.mem_of_getElem? (i := 7) rfl)
        rw [Report.found_passes, Report.failIf_eq_nil, bne_eq_false_iff_eq] at hgo
        subst hgo
        refine ⟨floor, lines, t, hfloor, rfl, ht, ?_, hjudge⟩
        unfold readGoExit at hexit
        split at hexit
        · rename_i hfile
          rw [hfile, Except.ok.inj hexit]
        · exact nomatch hexit
  · exact nomatch h

/-- The checks of the verdict that find nothing, one by one. -/
theorem problems_eq_nil {floor : Floor} {t : Tally} (h : problems repr floor 0 t = .ok []) :
    t.failed = [] ∧ t.pkgFailed = [] ∧ (∀ e ∈ t.skipped, checkSkip repr floor e = .ok []) ∧
      floor.minTests ≤ t.executed ∧
      ∃ floors, floor.minPackageTests = .dict floors ∧ ∀ kv ∈ floors, checkPackage t kv = .ok [] := by
  have hall := Report.all_passes.mp h
  simp only [List.forall_mem_cons] at hall
  obtain ⟨-, -, hfailed, hpkg, hskip, hmin, hfloors, -⟩ := hall
  rw [Report.found_passes, Report.failIf_eq_nil] at hfailed hmin
  have hfailed' : t.failed = [] := by simpa using hfailed
  refine ⟨hfailed', ?_, Report.each_passes.mp hskip, by simpa using hmin, ?_⟩
  · rw [Report.found_passes, checkFailedPackages, List.map_eq_nil_iff, hfailed'] at hpkg
    simpa using hpkg
  · unfold checkFloors at hfloors
    split at hfloors
    · rename_i floors hdict
      refine ⟨floors, hdict, Report.each_passes.mp ?_⟩
      exact Report.all_passes.mp hfloors _ List.mem_cons_self
    · exact nomatch hfloors

theorem checkSkip_passes {floor : Floor} {e : Json × Json} (h : checkSkip repr floor e = .ok []) :
    ∃ reason, skipReason repr floor.allowedSkips e.1 e.2 = .ok reason ∧ reason.truth = true := by
  obtain ⟨reason, hreason, h⟩ := Report.bind_eq_ok.mp h
  have hnil := Except.ok.inj h
  rw [Report.failIf_eq_nil, Bool.not_eq_false'] at hnil
  exact ⟨reason, hreason, hnil⟩

theorem checkPackage_passes {t : Tally} {kv : Str × Json} (h : checkPackage t kv = .ok []) :
    Json.exceeds (t.inPackage kv.1) kv.2 = some false := by
  unfold checkPackage at h
  split at h
  · rename_i under hunder
    have hnil := Except.ok.inj h
    rw [Report.failIf_eq_nil] at hnil
    rw [hunder, hnil]
  · exact nomatch h

theorem distinct_eq_length {tests : List (Json × Json)} (h : tests.Nodup) : distinct tests = tests.length := by
  classical
  have hset : {e | e ∈ tests} = (tests.toFinset : Set (Json × Json)) := by
    ext e
    simp
  rw [distinct, hset, Set.ncard_coe_finset, List.toFinset_card_of_nodup h]

theorem distinct_le_length (tests : List (Json × Json)) : distinct tests ≤ tests.length := by
  classical
  have hset : {e | e ∈ tests} = (tests.toFinset : Set (Json × Json)) := by
    ext e
    simp
  rw [distinct, hset, Set.ncard_coe_finset]
  exact List.toFinset_card_le tests

/-- A report that exits 0: the run exited 0, nothing failed, every skip is allowed, and the tests that passed and the
ones that were skipped meet the floors, each counted as often as it has an event. Where no test is skipped or passes
twice, the different tests that passed meet them. -/
theorem goTestReport_meets_floors (repr : Json → Str) (args : ReportArgs) (h : goTestReport repr args = 0) :
    ∃ floor lines floors, readFloor args.floors args.suite = .ok floor ∧ args.events = some lines ∧
      floor.minPackageTests = .dict floors ∧ args.goExitFile = some (.code 0) ∧
      testEvents (str "fail") lines = [] ∧ packageEvents (str "fail") lines = [] ∧
      (∀ e ∈ testEvents (str "skip") lines,
        ∃ reason, skipReason repr floor.allowedSkips e.1 e.2 = .ok reason ∧ reason.truth = true) ∧
      floor.minTests ≤ (testEvents (str "pass") lines ++ testEvents (str "skip") lines).length ∧
      (∀ kv ∈ floors, Json.exceeds
        (ofPackage kv.1 (testEvents (str "pass") lines ++ testEvents (str "skip") lines)).length kv.2 = some false) ∧
      (testEvents (str "skip") lines = [] → (testEvents (str "pass") lines).Nodup →
        floor.minTests ≤ distinct (testEvents (str "pass") lines) ∧
        ∀ kv ∈ floors, Json.exceeds (distinct (ofPackage kv.1 (testEvents (str "pass") lines))) kv.2 = some false) := by
  obtain ⟨floor, lines, t, hfloor, hlines, ht, hexit, hproblems⟩ := goTestReport_eq_zero h
  obtain ⟨hfailed, hpkg, hskip, hmin, floors, hfloors, hpackages⟩ := problems_eq_nil hproblems
  have hreads := tally_reads ht
  have hevery : t.every = testEvents (str "pass") lines ++ testEvents (str "skip") lines := by
    rw [Tally.every, hfailed, List.append_nil, hreads.passed, hreads.skipped]
  have hcounts : ∀ kv ∈ floors, Json.exceeds
      (ofPackage kv.1 (testEvents (str "pass") lines ++ testEvents (str "skip") lines)).length kv.2 = some false := by
    intro kv hkv
    have hcount := checkPackage_passes (hpackages kv hkv)
    rwa [Tally.inPackage, hevery, List.countP_eq_length_filter] at hcount
  rw [Tally.executed, hevery] at hmin
  refine ⟨floor, lines, floors, hfloor, hlines, hfloors, hexit, hreads.failed ▸ hfailed, hreads.pkgFailed ▸ hpkg, ?_,
    hmin, hcounts, ?_⟩
  · intro e he
    rw [← hreads.skipped] at he
    exact checkSkip_passes (hskip e he)
  · intro hnone hnodup
    rw [hnone, List.append_nil] at hmin hcounts
    refine ⟨?_, fun kv hkv => ?_⟩
    · rwa [distinct_eq_length hnodup]
    · rw [ofPackage, distinct_eq_length (hnodup.filter _)]
      exact hcounts kv hkv

/-! ## A skip that is allowed counts towards the floors -/

/-- An event of the test `name` of the package `thing`. -/
def thingEvent (action name : String) : EventLine :=
  .value (.dict [(str "Action", .str (str action)), (str "Package", .str (str "thing")),
    (str "Test", .str (str name))])

/-- A floor of four tests, overall and for the package, with one skip allowed. -/
def fourTests : Json :=
  .dict [(str "suites", .dict [(str "unit", .dict [(str "min_tests", .int 4),
    (str "allowed_skips", .dict [(str "TestFour", .str (str "deliberate"))]),
    (str "min_package_tests", .dict [(str "thing", .int 4)])])])]

def thingArgs (lines : List EventLine) : ReportArgs := ⟨some lines, str "unit", .value fourTests, some (.code 0)⟩

/-- Four tests that pass. -/
theorem goTestReport_meets_floors_four :
    goTestReport (fun _ => []) (thingArgs (["TestOne", "TestTwo", "TestThree", "TestFour"].map (thingEvent "pass"))) = 0 ∧
      (thingArgs (["TestOne", "TestTwo", "TestThree", "TestFour"].map (thingEvent "pass"))).goExitFile =
        some (.code 0) := by
  refine ⟨by decide, ?_⟩
  obtain ⟨_, _, _, _, _, _, hexit, -⟩ := goTestReport_meets_floors (fun _ => [])
    (thingArgs (["TestOne", "TestTwo", "TestThree", "TestFour"].map (thingEvent "pass"))) (by decide)
  exact hexit

/-- Three tests that pass and one that is skipped meet a floor of four; so does one test that passes four times. -/
theorem goTestReport_counts_skips :
    let skipped := ["TestOne", "TestTwo", "TestThree"].map (thingEvent "pass") ++ [thingEvent "skip" "TestFour"]
    let repeated := (List.replicate 4 "TestOne").map (thingEvent "pass")
    goTestReport (fun _ => []) (thingArgs skipped) = 0 ∧ distinct (testEvents (str "pass") skipped) < 4 ∧
      goTestReport (fun _ => []) (thingArgs repeated) = 0 ∧ distinct (testEvents (str "pass") repeated) < 4 := by
  refine ⟨by decide, ?_, by decide, ?_⟩
  · exact Nat.lt_of_le_of_lt (distinct_le_length _) (by decide)
  · have hevents : testEvents (str "pass") ((List.replicate 4 "TestOne").map (thingEvent "pass")) =
        List.replicate 4 (.str (str "thing"), .str (str "TestOne")) := rfl
    rw [hevents, distinct]
    simp

end Vizra.Lanes
