import Vizra.Jobs.Proofs.RunProofs
import Vizra.Jobs.Proofs.SafeErrorProofs

/-!
# The outcome of a job under a held lease

`Written` says what a statement leaves of the rows that were there: every one keeps its id and its budget, and
every row that is written meets the CHECK constraints. So the row of a claim still has the `max_attempts` of
that claim when its outcome is written, and by `DbInv` also its `attempts`.
-/

namespace Vizra.Jobs

open Go Vizra.Pg Vizra.Obs

variable {rows : Table} {r : Job} {s : Db} {jit : Int} {j : Claimed}

/-- A `Terminal` occurs somewhere in the chain of the error. -/
inductive GoError.HasTerminal : GoError → Prop where
  | here (err : GoError) : HasTerminal (.terminal err)
  | wrapped {text : Bytes} {es : List GoError} {e : GoError} (hmem : e ∈ es) (h : HasTerminal e) :
      HasTerminal (.other text es)

mutual

theorem GoError.isTerminal_iff : ∀ e : GoError, e.isTerminal = true ↔ e.HasTerminal
  | .terminal err => ⟨fun _ => .here err, fun _ => rfl⟩
  | .other text es => by
    rw [GoError.isTerminal, GoError.anyTerminal_iff es]
    constructor
    · rintro ⟨e, hmem, he⟩
      exact .wrapped hmem he
    · intro h
      cases h with
      | wrapped hmem he => exact ⟨_, hmem, he⟩

theorem GoError.anyTerminal_iff : ∀ es : List GoError, GoError.anyTerminal es = true ↔ ∃ e ∈ es, e.HasTerminal
  | [] => by simp [GoError.anyTerminal]
  | e :: es => by
    rw [GoError.anyTerminal, Bool.or_eq_true, GoError.isTerminal_iff e, GoError.anyTerminal_iff es]
    simp

end

/-! ## What a statement writes -/

theorem store_eq_ok {rows' : Table} {written : List Job} (h : store rows written = .ok rows') :
    rows' = rows ∧ ∀ r ∈ written, violated r = [] := by
  unfold store at h
  split_ifs at h with h1
  exact ⟨(Except.ok.inj h).symm, List.flatMap_eq_nil_iff.mp (not_not.mp h1)⟩

theorem withTexts_eq_ok {α : Type} {texts : List (Option String)} {x : Except PgError α} {a : α}
    (h : withTexts texts x = .ok a) : (∀ t, some t ∈ texts → storable t = true) ∧ x = .ok a := by
  unfold withTexts at h
  split_ifs at h with ht
  refine ⟨fun t hmem => ?_, h⟩
  exact List.all_eq_true.mp ht _ hmem

theorem withTexts_of {α : Type} {texts : List (Option String)} (h : ∀ t, some t ∈ texts → storable t = true)
    (x : Except PgError α) : withTexts texts x = x := by
  rw [withTexts, if_pos]
  rw [List.all_eq_true]
  intro t hmem
  cases t with
  | none => rfl
  | some t => exact h t hmem

/-- What a statement leaves: the same rows, one more row, or rows that keep their id and their budget; what it
writes meets every CHECK constraint. -/
inductive Written (rows : Table) : Table → Prop where
  | same : Written rows rows
  | insert {r : Job} (hv : violated r = []) : Written rows (rows ++ [r])
  | update {p : Job → Bool} {f : Job → Job} (hid : ∀ r, (f r).id = r.id)
      (hmax : ∀ r, (f r).max_attempts = r.max_attempts) (hv : ∀ r ∈ rows, p r = true → violated (f r) = []) :
      Written rows (updated rows p f)

theorem Written.checked {rows' : Table} (h : Written rows rows') (hv : ∀ r ∈ rows, violated r = []) :
    ∀ r ∈ rows', violated r = [] := by
  intro x hx
  cases h with
  | same => exact hv x hx
  | insert hr =>
    rcases List.mem_append.mp hx with hx | hx
    · exact hv x hx
    · rw [List.mem_singleton.mp hx]
      exact hr
  | update _ _ hw =>
    obtain ⟨r, hr, ⟨hp, rfl⟩ | ⟨-, rfl⟩⟩ := mem_updated.mp hx
    · exact hw r hr hp
    · exact hv _ hr

theorem Written.kept {rows' : Table} (h : Written rows rows') (hr : r ∈ rows) :
    ∃ r' ∈ rows', r'.id = r.id ∧ r'.max_attempts = r.max_attempts := by
  cases h with
  | same => exact ⟨r, hr, rfl, rfl⟩
  | insert _ => exact ⟨r, List.mem_append_left _ hr, rfl, rfl⟩
  | @update p f hid hmax _ =>
    cases hp : p r with
    | true => exact ⟨f r, mem_updated.mpr ⟨r, hr, Or.inl ⟨hp, rfl⟩⟩, hid r, hmax r⟩
    | false => exact ⟨r, mem_updated.mpr ⟨r, hr, Or.inr ⟨hp, rfl⟩⟩, rfl, rfl⟩

theorem written_updateWhere {p : Job → Bool} {f : Job → Job} {res : Table × List Job} (hid : ∀ r, (f r).id = r.id)
    (hmax : ∀ r, (f r).max_attempts = r.max_attempts) (h : updateWhere rows p f = .ok res) : Written rows res.1 := by
  unfold updateWhere at h
  cases hs : store (updated rows p f) ((rows.filter p).map f) with
  | error e => simp [hs, Except.map] at h
  | ok rows' =>
    obtain ⟨rfl, hv⟩ := store_eq_ok hs
    simp only [hs, Except.map, Except.ok.injEq] at h
    rw [← h]
    refine .update hid hmax fun r hr hp => hv _ ?_
    exact List.mem_map.mpr ⟨r, List.mem_filter.mpr ⟨hr, hp⟩, rfl⟩

theorem written_settle {α β : Type} {reply : β → Reply} {x : Except PgError (Table × α)} {pick : α → β}
    (h : ∀ res, x = .ok res → Written s.rows res.1) :
    Written s.rows (s.settle reply (x.map fun w => (w.1, pick w.2))).1.rows := by
  cases x with
  | error e => exact .same
  | ok res => exact h res rfl

theorem written_settle_held {β : Type} {reply : β → Reply} {id : Uuid} {leased_by text : Option String}
    {guard : Job → Bool} {f : Job → Job} {pick : List Job → β} (hid : ∀ r, (f r).id = r.id)
    (hmax : ∀ r, (f r).max_attempts = r.max_attempts) :
    Written s.rows (s.settle reply ((updateHeld s.rows id leased_by text guard f).map
      fun w => (w.1, pick w.2))).1.rows := by
  refine written_settle fun res hres => ?_
  exact written_updateWhere hid hmax (withTexts_eq_ok hres).2

variable {jsonbText safe : String → String}

theorem Db.step_written (jsonbText safe : String → String) (s : Db) (c : Call) :
    Written s.rows (s.step jsonbText safe c).1.rows := by
  cases c with
  | enqueue now newID j =>
    simp only [Db.step]
    cases prepare newID j with
    | error e => exact .same
    | ok p =>
      simp only [enqueueJob, withTexts]
      split_ifs with ht hv hc
      · exact .same
      · exact .same
      · cases hs : store (s.rows ++ [p.row jsonbText now]) [p.row jsonbText now] with
        | error e => exact .same
        | ok rows' =>
          obtain ⟨rfl, -⟩ := store_eq_ok hs
          exact .insert (not_not.mp hv)
      · exact .same
  | claim w kinds locked =>
    simp only [Db.step, claimJob, withTexts]
    split_ifs with ht
    · cases claimCandidate s.now (w.claimParams kinds).kinds locked s.rows with
      | none => exact .same
      | some b =>
        refine written_settle fun res hres => ?_
        exact written_updateWhere (fun _ => by rfl) (fun _ => by rfl) hres
    · exact .same
  | heartbeat w id => exact written_settle_held (fun _ => rfl) fun _ => rfl
  | outcome w id o => cases o <;> exact written_settle_held (fun _ => rfl) fun _ => rfl
  | sweep =>
    have hstmt : ∀ res, sweepExpiredLeases s.now s.rows = .ok res → Written s.rows res.1 := by
      intro res hres
      refine written_updateWhere (keepsRow_sweep s.rows s.now).id_eq (fun r => ?_) hres
      unfold Job.sweep
      split_ifs <;> rfl
    simp only [Db.step]
    cases hs : sweepExpiredLeases s.now s.rows with
    | error e => exact .same
    | ok res => exact hstmt res hs
  | advance d => exact .same

theorem Db.Run.step_written {t : Db} {e : Call × Reply} (h : Lts.mealy (Db.step jsonbText safe) s e t) :
    Written s.rows t.rows := by
  have hstep := Db.step_written jsonbText safe s e.1
  rw [Lts.mealy] at h
  rwa [h] at hstep

/-- The rows of a run violate no constraint. -/
theorem Db.Run.checked {now : Time} {es : List (Call × Reply)} {t : Db}
    (h : Db.Run jsonbText safe (.empty now) es t) : ∀ r ∈ t.rows, violated r = [] :=
  h.inv (I := fun t => ∀ r ∈ t.rows, violated r = []) (by simp [Db.empty])
    fun _ _ _ hi hs => (step_written hs).checked hi

/-- A job keeps its budget for a whole run. -/
theorem Db.Run.max_kept {t : Db} {es : List (Call × Reply)} (h : Db.Run jsonbText safe s es t) (hr : r ∈ s.rows) :
    ∃ r' ∈ t.rows, r'.id = r.id ∧ r'.max_attempts = r.max_attempts := by
  refine h.inv (I := fun t => ∃ r' ∈ t.rows, r'.id = r.id ∧ r'.max_attempts = r.max_attempts)
    ⟨r, hr, rfl, rfl⟩ fun s e u hi hs => ?_
  obtain ⟨r1, hr1, hid1, hmax1⟩ := hi
  obtain ⟨r2, hr2, hid2, hmax2⟩ := (step_written hs).kept hr1
  exact ⟨r2, hr2, hid2.trans hid1, hmax2.trans hmax1⟩

/-! ## The statement of an outcome -/

/-- The SET clause of an outcome statement. -/
def Outcome.set (o : Outcome) (now : Time) (r : Job) : Job :=
  match o with
  | complete => r.complete now
  | fail text => r.finish .failed now (strPtr text)
  | deadLetter text => r.finish .dead now (strPtr text)
  | retry d text => r.retry now (toInterval d) (strPtr text)

/-- The text that an outcome records. -/
def Outcome.text : Outcome → Option String
  | complete => none
  | fail text | deadLetter text | retry _ text => strPtr text

/-- A row that keeps what the caller supplied and records a short text violates nothing. -/
theorem RowInv.violated_nil_of {r' : Job} (hi : RowInv r') (h : violated r = []) (hkind : r'.kind = r.kind)
    (hpay : r'.payload = r.payload) (hcorr : r'.correlation_id = r.correlation_id)
    (herr : ∀ t, r'.last_error = some t → t.toList.length ≤ 4096) : violated r' = [] := by
  rw [violated_eq_nil_iff] at h
  have hcorr' := h .jobs_correlation_bounded
  have hkind' := h .jobs_kind_bounded
  have hpay' := h .jobs_payload_bounded
  refine hi.violated_nil ?_ ?_ ?_ ?_
  · simpa only [CheckConstraint.holds, hcorr] using hcorr'
  · simpa only [CheckConstraint.holds, hkind] using hkind'
  · cases he : r'.last_error with
    | none => simp [CheckConstraint.holds, he]
    | some t => simpa [CheckConstraint.holds, he] using herr t he
  · simpa only [CheckConstraint.holds, hpay] using hpay'

/-- An UPDATE of the held row that violates no constraint is accepted. -/
theorem updateHeld_ok (h : TableInv rows) {id : Uuid} {leased_by text : Option String} {guard : Job → Bool}
    {f : Job → Job} (hr : r ∈ rows) (hheld : heldBy id leased_by r = true) (hg : guard r = true)
    (hk : KeepsRow rows (fun r => heldBy id leased_by r && guard r) f)
    (htexts : ∀ t, some t ∈ [leased_by, text] → storable t = true) (hv : violated (f r) = []) :
    ∃ rows', ((updateHeld rows id leased_by text guard f).map fun w => (w.1, w.2.length)) = .ok (rows', 1) ∧
      rows'.filter (fun x => x.id = id) = [f r] := by
  have htab := h.updated hk
  have hmem : f r ∈ updated rows (fun r => heldBy id leased_by r && guard r) f :=
    mem_updated.mpr ⟨r, hr, Or.inl ⟨by rw [hheld, hg]; rfl, rfl⟩⟩
  have hid : (f r).id = id := (hk.id_eq r).trans (heldBy_iff.mp hheld).1
  refine ⟨updated rows (fun r => heldBy id leased_by r && guard r) f, ?_, ?_⟩
  · have hwritten : [f r].flatMap violated = [] := by simp [hv]
    have hstore := store_ok hwritten htab.pkey htab.idem
    rw [updateHeld, withTexts_of htexts, updateWhere, filter_held h hr hheld hg, List.map_singleton, hstore]
    rfl
  · have hfilter := filter_id htab.pkey hmem
    rwa [hid] at hfilter

/-- Under a held lease the statement of an outcome is accepted, provided its text can be stored, and writes the
row of the job. -/
theorem Outcome.write_ok (h : TableInv rows) (now : Time) {id : Uuid} {worker : String} (hr : r ∈ rows)
    (hv : violated r = []) (hheld : heldBy id (some worker) r = true) (hworker : storable worker = true) {o : Outcome}
    (hbudget : o.state = .queued → r.attempts < r.max_attempts)
    (htext : ∀ t, o.text = some t → storable t = true ∧ t.toList.length ≤ 4096) :
    ∃ rows', o.write (fun t => t) now id (some worker) rows = .ok (rows', 1) ∧
      rows'.filter (fun x => x.id = id) = [o.set now r] := by
  have hi := h.row r hr
  have hleased := (heldBy_iff.mp hheld).2.1
  have htexts : ∀ t, some t ∈ [some worker, o.text] → storable t = true := by
    intro t hmem
    rcases List.mem_cons.mp hmem with ht | hmem
    · rw [Option.some.inj ht]
      exact hworker
    · exact (htext t (List.mem_singleton.mp hmem).symm).1
  have hlen : ∀ t, o.text = some t → t.toList.length ≤ 4096 := fun t ht => (htext t ht).2
  cases o with
  | complete =>
    exact updateHeld_ok h hr hheld rfl (keepsRow_complete ..) htexts
      ((hi.complete now).violated_nil_of hv rfl rfl rfl fun t ht => nomatch ht)
  | fail text =>
    exact updateHeld_ok h hr hheld rfl (keepsRow_finish _ _ _ (s := .failed) rfl ..) htexts
      ((hi.finish rfl now _).violated_nil_of hv rfl rfl rfl hlen)
  | deadLetter text =>
    exact updateHeld_ok h hr hheld rfl (keepsRow_finish _ _ _ (s := .dead) rfl ..) htexts
      ((hi.finish rfl now _).violated_nil_of hv rfl rfl rfl hlen)
  | retry d text =>
    have hb := hbudget rfl
    exact updateHeld_ok h hr hheld (decide_eq_true hb) (keepsRow_retry ..) htexts
      ((hi.retry hleased hb now _ _).violated_nil_of hv rfl rfl rfl hlen)

/-! ## The switch -/

theorem backoff_ge (attempt : Int) : 30 * second ≤ backoff attempt := by
  have hall : ∀ i < 5, 30 * second ≤ retryLadder.getD i 0 := by decide
  refine hall _ ?_
  have hlen : retryLadder.length = 5 := rfl
  omega

/-- A retry is scheduled at least a microsecond ahead. -/
theorem retry_delay_pos (attempt : Int) (h : 0 ≤ jit) :
    0 < toInterval (backoff attempt + jitter (backoff attempt) jit) := by
  have hge : (30000000000 : Int) ≤ backoff attempt := backoff_ge attempt
  generalize backoff attempt = d at hge
  have htenth : Int.tdiv d 10 = d / 10 := Int.tdiv_eq_ediv_of_nonneg (by omega)
  have hdelay : (0 : Int) < (d + (jit - d / 10)) / 1000 := by omega
  have hpos : ¬ d ≤ 0 := fun h => absurd (hge.trans h) (by decide)
  rw [jitter, if_neg hpos, htenth]
  rw [← Int.tdiv_eq_ediv_of_nonneg (by omega)] at hdelay
  exact hdelay

/-- The row `x` is what the error of the handler makes of the row that was held. -/
structure RecordedAs (row : Job) (now : Time) (err : Option GoError) (x : Job) : Prop where
  succeeded : x.state = .succeeded ↔ err = none
  failed : x.state = .failed ↔ ∃ e, err = some e ∧ e.HasTerminal
  dead : x.state = .dead ↔ ∃ e, err = some e ∧ ¬ e.HasTerminal ∧ row.attempts = row.max_attempts
  queued : x.state = .queued ∧ now < x.run_after ↔
    ∃ e, err = some e ∧ ¬ e.HasTerminal ∧ row.attempts < row.max_attempts

theorem recordedAs_complete (row : Job) (now : Time) : RecordedAs row now none (Outcome.complete.set now row) := by
  constructor <;> simp [Outcome.set, Job.complete]

theorem recordedAs_ofError {row : Job} (hrow : RowInv row) (ha : j.attempts = row.attempts)
    (hm : j.maxAttempts = row.max_attempts) (now : Time) (hjit : 0 ≤ jit) (e : GoError) (text : String) :
    RecordedAs row now (some e) ((Outcome.ofError j jit e text).set now row) := by
  have hle := hrow.attempts_le
  by_cases ht : e.HasTerminal
  · have hout : Outcome.ofError j jit e text = .fail text := if_pos (e.isTerminal_iff.mpr ht)
    rw [hout]
    constructor <;> simp [Outcome.set, Job.finish, ht]
  · have hf : ¬ e.isTerminal = true := fun h => ht (e.isTerminal_iff.mp h)
    by_cases hb : j.attempts ≥ j.maxAttempts
    · have hout : Outcome.ofError j jit e text = .deadLetter text := by
        rw [Outcome.ofError, if_neg hf, if_pos hb]
      have heq : row.attempts = row.max_attempts := by omega
      rw [hout]
      constructor <;> simp [Outcome.set, Job.finish, ht, heq]
    · have hout : Outcome.ofError j jit e text =
          .retry (backoff j.attempts + jitter (backoff j.attempts) jit) text := by
        rw [Outcome.ofError, if_neg hf, if_neg hb]
      have hlt : row.attempts < row.max_attempts := by omega
      have hne : row.attempts ≠ row.max_attempts := by omega
      have hpos := retry_delay_pos j.attempts hjit
      rw [hout]
      constructor <;> simp [Outcome.set, Job.retry, ht, hlt, hne, hpos]

theorem Outcome.ofError_budget {e : GoError} {text : String} (h : (Outcome.ofError j jit e text).state = .queued) :
    j.attempts < j.maxAttempts := by
  unfold Outcome.ofError at h
  split_ifs at h with h1 h2
  · cases h
  · cases h
  · exact not_le.mp h2

theorem Outcome.ofError_text {e : GoError} {text : String} : (Outcome.ofError j jit e text).text = strPtr text := by
  unfold Outcome.ofError
  split_ifs <;> rfl

/-- The statement of a claim on its held row is accepted exactly if the text of the error can be stored, and then
it does to the row what the error says. -/
theorem Worker.record_held {w : Worker} (hworker : storable w.opts.workerID = true) (h : TableInv rows) (now : Time)
    {row : Job} (hr : row ∈ rows) (hv : violated row = []) (hheld : heldBy j.id w.leasedBy row = true)
    (ha : j.attempts = row.attempts) (hm : j.maxAttempts = row.max_attempts) (hjit : 0 ≤ jit) (err : Option GoError) :
    (∃ rows', w.record now j jit rows err = .ok (rows', 1) ∧
      ∃ x, rows'.filter (fun x => x.id = j.id) = [x] ∧ RecordedAs row now err x) ↔
      ∀ e, err = some e → storableError (safeError e.text) = true := by
  rw [Worker.leasedBy_eq] at hheld
  cases err with
  | none =>
    refine iff_of_true ?_ nofun
    obtain ⟨rows', hok, hx⟩ := Outcome.write_ok h now hr hv hheld hworker (o := .complete) nofun nofun
    refine ⟨rows', ?_, _, hx, recordedAs_complete row now⟩
    rw [Worker.record, Worker.leasedBy_eq]
    exact hok
  | some e =>
    cases htext : textParam (safeError e.text) with
    | none =>
      refine iff_of_false ?_ ?_
      · rintro ⟨rows', hok, -⟩
        simp [Worker.record, htext] at hok
      · intro hs
        have hstore := hs e rfl
        simp [storableError, htext] at hstore
    | some text =>
      have hlen : text.toList.length ≤ 4096 := by
        rw [length_of_textParam htext]
        exact length_decode_safeError e.text
      refine iff_of_true ?_ ?_
      · have htexts : ∀ t, (Outcome.ofError j jit e text).text = some t →
            storable t = true ∧ t.toList.length ≤ 4096 := by
          intro t ht
          rw [Outcome.ofError_text, strPtr] at ht
          split_ifs at ht
          rw [← Option.some.inj ht]
          exact ⟨storable_of_textParam htext, hlen⟩
        obtain ⟨rows', hok, hx⟩ := Outcome.write_ok h now hr hv hheld hworker
          (fun hq => by rw [← ha, ← hm]; exact Outcome.ofError_budget hq) htexts
        refine ⟨rows', ?_, _, hx, recordedAs_ofError (h.row row hr) ha hm now hjit e text⟩
        rw [Worker.record, htext, Worker.leasedBy_eq]
        exact hok
      · intro e' he
        obtain rfl := Option.some.inj he
        simpa [storableError, htext] using hlen

/-! ## From the claim to the statement -/

/-- The row that a claim returns is in the table, and the id of the worker that holds it can be stored. -/
theorem claimJob_ok {rows' : Table} (h : TableInv rows) {now : Time} {w : Worker} {kinds : List String}
    {locked : List Uuid} (hok : claimJob now (w.claimParams kinds) locked rows = .ok (rows', some r)) :
    storable w.opts.workerID = true ∧ r ∈ rows' := by
  have htexts := (withTexts_eq_ok hok).1
  refine ⟨htexts _ ?_, ?_⟩
  · rw [Worker.claimParams, Worker.leasedBy_eq]
    exact List.mem_cons_self
  · rcases claimJob_cases h now (w.claimParams_isSome kinds) locked with ⟨e, he, -⟩ | he | ⟨c, hc, -, -, he⟩
    · rw [he] at hok
      cases hok
    · rw [he] at hok
      cases hok
    · rw [he] at hok
      obtain ⟨rfl, hrow⟩ := Prod.mk.inj (Except.ok.inj hok)
      rw [← Option.some.inj hrow]
      exact mem_updated.mpr ⟨c, hc, Or.inl ⟨by simp, rfl⟩⟩

theorem claimsOf_append (id : Uuid) (es es' : List (Call × Reply)) :
    claimsOf id (es ++ es') = claimsOf id es + claimsOf id es' := by
  rw [claimsOf, claimsOf, claimsOf, List.countP_append]

/-- As long as no later claim of the job succeeds, its row has the `attempts` and the `max_attempts` that the
claim returned. -/
theorem claim_copy_current {now : Time} {es es' : List (Call × Reply)} {s0 s1 : Db} {w : Worker} {kinds : List String}
    {locked : List Uuid} {row : Job} (hrun : Db.Run jsonbText safe (.empty now) es s0)
    (hclaim : s0.step jsonbText safe (.claim w kinds locked) = (s1, .claimed (some r)))
    (hrest : Db.Run jsonbText safe s1 es' s) (hlast : claimsOf r.id es' = 0) (hr : row ∈ s.rows) (hid : row.id = r.id) :
    storable w.opts.workerID = true ∧ row.attempts = r.attempts ∧ row.max_attempts = r.max_attempts := by
  have hinv0 := DbInv.of_run hrun
  have hstep : Lts.mealy (Db.step jsonbText safe) s0 (.claim w kinds locked, .claimed (some r)) s1 := hclaim
  have hrun1 := hrun.tail hstep
  have hinv1 := DbInv.of_run hrun1
  have hinv := DbInv.of_run (hrun1.trans hrest)
  have hstmt : storable w.opts.workerID = true ∧ r ∈ s1.rows := by
    simp only [Db.step] at hclaim
    cases hc : claimJob s0.now (w.claimParams kinds) locked s0.rows with
    | error e =>
      rw [hc] at hclaim
      simp [Db.settle] at hclaim
    | ok res =>
      obtain ⟨rows', r'⟩ := res
      rw [hc] at hclaim
      simp only [Db.settle, Prod.mk.injEq, Reply.claimed.injEq] at hclaim
      obtain ⟨rfl, rfl⟩ := hclaim
      exact claimJob_ok hinv0.table hc
  refine ⟨hstmt.1, ?_, ?_⟩
  · rw [hinv.claims row hr, hinv1.claims r hstmt.2, hid, claimsOf_append, hlast, Nat.add_zero]
  · obtain ⟨r', hr', hid', hmax'⟩ := Db.Run.max_kept hrest hstmt.2
    rw [eq_of_id_eq hinv.table.pkey hr hr' (hid.trans hid'.symm), hmax']

/-- For every run that claims a job and in which the lease of that claim is still held at the end (no later claim
of the job, and the row leased to the worker): the outcome statement matches exactly one row and leaves it as the
error says, exactly if what `Redact` leaves of the error's text has no NUL byte where it is kept, and is UTF-8
if it is short enough to be kept whole. -/
theorem outcome_recorded_held_iff {now : Time} {es es' : List (Call × Reply)} {s0 s1 s : Db} {w : Worker}
    {kinds : List String} {locked : List Uuid} {r row : Job} (hrun : Db.Run jsonbText safe (.empty now) es s0)
    (hclaim : s0.step jsonbText safe (.claim w kinds locked) = (s1, .claimed (some r)))
    (hrest : Db.Run jsonbText safe s1 es' s) (hlast : claimsOf r.id es' = 0) (hr : row ∈ s.rows)
    (hheld : heldBy r.id w.leasedBy row = true) {jit : Int} (hjit : 0 ≤ jit)
    (_hjit : jit < (backoff r.attempts).tdiv 5) (err : Option GoError) :
    (∃ rows', w.record s.now r.claimed jit s.rows err = .ok (rows', 1) ∧
      ∃ x, rows'.filter (fun x => x.id = r.id) = [x] ∧ RecordedAs row s.now err x) ↔
      ∀ e, err = some e → 0 ∉ kept (redact e.text) ∧
        ((redact e.text).length ≤ errorMax → validString (redact e.text) = true) := by
  have hstep : Lts.mealy (Db.step jsonbText safe) s0 (.claim w kinds locked, .claimed (some r)) s1 := hclaim
  have hfull := (hrun.tail hstep).trans hrest
  obtain ⟨hworker, ha, hm⟩ := claim_copy_current hrun hclaim hrest hlast hr (heldBy_iff.mp hheld).1
  have hrec := Worker.record_held (j := r.claimed) hworker (DbInv.of_run hfull).table s.now hr
    (Db.Run.checked hfull row hr) hheld ha.symm hm.symm hjit err
  rw [show r.claimed.id = r.id from rfl] at hrec
  rw [hrec]
  constructor
  · intro h e he
    exact (truncate_storable_iff _).mp (h e he)
  · intro h e he
    exact (truncate_storable_iff _).mpr (h e he)

/-- The table before and after the claim of `claimedCalls`. -/
def enqueuedDb : Db := (Lts.replay (Db.step id id) (.empty 0) (claimedCalls.take 1)).1

def freshlyClaimedDb : Db := (Lts.replay (Db.step id id) (.empty 0) (claimedCalls.take 2)).1

theorem claimedDb_pos : 0 < claimedDb.rows.length := by decide

def claimedRow : Job := claimedDb.rows.get ⟨0, claimedDb_pos⟩

theorem outcome_recorded_held_boom :
    ∃ rows', defaultWorker.record claimedDb.now claimedRow.claimed 0 claimedDb.rows
        (some (.other (ascii "boom") [])) = .ok (rows', 1) ∧
      ∃ x, rows'.filter (fun x => x.id = claimedRow.id) = [x] ∧
        RecordedAs claimedRow claimedDb.now (some (.other (ascii "boom") [])) x := by
  have hrun : Db.Run id id (.empty 0) _ enqueuedDb := Lts.Run.of_replay (Db.step id id) (claimedCalls.take 1) _
  have hclaim : enqueuedDb.step id id (.claim defaultWorker ["noop"] []) =
      (freshlyClaimedDb, .claimed (some claimedRow)) := Prod.ext rfl (by decide)
  have hrest : Db.Run id id freshlyClaimedDb _ claimedDb :=
    Lts.Run.of_replay (Db.step id id) (claimedCalls.drop 2) freshlyClaimedDb
  have hredact : redact (ascii "boom") = ascii "boom" := by decide +kernel
  have hclean : ∀ e, some (GoError.other (ascii "boom") []) = some e → 0 ∉ kept (redact e.text) ∧
      ((redact e.text).length ≤ errorMax → validString (redact e.text) = true) := by
    intro e he
    obtain rfl := Option.some.inj he
    rw [GoError.text, hredact]
    decide +kernel
  exact (outcome_recorded_held_iff hrun hclaim hrest (by decide) (List.get_mem _ _) (by decide) (by decide)
    (by decide) _).mpr hclean

/-- A handler that fails with a byte that is not UTF-8: the lease is held, and the statement is refused, for a
`Terminal` as for an error to be retried. -/
theorem outcome_refused_invalid_utf8 :
    (∃ es, Db.Run id id (.empty 0) es claimedDb) ∧ LeaseHeld defaultWorker claimedJob claimedDb ∧
      defaultWorker.record claimedDb.now claimedJob 0 claimedDb.rows (some (.other [0x62, 0xFF] [])) =
        .error .invalidText ∧
      defaultWorker.record claimedDb.now claimedJob 0 claimedDb.rows
        (some (.terminal (.other [0x62, 0xFF] []))) = .error .invalidText := by
  have hplain : textParam (safeError [0x62, 0xFF]) = none := by
    have hredact : redact [0x62, 0xFF] = [0x62, 0xFF] := by decide +kernel
    rw [safeError, hredact, truncate_of_le (by decide)]
    decide +kernel
  have hterminal : textParam (safeError (ascii "terminal: " ++ [0x62, 0xFF])) = none := by
    have hredact : redact (ascii "terminal: " ++ [0x62, 0xFF]) = ascii "terminal: " ++ [0x62, 0xFF] := by
      decide +kernel
    rw [safeError, hredact, truncate_of_le (by decide)]
    decide +kernel
  refine ⟨⟨_, Lts.Run.of_replay (Db.step id id) claimedCalls _⟩, claimedJob_held, ?_, ?_⟩
  · rw [Worker.record, GoError.text, hplain]
  · rw [Worker.record, GoError.text, GoError.text, hterminal]

end Vizra.Jobs
