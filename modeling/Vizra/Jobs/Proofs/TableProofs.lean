import Vizra.Jobs.Queries

/-!
# What a statement can do to the `jobs` table

`TableInv` is the invariant of the table: the two unique indexes hold and every row meets the four
CHECK constraints on the life of a job and is not an exhausted queued row. `updateWhere_cases` says
once what an UPDATE does to such a table, and each statement is an instance of it.
-/

namespace Vizra.Jobs

open Go Vizra.Pg

variable {r : Job} {rows : Table} {f : Job → Job} {p : Job → Bool}

/-- The constraints on the life of a job. The others bound the size of caller-supplied text. -/
def lifeConstraints : List CheckConstraint :=
  [.jobs_attempts_bounded, .jobs_max_attempts_positive, .jobs_lease_complete, .jobs_terminal_finished]

/-- The invariant of one row. -/
structure RowInv (r : Job) : Prop where
  attempts_nonneg : 0 ≤ r.attempts
  attempts_le : r.attempts ≤ r.max_attempts
  max_pos : 1 ≤ r.max_attempts
  lease : r.state = .leased → r.leased_until.isSome = true ∧ r.leased_by.isSome = true
  finished : r.state.live = r.finished_at.isNone
  budget : r.state = .queued → r.attempts < r.max_attempts

/-- The invariant of the table. -/
structure TableInv (rows : Table) : Prop where
  pkey : (rows.map Job.id).Nodup
  idem : (rows.filterMap idemKey).Nodup
  row : ∀ r ∈ rows, RowInv r

/-- An error that is not about the life of a job or the live key. -/
def PgError.sizeOnly : PgError → Prop
  | .check cs => ∀ c ∈ cs, c ∉ lifeConstraints
  | .unique _ => False
  | .invalidText => True

theorem tableInv_nil : TableInv [] := ⟨by simp, by simp, by simp⟩

theorem RowInv.holds (h : RowInv r) {c : CheckConstraint} (hc : c ∈ lifeConstraints) : c.holds r = true := by
  obtain ⟨h1, h2, h3, h4, h5, -⟩ := h
  simp only [lifeConstraints, List.mem_cons, List.not_mem_nil, or_false] at hc
  rcases hc with rfl | rfl | rfl | rfl
  · simp [CheckConstraint.holds, h1, h2]
  · simp [CheckConstraint.holds, h3]
  · by_cases hs : r.state = .leased
    · simp [CheckConstraint.holds, h4 hs]
    · simp [CheckConstraint.holds, hs]
  · simp [CheckConstraint.holds, h5]

theorem RowInv.violated_not_life (h : RowInv r) {c : CheckConstraint} (hc : c ∈ violated r) : c ∉ lifeConstraints := by
  intro hl
  have hv := (List.mem_filter.mp hc).2
  rw [h.holds hl] at hv
  simp at hv

theorem violated_eq_nil_iff : violated r = [] ↔ ∀ c : CheckConstraint, c.holds r = true := by
  rw [violated, List.filter_eq_nil_iff]
  constructor
  · intro h c
    have hc : c ∈ CheckConstraint.all := by cases c <;> decide
    simpa using h c hc
  · intro h c _
    simp [h c]

/-- The row invariant is all constraints but those on the size of a text. -/
theorem RowInv.violated_nil (h : RowInv r) (hcorr : CheckConstraint.jobs_correlation_bounded.holds r = true)
    (hkind : CheckConstraint.jobs_kind_bounded.holds r = true)
    (herr : CheckConstraint.jobs_last_error_bounded.holds r = true)
    (hpay : CheckConstraint.jobs_payload_bounded.holds r = true) : violated r = [] := by
  rw [violated_eq_nil_iff]
  intro c
  cases c with
  | jobs_attempts_bounded | jobs_max_attempts_positive | jobs_lease_complete | jobs_terminal_finished =>
    exact h.holds (by decide)
  | jobs_correlation_bounded => exact hcorr
  | jobs_kind_bounded => exact hkind
  | jobs_last_error_bounded => exact herr
  | jobs_payload_bounded => exact hpay

/-- Rows written under the row invariant can fail `store` only on the size of a text. -/
theorem store_cases {written : List Job} (hw : ∀ r ∈ written, RowInv r) (hp : (rows.map Job.id).Nodup)
    (hi : (rows.filterMap idemKey).Nodup) :
    (∃ e, store rows written = .error e ∧ e.sizeOnly) ∨ store rows written = .ok rows := by
  unfold store
  split_ifs with h1 h2 h3
  · left
    refine ⟨_, rfl, fun c hc => ?_⟩
    obtain ⟨r, hr, hc⟩ := List.mem_flatMap.mp hc
    exact (hw r hr).violated_not_life hc
  · exact absurd hp (by simpa [UniqueIndex.holds] using h2)
  · exact absurd hi (by simpa [UniqueIndex.holds] using h3)
  · exact Or.inr rfl

theorem store_ok {written : List Job} (hw : written.flatMap violated = []) (hp : (rows.map Job.id).Nodup)
    (hi : (rows.filterMap idemKey).Nodup) : store rows written = .ok rows := by
  simp [store, hw, UniqueIndex.holds, hp, hi]

theorem withTexts_cases {α : Type} (texts : List (Option String)) (x : Except PgError α) :
    withTexts texts x = .error .invalidText ∨ withTexts texts x = x := by
  unfold withTexts
  split_ifs
  · exact Or.inr rfl
  · exact Or.inl rfl

/-- A map that keeps a partial key or drops it gives a sublist of the keys. -/
theorem filterMap_sublist {α β : Type} {f g : α → Option β} :
    ∀ {l : List α}, (∀ a ∈ l, g a = f a ∨ g a = none) → (l.filterMap g).Sublist (l.filterMap f) := by
  intro l
  induction l with
  | nil => intro _; simp
  | cons a l ih =>
    intro h
    have ih' := ih fun b hb => h b (List.mem_cons_of_mem _ hb)
    rcases h a (List.mem_cons_self ..) with ha | ha
    · cases hf : f a with
      | none => rw [List.filterMap_cons_none (ha.trans hf), List.filterMap_cons_none hf]; exact ih'
      | some b =>
        rw [List.filterMap_cons_some (ha.trans hf), List.filterMap_cons_some hf]
        exact ih'.cons_cons b
    · rw [List.filterMap_cons_none ha]
      cases hf : f a with
      | none => rw [List.filterMap_cons_none hf]; exact ih'
      | some b => rw [List.filterMap_cons_some hf]; exact ih'.cons b

theorem mem_updated {x : Job} : x ∈ updated rows p f ↔ ∃ r ∈ rows, (p r = true ∧ x = f r) ∨ (p r = false ∧ x = r) := by
  simp only [updated, List.mem_map]
  constructor
  · rintro ⟨r, hr, rfl⟩
    refine ⟨r, hr, ?_⟩
    cases hp : p r <;> simp
  · rintro ⟨r, hr, ⟨hp, rfl⟩ | ⟨hp, rfl⟩⟩
    · exact ⟨r, hr, by simp [hp]⟩
    · exact ⟨_, hr, by simp [hp]⟩

/-- An UPDATE that keeps the id gives the same ids in the same order. -/
theorem updated_ids (hid : ∀ r, (f r).id = r.id) : (updated rows p f).map Job.id = rows.map Job.id := by
  rw [updated, List.map_map]
  refine List.map_congr_left fun r _ => ?_
  by_cases hp : p r = true <;> simp [hp, hid]

/-- What an UPDATE may do to a row of the table: it keeps the id, the row invariant, and the entry in the live
index or its absence. -/
structure KeepsRow (rows : Table) (p : Job → Bool) (f : Job → Job) : Prop where
  id_eq : ∀ r, (f r).id = r.id
  inv : ∀ r ∈ rows, p r = true → RowInv r → RowInv (f r)
  key : ∀ r ∈ rows, p r = true → idemKey (f r) = idemKey r ∨ idemKey (f r) = none

theorem TableInv.updated (h : TableInv rows) (hf : KeepsRow rows p f) : TableInv (updated rows p f) := by
  refine ⟨?_, ?_, ?_⟩
  · rw [updated_ids hf.id_eq]; exact h.pkey
  -- an UPDATE only removes entries from the live index
  · refine h.idem.sublist ?_
    rw [Jobs.updated, List.filterMap_map]
    refine filterMap_sublist fun r hr => ?_
    by_cases hp : p r = true
    · simpa [hp] using hf.key r hr hp
    · simp [hp]
  · intro x hx
    obtain ⟨r, hr, ⟨hp, rfl⟩ | ⟨-, rfl⟩⟩ := mem_updated.mp hx
    · exact hf.inv r hr hp (h.row r hr)
    · exact h.row _ hr

/-- An UPDATE on a table with the invariant: it fails on the size of a text and changes nothing, or
it leaves the updated table, which has the invariant again. -/
theorem updateWhere_cases (h : TableInv rows) (hf : KeepsRow rows p f) :
    (∃ e, updateWhere rows p f = .error e ∧ e.sizeOnly) ∨
      updateWhere rows p f = .ok (updated rows p f, (rows.filter p).map f) := by
  have hi := h.updated hf
  have hw : ∀ x ∈ (rows.filter p).map f, RowInv x := by
    intro x hx
    obtain ⟨r, hr, rfl⟩ := List.mem_map.mp hx
    obtain ⟨hr, hp⟩ := List.mem_filter.mp hr
    exact hf.inv r hr hp (h.row r hr)
  rcases store_cases hw hi.pkey hi.idem with ⟨e, he, hs⟩ | he
  · exact Or.inl ⟨e, by rw [updateWhere, he]; rfl, hs⟩
  · exact Or.inr (by rw [updateWhere, he]; rfl)

theorem updateHeld_cases (h : TableInv rows) {id : Uuid} {leased_by : Option String} (text : Option String)
    {guard : Job → Bool} (hf : KeepsRow rows (fun r => heldBy id leased_by r && guard r) f) :
    (∃ e, updateHeld rows id leased_by text guard f = .error e ∧ e.sizeOnly) ∨
      updateHeld rows id leased_by text guard f =
        .ok (updated rows (fun r => heldBy id leased_by r && guard r) f,
          (rows.filter fun r => heldBy id leased_by r && guard r).map f) := by
  unfold updateHeld
  rcases withTexts_cases [leased_by, text] (updateWhere rows (fun r => heldBy id leased_by r && guard r) f)
    with ht | ht
  · exact Or.inl ⟨_, ht, trivial⟩
  · rw [ht]; exact updateWhere_cases h hf

end Vizra.Jobs
