import Vizra.Credential.Proofs.EncodeProofs
import Vizra.OwnerClaim.Proofs.InputProofs
import Vizra.OwnerClaim.Proofs.SafetyProofs

/-!
# An attempt with a live token

What the statements of a claim answer when its token is live: its rows pass every CHECK if the schema
accepts the email, its audit row is always accepted, and alone it gets to its redeem, where an email that
the schema refuses ends it with an error.
-/

namespace Vizra.OwnerClaim

open Go Vizra.Pg

variable {env : Env} {s s₀ : St} {i : Nat} {a : Act} {c : ClaimCall} {r : TokenRow}
  {G : St → Label → Prop}

/-- A claim that presents the token of `r`, with an input that the validator accepts. -/
structure Presents (env : Env) (r : TokenRow) (c : ClaimCall) : Prop where
  valid : c.input.validate env = .ok ()
  digest : c.input.digest env = r.token_sha256

/-- `text` can hold the email, and `users_email_shape` accepts it. -/
def SchemaAccepts (env : Env) (email : String) : Prop :=
  storable email = true ∧ emailCheck env email = true

/-! ## The rows of a claim -/

theorem storable_params (hacc : Accepted env c.input) (hstore : storable c.input.email = true)
    (d : Digest) : (c.params d).storable = true := by
  simp [ClaimOwnerParams.storable, ClaimCall.params, storable_username hacc.username, hstore,
    Credential.storable_encode]

/-- The CHECKs of the two rows of an accepted input. -/
theorem checks_params (hacc : Accepted env c.input) (hemail : emailCheck env c.input.email = true)
    (d : Digest) :
    firstFailing .check (userChecks env (c.params d).user) = none ∧
      firstFailing .check (credentialChecks (c.params d).credential) = none := by
  have hsalt : c.salt.toList.length = 16 := by simp
  have htag : c.tag.toList.length = 32 := by simp
  have hsize := Credential.size_encode hsalt htag
  constructor
  · simp [firstFailing_eq_none, userChecks, ClaimOwnerParams.user, ClaimCall.params, hemail, usernameCheck,
      hacc.username]
  · simp [firstFailing_eq_none, credentialChecks, ClaimOwnerParams.credential, ClaimCall.params,
      Credential.hasPrefix_encode, hsize]

theorem storable_uuidText (id : Uuid) : storable (uuidText id) = true := by
  have hdigit : ∀ n < 16, (Nat.digitChar n != Char.ofNat 0) = true := by decide
  have hall : ∀ c ∈ uuidDigits id, (c != Char.ofNat 0) = true := by
    intro c hc
    obtain ⟨k, -, rfl⟩ := List.mem_map.mp hc
    exact hdigit _ (Nat.mod_lt _ (by decide))
  have hdash : ('-' != Char.ofNat 0) = true := by decide
  rw [storable, List.all_eq_true]
  intro c hc
  simp only [uuidText, String.toList_ofList, List.mem_append, List.mem_cons] at hc
  rcases hc with (((hc | rfl | hc) | rfl | hc) | rfl | hc) | rfl | hc
  · exact hall c (List.mem_of_mem_take hc)
  · exact hdash
  · exact hall c (List.mem_of_mem_drop (List.mem_of_mem_take hc))
  · exact hdash
  · exact hall c (List.mem_of_mem_drop (List.mem_of_mem_take hc))
  · exact hdash
  · exact hall c (List.mem_of_mem_drop (List.mem_of_mem_take hc))
  · exact hdash
  · exact hall c (List.mem_of_mem_drop hc)

/-- The audit row of a claim is accepted. -/
theorem emit_succeededEvent (h : storable c.correlationID = true) (u : User) :
    ∃ e, Audit.emit (succeededEvent c u) = .ok e := by
  have hip : (((succeededEvent c u).row.ipPrefix).all Audit.valid) = true := by
    simp only [Audit.Event.row]
    cases hf : Option.filter Audit.valid (succeededEvent c u).ipPrefix with
    | none => rfl
    | some x => exact (Option.filter_eq_some_iff.mp hf).2
  have hcor : ((succeededEvent c u).row.correlation_id.all Pg.storable) = true := by
    simp only [Audit.Event.row, succeededEvent]
    split
    · rfl
    · exact h
  have hsub : ((succeededEvent c u).row.subject_id.all Pg.storable) = true := storable_uuidText u.id
  have hactor : Audit.Constraint.holds (succeededEvent c u).row .audit_events_actor_identified = true := rfl
  have hshape : Audit.Constraint.holds (succeededEvent c u).row .audit_events_ip_prefix_shape = true := hip
  refine ⟨(succeededEvent c u).row, ?_⟩
  simp [Audit.emit, hcor, hsub, hactor, hshape]

/-! ## The token -/

/-- The state in which the token can still be redeemed. -/
structure Open (env : Env) (r : TokenRow) (s : St) : Prop where
  users : s.db.users = []
  credentials : s.db.credentials = []
  token : s.db.token = some r
  live : r.live s.now = true

theorem Open.redeemable (ho : Open env r s) {t : Time} (ht : t ≤ s.now) :
    r.redeemable r.token_sha256 t = true := by
  simp [TokenRow.redeemable, TokenRow.live_of_le ho.live ht]

theorem Open.no_users (ho : Open env r s) : anyUserExists s.db = false := anyUserExists_of_nil ho.users

/-- The examination of a live token succeeds. -/
theorem Presents.examine (h : Presents env r c) (ho : Open env r s) :
    examineToken env s c.input = .ok (some r.token_sha256) := by
  simp [examineToken, h.valid, ho.token, h.digest, ho.live]

theorem Open.selects (ho : Open env r s) (c : ClaimCall) {t : Time} (ht : t ≤ s.now) :
    (c.params r.token_sha256).selects t s.db = true := by
  have hr : r.redeemable (c.params r.token_sha256).token_sha256 t = true := ho.redeemable ht
  simp [ClaimOwnerParams.selects, ho.token, hr, ho.no_users]

/-! ## An attempt without competition -/

/-- A run from `s₀` has brought call `i`, the claim `c`, to `pc`; the token is live and nobody has the row. -/
structure Alone (env : Env) (G : St → Label → Prop) (s₀ : St) (i : Nat) (r : TokenRow) (c : ClaimCall)
    (pc : ClaimPc) (s : St) : Prop where
  reached : ∃ ls, St.Run env G s₀ ls s
  live : Open env r s
  lock : s.tokenLock = none
  proc : s.procs i = .claim c pc

section

variable (hG : ∀ s, G s (.exec i))

include hG

theorem Alone.exec {pc : ClaimPc} (h : Alone env G s₀ i r c pc s) (ha : claimAct env s c pc = some a) :
    ∃ ls, St.Run env G s₀ ls (s.apply i a) := by
  obtain ⟨ls, hrun⟩ := h.reached
  have hstep : s.step env (.exec i) = some (s.apply i a) := by simp [St.step, h.proc, St.act, ha]
  exact ⟨_, hrun.tail ⟨hG s, hstep⟩⟩

theorem Alone.goto {pc : ClaimPc} (h : Alone env G s₀ i r c pc s) (pc' : ClaimPc)
    (ha : claimAct env s c pc = some (.goto (.claim c pc'))) :
    ∃ s', Alone env G s₀ i r c pc' s' ∧ s'.now = s.now :=
  ⟨_, ⟨h.exec hG ha, ⟨h.live.users, h.live.credentials, h.live.token, h.live.live⟩, h.lock,
    St.apply_procs_self s i _⟩, rfl⟩

theorem Alone.redeem (h : Alone env G s₀ i r c .check s) (hp : Presents env r c) :
    ∃ s', Alone env G s₀ i r c (.redeem s'.now (c.params r.token_sha256)) s' := by
  obtain ⟨s₁, h, -⟩ := h.goto hG .examine (by simp [claimAct, h.live.no_users])
  obtain ⟨s₂, h, -⟩ := h.goto hG (.hash r.token_sha256) (by simp [claimAct, hp.examine h.live])
  obtain ⟨s₃, h, -⟩ := h.goto hG (.begin (c.params r.token_sha256)) rfl
  obtain ⟨s₄, h, hnow₄⟩ := h.goto hG (.gate s₃.now (c.params r.token_sha256)) rfl
  obtain ⟨s₅, h, hnow₅⟩ := h.goto hG (.redeem s₃.now (c.params r.token_sha256))
    (by simp [claimAct, h.live.no_users])
  exact ⟨s₅, by rwa [hnow₅, hnow₄]⟩

/-- The redeem of an email that `text` cannot hold fails with 22021. -/
theorem Alone.invalidText {t : Time} {d : Digest} (h : Alone env G s₀ i r c (.redeem t (c.params d)) s)
    (hstore : storable c.input.email = false) :
    ∃ ls s', St.Run env G s₀ ls s' ∧ s'.procs i = .done (.failed .invalidText) := by
  have hq : (c.params d).storable = false := by
    simp [ClaimOwnerParams.storable, ClaimCall.params, hstore]
  obtain ⟨ls, hrun⟩ := h.exec hG (a := .finish (.failed .invalidText)) (by simp [claimAct, hq])
  exact ⟨ls, _, hrun, St.apply_procs_self s i _⟩

/-- The redeem of an email with a blank of the schema fails with 23514. -/
theorem Alone.emailShape (h : Alone env G s₀ i r c (.redeem s.now (c.params r.token_sha256)) s)
    (hacc : Accepted env c.input) (hstore : storable c.input.email = true)
    (hemail : emailCheck env c.input.email = false) :
    ∃ ls s', St.Run env G s₀ ls s' ∧ s'.procs i = .done (.failed (.check .users_email_shape)) := by
  have hq := storable_params hacc hstore r.token_sha256
  obtain ⟨s₁, h, hnow⟩ := h.goto hG (.redeeming s.now (c.params r.token_sha256))
    (by simp [claimAct, hq, h.live.selects c (le_refl _)])
  have hviol : (c.params r.token_sha256).violation env s₁.db = some (.check .users_email_shape) := by
    simp [ClaimOwnerParams.violation, userViolation, userChecks, firstFailing, ClaimOwnerParams.user,
      ClaimCall.params, hemail]
  have hlive : r.redeemable (c.params r.token_sha256).token_sha256 s.now = true :=
    h.live.redeemable (le_of_eq hnow.symm)
  have hfail : (c.params r.token_sha256).redeem env s.now s₁.db = .failed (.check .users_email_shape) := by
    simp [ClaimOwnerParams.redeem, h.live.token, hlive, hviol]
  obtain ⟨ls, hrun⟩ := h.exec hG (a := .finish (.failed (.check .users_email_shape)))
    (by simp only [claimAct, h.lock, hfail, if_true])
  exact ⟨ls, _, hrun, St.apply_procs_self s₁ i _⟩

/-- An attempt with an email that the schema refuses can end with the schema's error. -/
theorem Alone.refused (h : Alone env G s₀ i r c .check s) (hp : Presents env r c)
    (hnot : ¬ SchemaAccepts env c.input.email) :
    ∃ ls s' e, St.Run env G s₀ ls s' ∧ s'.procs i = .done (.failed e) ∧
      (e = .invalidText ∨ e = .check .users_email_shape) := by
  obtain ⟨s₁, h⟩ := h.redeem hG hp
  cases hstore : storable c.input.email with
  | false =>
    obtain ⟨ls, s', hrun, hdone⟩ := h.invalidText hG hstore
    exact ⟨ls, s', _, hrun, hdone, Or.inl rfl⟩
  | true =>
    have hemail : emailCheck env c.input.email = false := by simpa [SchemaAccepts, hstore] using hnot
    obtain ⟨ls, s', hrun, hdone⟩ := h.emailShape hG (accepted_of_validate hp.valid) hstore hemail
    exact ⟨ls, s', _, hrun, hdone, Or.inr rfl⟩

end

end Vizra.OwnerClaim
