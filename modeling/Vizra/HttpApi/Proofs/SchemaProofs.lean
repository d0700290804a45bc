import Vizra.HttpApi.Setup
import Vizra.OwnerClaim.Proofs.AttemptProofs
import Vizra.OwnerClaim.Proofs.RefusalProofs

/-!
# Which accepted inputs the schema refuses

Validator and schema differ in one thing: the validator's `\s` is narrower than the `[[:space:]]` of
`users_email_shape`, and it lets U+0000 pass, which `text` cannot hold. An email without such characters is
never the cause of a CHECK violation or of a 500, in any run; one with such a character is, as soon as its
claim has a live token.
-/

namespace Vizra.HttpApi

open Go Vizra.Pg Vizra.OwnerClaim

variable {env : Env} {s s' : St} {i : Nat} {l : OwnerClaim.Label} {a : Act} {c : ClaimCall} {r : TokenRow}

/-- No character that `text` or `users_email_shape` refuses. -/
def Clean (env : Env) (email : String) : Prop :=
  ∀ ch ∈ email.toList, ch ≠ Char.ofNat 0 ∧ env.pgSpace ch = false

theorem clean_iff (h : Accepted env c.input) (hat : env.pgSpace '@' = false)
    (hdot : env.pgSpace '.' = false) :
    Clean env c.input.email ↔ SchemaAccepts env c.input.email := by
  rw [SchemaAccepts, h.emailCheck_iff hat hdot, storable, List.all_eq_true]
  simp only [bne_iff_ne]
  exact ⟨fun hc => ⟨fun x hx => (hc x hx).1, fun x hx => (hc x hx).2⟩, fun hc x hx => ⟨hc.1 x hx, hc.2 x hx⟩⟩

/-- The reply to a CHECK violation, or a 500. -/
def Reply.schemaRefusal (rep : Reply) : Bool :=
  rep = .of (badRequest "one of the submitted values is not acceptable") || rep = .of .other

/-- The result of `Claim` is answered by a CHECK violation or a 500. -/
def SchemaRefuses (r : Result) : Prop := ∃ limited, (claimReply limited r).2.schemaRefusal = true

/-! ## A clean email is not refused -/

theorem not_refuses_unique (con : Constraint) : ¬ SchemaRefuses (.failed (.unique con)) := by
  rintro ⟨limited, h⟩
  revert h
  cases limited <;> cases con <;> decide

theorem not_refuses_of_classified {r : Result} (h : r = .alreadyClaimed ∨ r = .tokenNotAccepted ∨
    r = .unavailable) : ¬ SchemaRefuses r := by
  rintro ⟨limited, hr⟩
  revert hr
  rcases h with rfl | rfl | rfl <;> cases limited <;> decide

theorem not_refuses_claimed {id : Uuid} {username : String} {role : UserRole} {g : Int} :
    ¬ SchemaRefuses (.claimed id username role g) := by
  rintro ⟨limited, h⟩
  simp [claimReply, claimError, Reply.schemaRefusal, Reply.of] at h

theorem firstFailing_mk {mk : Constraint → PgError} {checks : List (Constraint × Bool)} {e : PgError}
    (h : firstFailing mk checks = some e) : ∃ con, e = mk con := by
  obtain ⟨x, -, rfl⟩ := Option.map_eq_some_iff.mp h
  exact ⟨x.1, rfl⟩

/-- What the unique indexes refuse is all that refuses the rows of a clean input. -/
theorem violation_unique (hacc : Accepted env c.input) (hemail : emailCheck env c.input.email = true)
    {d : Digest} {db : Db} {e : PgError} (h : (c.params d).violation env db = some e) :
    ∃ con, e = .unique con := by
  obtain ⟨huser, hcred⟩ := checks_params hacc hemail d
  rw [ClaimOwnerParams.violation, userViolation, credentialViolation, huser, hcred, Option.none_or,
    Option.none_or, Option.or_eq_some_iff] at h
  rcases h with h | ⟨-, h⟩ <;> exact firstFailing_mk h

theorem redeem_unique (hacc : Accepted env c.input) (hemail : emailCheck env c.input.email = true)
    {d : Digest} {t : Time} {db : Db} {e : PgError}
    (h : (c.params d).redeem env t db = .failed e) : ∃ con, e = .unique con := by
  unfold ClaimOwnerParams.redeem at h
  split at h
  · cases h
  · split at h
    · cases hv : (c.params d).violation env db with
      | none => rw [hv] at h; cases h
      | some e' =>
        rw [hv] at h
        cases h
        exact violation_unique hacc hemail hv
    · cases h

/-- The examination of an accepted input reports no field. -/
theorem examineToken_ok (hacc : Accepted env c.input) : ∃ o, examineToken env s c.input = .ok o := by
  unfold examineToken
  rw [hacc.validate]
  cases s.db.token with
  | none => exact ⟨none, rfl⟩
  | some r =>
    simp only
    split
    · exact ⟨some r.token_sha256, rfl⟩
    · exact ⟨none, rfl⟩

/-- Where the call of a clean claim can be. -/
def Unrefused (c : ClaimCall) : Proc → Prop
  | .claim c' pc => c' = c ∧
    match pc with
    | .begin q | .gate _ q | .redeem _ q | .redeeming _ q => ∃ d, q = c.params d
    | _ => True
  | .done r => ¬ SchemaRefuses r
  | _ => False

theorem act_unrefused {p : Proc} (hacc : Accepted env c.input) (hcor : storable c.correlationID = true)
    (hemail : emailCheck env c.input.email = true) (hstore : storable c.input.email = true)
    (hp : Unrefused c p) (h : s.act env p = some a) : Unrefused c a.next := by
  cases p with
  | idle | mint m pc | supersede caller pc | boot b pc => exact hp.elim
  | done r => cases h
  | claim c' pc =>
    obtain ⟨rfl, hpc⟩ := hp
    simp only [St.act] at h
    cases pc with
    | check =>
      simp only [claimAct] at h
      split at h <;> cases h
      · exact not_refuses_of_classified (Or.inl rfl)
      · exact ⟨rfl, trivial⟩
    | examine =>
      obtain ⟨o, ho⟩ := examineToken_ok (s := s) hacc
      simp only [claimAct, ho] at h
      cases o with
      | none => cases h; exact ⟨rfl, trivial⟩
      | some d => cases h; exact ⟨rfl, trivial⟩
    | classify =>
      cases h
      simp only [Act.next]
      split
      · exact not_refuses_of_classified (Or.inl rfl)
      · exact not_refuses_of_classified (Or.inr (Or.inl rfl))
    | hash d => cases h; exact ⟨rfl, d, rfl⟩
    | begin q => cases h; exact ⟨rfl, hpc⟩
    | gate t q =>
      simp only [claimAct] at h
      split at h <;> cases h
      · exact not_refuses_of_classified (Or.inl rfl)
      · exact ⟨rfl, hpc⟩
    | redeem t q =>
      obtain ⟨d, rfl⟩ := hpc
      simp only [claimAct, storable_params hacc hstore d] at h
      split at h
      · rename_i hn; cases hn
      · split at h <;> cases h
        · exact ⟨rfl, d, rfl⟩
        · exact ⟨rfl, trivial⟩
    | redeeming t q =>
      obtain ⟨d, rfl⟩ := hpc
      simp only [claimAct] at h
      split at h
      · split at h <;> cases h
        · exact ⟨rfl, trivial⟩
        · rename_i e hfail
          -- what is left is a unique index, which is answered as a conflict
          obtain ⟨con, rfl⟩ := redeem_unique hacc hemail hfail
          exact not_refuses_unique con
        · exact ⟨rfl, trivial⟩
      · cases h
    | audit row u cr =>
      obtain ⟨e, he⟩ := emit_succeededEvent hcor u
      simp only [claimAct, he] at h
      cases h
      exact ⟨rfl, trivial⟩
    | commit row u cr e => cases h; exact not_refuses_claimed

/-- In every run the call of a clean claim stays clear of the schema. -/
theorem unrefused_of_run {now : Time} {ls : List OwnerClaim.Label} (hacc : Accepted env c.input)
    (hcor : storable c.correlationID = true) (hemail : emailCheck env c.input.email = true)
    (hstore : storable c.input.email = true) (hrun : St.Run env anyStep (.init now) ls s) :
    OwnerClaim.Label.spawn i (.claim c) ∈ ls → Unrefused c (s.procs i) := by
  refine hrun.inv_events
    (I := fun ls s => OwnerClaim.Label.spawn i (.claim c) ∈ ls → Unrefused c (s.procs i)) (by simp) ?_
  rintro ls s l s' hi ⟨-, hs⟩ hmem
  by_cases hmove : s'.procs i = s.procs i
  · rw [hmove]
    refine hi ?_
    rcases List.mem_append.mp hmem with hmem | hmem
    · exact hmem
    · -- a call that starts here moves
      obtain rfl := (List.mem_singleton.mp hmem).symm
      simp only [Lts.graph, St.step] at hs
      split at hs
      · rename_i hidle
        obtain rfl := Option.some.inj hs
        rw [St.apply_procs_self, hidle] at hmove
        cases hmove
      · cases hs
  · obtain ⟨a, hm, rfl⟩ := moves_of_ne hs hmove
    rw [St.apply_procs_self]
    cases hm with
    | exec ha =>
      have hmem : OwnerClaim.Label.spawn i (.claim c) ∈ ls := by simpa using hmem
      exact act_unrefused hacc hcor hemail hstore (hi hmem) ha
    | @spawn call hidle =>
      rcases List.mem_append.mp hmem with hmem | hmem
      · have := hi hmem
        rw [hidle] at this
        exact this.elim
      · obtain ⟨-, rfl⟩ := OwnerClaim.Label.spawn.inj (List.mem_singleton.mp hmem)
        exact ⟨rfl, trivial⟩
    | abort hr => exact not_refuses_of_classified (Or.inr (Or.inr rfl))

/-! ## Any other email is -/

def mintLabels (raw : String) : List OwnerClaim.Label :=
  .spawn 0 (.mint { exampleMint with raw }) :: List.replicate 8 (.exec 0)

/-- A fresh instance after a mint of the token `raw`. -/
def minted (env : Env) (raw : String) : St :=
  (Lts.exec (St.step env) (.init 0) (mintLabels raw)).getD (.init 0)

theorem minted_run (env : Env) (raw : String) :
    St.Run env anyStep (.init 0) (mintLabels raw) (minted env raw) := by
  have hexec : Lts.exec (St.step env) (.init 0) (mintLabels raw) = some (minted env raw) := rfl
  exact (Lts.Run.of_exec hexec).mono fun _ _ _ h => ⟨trivial, h⟩

theorem minted_open (env : Env) (raw : String) :
    Open env (mintRow 0 (env.sha256 raw.toList) (toInterval hour) none) (minted env raw) :=
  ⟨rfl, rfl, rfl, rfl⟩

theorem exists_refused (hvalid : c.input.validate env = .ok ()) (hnot : ¬ SchemaAccepts env c.input.email) :
    ∃ ls s e, St.Run env anyStep (.init 0) ls s ∧ OwnerClaim.Label.spawn 1 (.claim c) ∈ ls ∧
      s.procs 1 = .done (.failed e) ∧ (e = .invalidText ∨ e = .check .users_email_shape) := by
  -- the token that the claim presents, as a mint can draw it
  obtain ⟨raw, hraw⟩ : ∃ raw : String, normalize env c.input.token = raw.toList :=
    ⟨String.ofList (normalize env c.input.token), String.toList_ofList.symm⟩
  have hopen := minted_open env raw
  have hidle : (minted env raw).procs 1 = .idle := rfl
  have hstep : (minted env raw).step env (.spawn 1 (.claim c)) =
      some ((minted env raw).apply 1 (.goto (.claim c .check))) := by
    simp [St.step, hidle, Call.start]
  have halone : Alone env anyStep ((minted env raw).apply 1 (.goto (.claim c .check))) 1
      (mintRow 0 (env.sha256 raw.toList) (toInterval hour) none) c .check
      ((minted env raw).apply 1 (.goto (.claim c .check))) :=
    ⟨⟨[], .refl⟩, ⟨hopen.users, hopen.credentials, hopen.token, hopen.live⟩, rfl,
      St.apply_procs_self _ 1 _⟩
  obtain ⟨ls, s, e, hrun, hdone, he⟩ :=
    halone.refused (fun _ => trivial) ⟨hvalid, congrArg env.sha256 hraw⟩ hnot
  refine ⟨_, s, e, ((minted_run env raw).tail ⟨trivial, hstep⟩).trans hrun, ?_, hdone, he⟩
  simp

/-! ## Agreement -/

/-- For an input that the validator accepts: the schema accepts its texts, and no run of its claim is
answered by a CHECK violation or a 500, exactly if the email has neither U+0000 nor a blank of the
schema. -/
theorem validator_agrees_iff (hat : env.pgSpace '@' = false) (hdot : env.pgSpace '.' = false)
    (hcor : storable c.correlationID = true) (hvalid : c.input.validate env = .ok ()) :
    ((usernameCheck c.input.username = true ∧ emailCheck env c.input.email = true ∧
      storable c.input.username = true ∧ storable c.input.email = true) ↔ Clean env c.input.email) ∧
    ((∀ now ls s i r, St.Run env anyStep (.init now) ls s → OwnerClaim.Label.spawn i (.claim c) ∈ ls →
      s.procs i = .done r → ¬ SchemaRefuses r) ↔ Clean env c.input.email) := by
  have hacc := accepted_of_validate hvalid
  rw [clean_iff hacc hat hdot]
  refine ⟨⟨fun h => ⟨h.2.2.2, h.2.1⟩,
    fun h => ⟨hacc.username, h.2, storable_username hacc.username, h.1⟩⟩, ?_, ?_⟩
  · intro hall
    by_contra hnot
    obtain ⟨ls, s, e, hrun, hmem, hdone, he⟩ := exists_refused hvalid hnot
    refine hall _ ls s 1 _ hrun hmem hdone ⟨false, ?_⟩
    rcases he with rfl | rfl <;> decide
  · rintro ⟨hstore, hemail⟩ now ls s i r hrun hmem hdone
    have hp := unrefused_of_run hacc hcor hemail hstore hrun hmem
    rw [hdone] at hp
    exact hp

theorem validator_agrees_example :
    usernameCheck exampleClaim.input.username = true ∧ emailCheck exampleEnv exampleClaim.input.email = true ∧
      storable exampleClaim.input.username = true ∧ storable exampleClaim.input.email = true := by
  have hclean : Clean exampleEnv exampleClaim.input.email := by
    have hall : exampleClaim.input.email.toList.all
        (fun ch => ch != Char.ofNat 0 && !exampleEnv.pgSpace ch) = true := by decide
    intro ch hch
    simpa using List.all_eq_true.mp hall ch hch
  exact (validator_agrees_iff (c := exampleClaim) (by decide) (by decide) (by decide)
    (by decide +kernel)).1.mpr hclean

def emailClaim (email : String) : ClaimCall :=
  { exampleClaim with input := { exampleClaim.input with email } }

/-- The claim, alone with its live token, takes `n` steps. -/
def aloneLabels (c : ClaimCall) (n : Nat) : List OwnerClaim.Label :=
  mintLabels exampleToken ++ .spawn 1 (.claim c) :: List.replicate n (.exec 1)

/-- An email with U+000B is answered by a CHECK violation, one with U+0000 by a 500. -/
theorem validator_disagrees :
    ((emailClaim "a\x0bb@example.org").input.validate exampleEnv = .ok () ∧
      ∃ s, Lts.Run (Lts.graph (St.step exampleEnv)) (.init 0)
          (aloneLabels (emailClaim "a\x0bb@example.org") 7) s ∧
        s.procs 1 = .done (.failed (.check .users_email_shape)) ∧
        claimReply false (.failed (.check .users_email_shape)) =
          (false, .error ⟨400, "bad_request", "one of the submitted values is not acceptable"⟩)) ∧
    ((emailClaim "a\x00b@example.org").input.validate exampleEnv = .ok () ∧
      ∃ s, Lts.Run (Lts.graph (St.step exampleEnv)) (.init 0)
          (aloneLabels (emailClaim "a\x00b@example.org") 6) s ∧
        s.procs 1 = .done (.failed .invalidText) ∧
        claimReply false (.failed .invalidText) =
          (false, .error ⟨500, "internal_error", "an internal error occurred"⟩)) := by
  refine ⟨⟨by decide +kernel, ?_⟩, by decide +kernel, ?_⟩
  · obtain ⟨s, hs, hp⟩ := Lts.Run.of_exec_any
      (P := fun s : St => (s.procs 1).returned (.failed (.check .users_email_shape)))
      (by decide +kernel : (Lts.exec (St.step exampleEnv) (.init 0)
        (aloneLabels (emailClaim "a\x0bb@example.org") 7)).any _ = true)
    exact ⟨s, hs, Proc.returned_iff.mp hp, by decide⟩
  · obtain ⟨s, hs, hp⟩ := Lts.Run.of_exec_any
      (P := fun s : St => (s.procs 1).returned (.failed .invalidText))
      (by decide +kernel : (Lts.exec (St.step exampleEnv) (.init 0)
        (aloneLabels (emailClaim "a\x00b@example.org") 6)).any _ = true)
    exact ⟨s, hs, Proc.returned_iff.mp hp, by decide⟩

end Vizra.HttpApi
