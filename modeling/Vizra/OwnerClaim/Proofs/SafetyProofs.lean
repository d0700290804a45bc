import Vizra.OwnerClaim.Proofs.StepProofs

/-!
# Safety of the owner claim

`ProcOk` says what the uncommitted writes of a call are, read against the committed rows: those of a
claim are an owner, its credential and a consumed token on an instance without users, those of the other
calls touch the token only. Together with the row lock this makes every commit all or nothing and lets at
most one claim succeed.
-/

namespace Vizra.OwnerClaim

open Go Vizra.Pg

variable {env : Env} {s s' : St} {i j : Nat} {l : Label} {a : Act} {p : Proc} {db : Db}

/-- The events of successful claims. -/
def succeeded (es : List Audit.Event) : List Audit.Event :=
  es.filter fun e => e.action = .ownerClaimSucceeded

theorem succeeded_append (es es' : List Audit.Event) :
    succeeded (es ++ es') = succeeded es ++ succeeded es' := List.filter_append ..

/-- The uncommitted rows of a claim that has redeemed the token. -/
structure Redeeming (db : Db) (row : TokenRow) (u : User) (cr : CredentialRow) : Prop where
  consumed : row.consumed_at.isSome = true
  owner : u.liveOwner = true
  credential : cr.user_id = u.id
  unclaimed : ∀ x ∈ db.users, x.liveOwner = false

/-- The event records that `u` claimed the instance. -/
def RecordsClaim (e : Audit.Event) (u : User) : Prop :=
  e.action = .ownerClaimSucceeded ∧ e.actor_user_id = some u.id

/-- What holds of a call, given the committed rows. -/
def ProcOk (db : Db) : Proc → Prop
  | .claim _ (.audit row u cr) => Redeeming db row u cr
  | .claim _ (.commit row u cr e) => Redeeming db row u cr ∧ RecordsClaim e u
  | .mint _ (.upsert _ es) | .mint _ (.upserting _ es) => succeeded es = []
  | .mint _ (.audit es row) | .mint _ (.commit es row) => succeeded es = [] ∧ row.consumed_at = none
  | .supersede _ (.audit row) => row.consumed_at = none
  | .supersede _ (.commit row e) => row.consumed_at = none ∧ succeeded [e] = []
  | .done (.claimed ..) => ∃ u ∈ db.users, u.liveOwner = true
  | _ => True

/-- What a commit adds: an owner with everything that belongs to it, or a token that is not consumed. -/
inductive CommitOk (db : Db) :
    TokenRow → List User → List CredentialRow → List Audit.Event → Result → Prop where
  | owner {row : TokenRow} {u : User} {cr : CredentialRow} {e : Audit.Event} (h : Redeeming db row u cr)
      (he : RecordsClaim e u) :
      CommitOk db row [u] [cr] [e] (.claimed u.id u.username u.role row.generation)
  | token {row : TokenRow} {es : List Audit.Event} {r : Result} (hrow : row.consumed_at = none)
      (hes : succeeded es = []) (hr : ∀ id n role g, r ≠ .claimed id n role g) : CommitOk db row [] [] es r

/-- What a move leads to. -/
def ActOk (db : Db) : Act → Prop
  | .goto q | .lockMint q | .hold q => ProcOk db q
  | .commit row us cs es r => CommitOk db row us cs es r
  | .finish r => ∀ id n role g, r ≠ .claimed id n role g

/-! ## Each call keeps to it -/

theorem Result.for_ne_claimed {r : Result} (h : ∀ id n role g, r ≠ .claimed id n role g) (c : Caller) :
    ∀ id n role g, r.for c ≠ .claimed id n role g := by
  cases c with
  | cli => exact h
  | boot => cases r <;> simp_all [Result.for, Result.forBoot]

theorem firstFailing_eq_none {mk : Constraint → PgError} {checks : List (Constraint × Bool)} :
    firstFailing mk checks = none ↔ ∀ c ∈ checks, c.2 = true := by
  simp [firstFailing]

@[simp] theorem ClaimOwnerParams.user_liveOwner (q : ClaimOwnerParams) : q.user.liveOwner = true := rfl

/-- The index `users_one_owner` let the owner in. -/
theorem ClaimOwnerParams.unclaimed_of_violation {q : ClaimOwnerParams}
    (h : q.violation env db = none) : ∀ x ∈ db.users, x.liveOwner = false := by
  simp only [violation, userViolation, userKeys, Option.or_eq_none_iff, firstFailing_eq_none,
    List.forall_mem_cons] at h
  simpa using h.1.2.2.2.2.1

theorem ClaimOwnerParams.redeem_redeemed {q : ClaimOwnerParams} {now : Time} {row : TokenRow}
    (h : q.redeem env now db = .redeemed row) :
    ∃ r, db.token = some r ∧ r.redeemable q.token_sha256 now = true ∧ row = r.consume now ∧
      q.violation env db = none := by
  unfold redeem at h
  split at h
  · cases h
  · split at h
    · split at h
      · cases h
      · cases h
        exact ⟨_, ‹_›, ‹_›, rfl, ‹_›⟩
    · cases h

theorem recordsClaim_of_emit {c : ClaimCall} {u : User} {e : Audit.Event}
    (h : Audit.emit (succeededEvent c u) = .ok e) : RecordsClaim e u := by
  rw [Audit.emit_eq_ok h]
  exact ⟨rfl, rfl⟩

theorem claimAct_ok {c : ClaimCall} {pc : ClaimPc} (hp : ProcOk s.db (.claim c pc))
    (h : claimAct env s c pc = some a) : ActOk s.db a := by
  cases pc <;> simp only [claimAct] at h
  case redeeming now q =>
    (repeat' split at h) <;> cases h
    · simp [ActOk, ProcOk]
    · simp [ActOk]
    -- redeemed: the unique index has let the row in, so no other owner is committed
    · rename_i row hr
      obtain ⟨r, -, -, rfl, hv⟩ := ClaimOwnerParams.redeem_redeemed hr
      exact ⟨rfl, rfl, rfl, ClaimOwnerParams.unclaimed_of_violation hv⟩
  case audit row u cr =>
    split at h <;> cases h
    · simp [ActOk]
    · exact ⟨hp, recordsClaim_of_emit ‹_›⟩
  case commit row u cr e =>
    cases h
    exact .owner hp.1 hp.2
  case classify =>
    cases h
    simp only [ActOk]
    split <;> simp
  all_goals
    (repeat' split at h) <;> cases h <;> simp [ActOk, ProcOk]

theorem mintRow_consumed_at (now : Time) (d : Digest) (ttl : Interval) (r : Option TokenRow) :
    (mintRow now d ttl r).consumed_at = none := by cases r <;> rfl

theorem mintAct_ok {m : MintCall} {pc : MintPc} (hp : ProcOk s.db (.mint m pc))
    (h : mintAct env s m pc = some a) : ActOk s.db a := by
  have hmap : ∀ r : Result, (∀ id n role g, r ≠ .claimed id n role g) → ActOk s.db (.finish (r.for m.caller)) :=
    fun r hr => Result.for_ne_claimed hr m.caller
  cases pc <;> simp only [mintAct] at h
  case check now =>
    split at h <;> cases h
    · exact hmap _ (by simp)
    · simp [ActOk, ProcOk]
  case state now =>
    (repeat' split at h) <;> cases h
    · simp [ActOk, ProcOk, succeeded]
    · exact hmap _ (by simp)
    · simp [ActOk, ProcOk, succeeded, tokenEvent]
  case upsert now es =>
    split at h <;> cases h
    · exact hmap _ (by simp)
    · exact hp
  case upserting now es =>
    (repeat' split at h) <;> cases h
    · simp [ActOk]
    · exact ⟨hp, mintRow_consumed_at ..⟩
  case audit es row =>
    cases h
    refine ⟨?_, hp.2⟩
    rw [succeeded_append, hp.1]
    simp [succeeded, tokenEvent]
  case commit es row =>
    cases h
    exact .token hp.2 hp.1 (Result.for_ne_claimed (by simp) _)
  case begin =>
    cases h
    simp [ActOk, ProcOk]
  case lock now =>
    split at h <;> cases h
    simp [ActOk, ProcOk]

theorem supersedeAct_ok {caller : Caller} {pc : SupersedePc} (hp : ProcOk s.db (.supersede caller pc))
    (h : supersedeAct s caller pc = some a) : ActOk s.db a := by
  have hnone : ActOk s.db (.finish ((Result.superseded 0).for caller)) :=
    Result.for_ne_claimed (by simp) caller
  cases pc <;> simp only [supersedeAct] at h
  case update now =>
    split at h <;> cases h
    · simp [ActOk, ProcOk]
    · exact hnone
  case updating now =>
    (repeat' split at h) <;> cases h
    · exact hnone
    · rename_i r hr
      -- the UPDATE selects unspent rows only
      have := (Option.filter_eq_some_iff.mp hr).2
      simp only [TokenRow.unspent, Bool.and_eq_true, Option.isNone_iff_eq_none] at this
      exact this.1
  case audit row =>
    cases h
    exact ⟨hp, by simp [succeeded, tokenEvent]⟩
  case commit row e =>
    cases h
    exact .token hp.1 hp.2 (Result.for_ne_claimed (by simp) _)
  case begin =>
    cases h
    simp [ActOk, ProcOk]

theorem bootAct_ok {b : BootCall} {pc : BootPc} (h : bootAct s b pc = some a) : ActOk s.db a := by
  cases pc <;> simp only [bootAct] at h
  all_goals
    split at h
    all_goals
      cases h
      simp [ActOk, ProcOk]

theorem St.act_ok (hp : ProcOk s.db p) (h : s.act env p = some a) : ActOk s.db a :=
  St.act_rule (P := fun p a => ProcOk s.db p → ActOk s.db a) (fun _ _ _ ha hp => claimAct_ok hp ha)
    (fun _ _ _ ha hp => mintAct_ok hp ha) (fun _ _ _ ha hp => supersedeAct_ok hp ha)
    (fun _ _ _ ha _ => bootAct_ok ha) h hp

theorem Call.start_ok (call : Call) : ProcOk db call.start := by cases call <;> simp [start, ProcOk]

theorem St.Moves.ok (hp : ProcOk s.db (s.procs i)) (h : s.Moves env i l a) : ActOk s.db a :=
  h.rule (P := fun p a => ProcOk s.db p → ActOk s.db a) (fun _ _ ha hp => St.act_ok hp ha)
    (fun call _ => call.start_ok) (fun _ _ => by simp [ActOk]) hp

/-! ## The invariant -/

/-- The call is a claim that succeeded. -/
def Proc.won : Proc → Bool
  | .done (.claimed ..) => true
  | _ => false

/-- What belongs to an owner is visible exactly if the owner is. -/
structure Together (db : Db) : Prop where
  credentials : db.credentials.map CredentialRow.user_id = db.users.map User.id
  events : (succeeded db.audit).map Audit.Event.actor_user_id = db.users.map fun u => some u.id
  consumed : (db.token.any fun r => r.consumed_at.isSome) = true → db.users ≠ []

structure SafeInv (s : St) : Prop where
  locks : LockInv s
  procs : ∀ i, ProcOk s.db (s.procs i)
  owners : ∀ u ∈ s.db.users, u.liveOwner = true
  one : s.db.users.length ≤ 1
  together : Together s.db
  winner : ∀ i j, (s.procs i).won = true → (s.procs j).won = true → i = j

theorem SafeInv.init (now : Time) : SafeInv (.init now) where
  locks := .init now
  procs i := by simp [St.init, ProcOk]
  owners := by simp [St.init, Db.empty]
  one := by simp [St.init, Db.empty]
  together := ⟨rfl, rfl, by simp [St.init, Db.empty]⟩
  winner := by simp [St.init, Proc.won]

/-- What a call without uncommitted writes relies on survives new users. -/
theorem ProcOk.mono {db' : Db} (hp : ProcOk db p) (hh : p.holds = false)
    (hsub : ∀ u ∈ db.users, u ∈ db'.users) : ProcOk db' p := by
  unfold ProcOk at hp ⊢
  -- of the calls that hold nothing only a winner reads the users
  split at hp <;> first | cases hh | skip
  case h_9 =>
    obtain ⟨u, hu, ho⟩ := hp
    exact ⟨u, hsub u hu, ho⟩
  all_goals exact hp

theorem Proc.won_of_running (h : p.running = true) : p.won = false := by
  cases p <;> simp_all [running, won]

/-- The winner has put an owner into the table. -/
theorem ProcOk.exists_owner (hp : ProcOk db p) (hw : p.won = true) : ∃ u ∈ db.users, u.liveOwner = true := by
  cases p with
  | done r =>
    cases r with
    | claimed id n role g => exact hp
    | _ => cases hw
  | _ => cases hw

/-- A claim that holds the row lock is on an instance without users. -/
theorem SafeInv.users_nil (h : SafeInv s) {row : TokenRow} {u : User} {cr : CredentialRow}
    (hr : Redeeming s.db row u cr) : s.db.users = [] := by
  refine List.eq_nil_iff_forall_not_mem.mpr fun x hx => ?_
  have hf := hr.unclaimed x hx
  rw [h.owners x hx] at hf
  cases hf

theorem SafeInv.procs_commit (h : SafeInv s) {row : TokenRow} {us : List User} {cs : List CredentialRow}
    {es : List Audit.Event} (hlock : (s.procs i).holds = true) (hne : j ≠ i) :
    ProcOk (s.db.commit row us cs es) (s.procs j) := by
  have hfree : (s.procs j).holds = false := by
    rw [Bool.eq_false_iff]
    exact fun hj => hne (h.locks.unique hj hlock)
  exact (h.procs j).mono hfree fun u hu => List.mem_append_left _ hu

theorem SafeInv.apply_quiet (h : SafeInv s) (hl : a.Locks s (s.procs i)) (hdb : a.dbAfter s.db = s.db)
    (hok : ProcOk s.db a.next) (hw : a.next.won = false) : SafeInv (s.apply i a) := by
  refine ⟨h.locks.apply hl, ?_, ?_, ?_, ?_, fun j k hj hk => ?_⟩
  · rw [St.apply_db, hdb]
    exact St.forall_procs_apply hok fun j _ => h.procs j
  · rw [St.apply_db, hdb]; exact h.owners
  · rw [St.apply_db, hdb]; exact h.one
  · rw [St.apply_db, hdb]; exact h.together
  · have hne : ∀ {k}, ((s.apply i a).procs k).won = true → k ≠ i := by
      rintro k hk rfl
      rw [St.apply_procs_self, hw] at hk
      cases hk
    rw [St.apply_procs_ne s a (hne hj)] at hj
    rw [St.apply_procs_ne s a (hne hk)] at hk
    exact h.winner j k hj hk

/-- The commit of a claim, on an instance without users. -/
theorem SafeInv.apply_owner (h : SafeInv s) {row : TokenRow} {u : User} {cr : CredentialRow}
    {e : Audit.Event} (hlock : (s.procs i).holds = true) (hr : Redeeming s.db row u cr)
    (he : RecordsClaim e u) :
    SafeInv (s.apply i (.commit row [u] [cr] [e] (.claimed u.id u.username u.role row.generation))) := by
  have hnil := h.users_nil hr
  have hlocks := h.locks.apply
    (a := .commit row [u] [cr] [e] (.claimed u.id u.username u.role row.generation)) hlock
  have hwinner : ∀ {k}, ((s.apply i (.commit row [u] [cr] [e]
      (.claimed u.id u.username u.role row.generation))).procs k).won = true → k = i := by
    intro k hk
    by_contra hne
    rw [St.apply_procs_ne _ _ hne] at hk
    -- an earlier winner would have left a user, and there is none
    obtain ⟨x, hx, -⟩ := (h.procs k).exists_owner hk
    rw [hnil] at hx
    cases hx
  refine ⟨hlocks, ?_, ?_, ?_, ⟨?_, ?_, ?_⟩, fun j k hj hk => ?_⟩
  · refine St.forall_procs_apply ?_ fun j hj => h.procs_commit hlock hj
    exact ⟨u, by simp [Act.dbAfter, Db.commit], hr.owner⟩
  · simpa [Act.dbAfter, Db.commit, hnil] using hr.owner
  · simp [Act.dbAfter, Db.commit, hnil]
  · simp [Act.dbAfter, Db.commit, h.together.credentials, hr.credential]
  · have hev : succeeded [e] = [e] := by simp [succeeded, he.1]
    simp [Act.dbAfter, Db.commit, succeeded_append, h.together.events, hev, he.2]
  · simp [Act.dbAfter, Db.commit]
  · rw [hwinner hj, hwinner hk]

/-- The commit of a call that only writes the token row. -/
theorem SafeInv.apply_token (h : SafeInv s) {row : TokenRow} {es : List Audit.Event} {r : Result}
    (hlock : (s.procs i).holds = true) (hrow : row.consumed_at = none) (hes : succeeded es = [])
    (hres : ∀ id n role g, r ≠ .claimed id n role g) :
    SafeInv (s.apply i (.commit row [] [] es r)) := by
  have hlocks := h.locks.apply (a := .commit row [] [] es r) hlock
  have hdone : (Proc.done r).won = false := by
    cases r with
    | claimed id n role g => exact absurd rfl (hres id n role g)
    | _ => rfl
  have hne : ∀ {k}, ((s.apply i (.commit row [] [] es r)).procs k).won = true → k ≠ i := by
    rintro k hk rfl
    rw [St.apply_procs_self] at hk
    exact absurd hk (by simp [Act.next, hdone])
  refine ⟨hlocks, ?_, ?_, ?_, ⟨?_, ?_, ?_⟩, fun j k hj hk => ?_⟩
  · refine St.forall_procs_apply ?_ fun j hj => h.procs_commit hlock hj
    unfold ProcOk
    split <;> simp_all [Act.next]
  · simpa [Act.dbAfter, Db.commit] using h.owners
  · simpa [Act.dbAfter, Db.commit] using h.one
  · simpa [Act.dbAfter, Db.commit] using h.together.credentials
  · simpa [Act.dbAfter, Db.commit, succeeded_append, hes] using h.together.events
  · simp [Act.dbAfter, Db.commit, hrow]
  · rw [St.apply_procs_ne _ _ (hne hj)] at hj
    rw [St.apply_procs_ne _ _ (hne hk)] at hk
    exact h.winner j k hj hk

theorem SafeInv.apply_commit (h : SafeInv s) {row : TokenRow} {us : List User} {cs : List CredentialRow}
    {es : List Audit.Event} {r : Result} (hlock : (s.procs i).holds = true)
    (hc : CommitOk s.db row us cs es r) : SafeInv (s.apply i (.commit row us cs es r)) := by
  cases hc with
  | owner hr he => exact h.apply_owner hlock hr he
  | token hrow hes hres => exact h.apply_token hlock hrow hes hres

theorem SafeInv.apply (h : SafeInv s) (hm : s.Moves env i l a) : SafeInv (s.apply i a) := by
  have hok := hm.ok (h.procs i)
  have hrun := hm.keepsRunning
  have hl := hm.locks
  cases a with
  | goto q | lockMint q | hold q => exact h.apply_quiet hl rfl hok (Proc.won_of_running hrun)
  | commit row us cs es r => exact h.apply_commit hl hok
  | finish r =>
    have hw : (Proc.done r).won = false := by
      cases r with
      | claimed id n role g => exact absurd rfl (hok id n role g)
      | _ => rfl
    -- a result other than success carries no obligation
    refine h.apply_quiet hl rfl ?_ hw
    simp only [Act.next]
    unfold ProcOk
    split <;> simp_all [Proc.won]

theorem SafeInv.step (h : SafeInv s) (hs : s.step env l = some s') : SafeInv s' := by
  obtain ⟨d, -, rfl⟩ | ⟨i, a, hm, rfl⟩ := St.step_cases hs
  · exact ⟨h.locks, h.procs, h.owners, h.one, h.together, h.winner⟩
  · exact h.apply hm

theorem SafeInv.of_run {G : St → Label → Prop} {now : Time} {ls : List Label}
    (h : St.Run env G (.init now) ls s) : SafeInv s :=
  h.inv (SafeInv.init now) fun _ _ _ hi hs => hi.step hs.2

/-! ## The theorem -/

/-- What one step may do to the committed rows: nothing that belongs to an owner, or all of it at once. -/
inductive Atomic (db db' : Db) : Prop where
  | nothing (hu : db'.users = db.users) (hc : db'.credentials = db.credentials)
      (he : succeeded db'.audit = succeeded db.audit)
      (ht : ∀ r, db'.token = some r → r.consumed_at.isSome = true → db.token = some r)
  | everything {u : User} {c : CredentialRow} {r : TokenRow} {e : Audit.Event} (ho : u.liveOwner = true)
      (hu : db'.users = db.users ++ [u]) (hc : db'.credentials = db.credentials ++ [c])
      (hcu : c.user_id = u.id) (hck : c.kind = .password)
      (he : succeeded db'.audit = succeeded db.audit ++ [e]) (heu : e.actor_user_id = some u.id)
      (ht : db'.token = some r) (hr : r.consumed_at.isSome = true)

theorem SafeInv.atomic (h : SafeInv s) (hs : s.step env l = some s') : Atomic s.db s'.db := by
  obtain ⟨d, -, rfl⟩ | ⟨i, a, hm, rfl⟩ := St.step_cases hs
  · exact .nothing rfl rfl rfl fun r hr _ => hr
  have hok := hm.ok (h.procs i)
  rw [St.apply_db]
  cases a with
  | goto q | lockMint q | hold q | finish r => exact .nothing rfl rfl rfl fun r hr _ => hr
  | commit row us cs es r =>
    cases hok with
    | @owner u cr e hr he =>
      have hev : succeeded [e] = [e] := by simp [succeeded, he.1]
      refine .everything hr.owner rfl rfl hr.credential ?_ ?_ he.2 rfl hr.consumed
      · cases cr.kind
        rfl
      · rw [Act.dbAfter, Db.commit, succeeded_append, hev]
    | token hrow hes _ =>
      refine .nothing (by simp [Act.dbAfter, Db.commit]) (by simp [Act.dbAfter, Db.commit]) ?_ ?_
      · rw [Act.dbAfter, Db.commit, succeeded_append, hes, List.append_nil]
      · intro r hr hcons
        obtain rfl := Option.some.inj hr
        rw [hrow] at hcons
        cases hcons

/-- Safety of the owner claim over every run of a fresh instance: at most one claim has returned success,
at most one live owner is committed, and whatever belongs to an owner becomes visible in one step or not
at all. -/
theorem owner_claim_safety {now : Time} {ls : List Label} {s : St}
    (h : St.Run env anyStep (.init now) ls s) :
    (∀ i j, (s.procs i).won = true → (s.procs j).won = true → i = j) ∧
      (s.db.users.filter User.liveOwner).length ≤ 1 ∧
      Together s.db ∧
      ∀ l s', s.step env l = some s' → Atomic s.db s'.db := by
  have hi := SafeInv.of_run h
  refine ⟨hi.winner, ?_, hi.together, fun l s' hs => hi.atomic hs⟩
  exact (List.length_filter_le ..).trans hi.one

/-- An environment for examples: a text is its own digest, as far as it fits. -/
def exampleEnv : Env :=
  { unicodeLower := id, sha256 := fun t => BitVec.ofNat 256 (t.foldl (fun n c => 2 * n + c.toNat) 0)
    lower := id, pgSpace := isSpace }

def exampleToken : String := "0123456789abcdef0123456789abcdef0123456789abcdef0123456789abcdef"

def exampleClaim : ClaimCall :=
  { input :=
      { token := exampleToken, username := "owner", email := "owner@example.org"
        password := "correct horse battery" }
    correlationID := "c", ipPrefix := none, userID := 1, credID := 2
    salt := Vector.replicate 16 0, tag := Vector.replicate 32 0 }

def exampleMint : MintCall :=
  { caller := .cli, ttl := hour, refuseIfUsersExist := true, onlyIfNoLiveToken := false
    raw := exampleToken }

/-- Call 0 mints and call 1 claims. -/
def exampleLabels : List Label :=
  .spawn 0 (.mint exampleMint) :: List.replicate 8 (.exec 0) ++
    .spawn 1 (.claim exampleClaim) :: List.replicate 9 (.exec 1)

theorem owner_claim_safety_example :
    ∃ s, St.Run exampleEnv anyStep (.init 0) exampleLabels s ∧ (s.procs 1).won = true ∧
      ∀ i, (s.procs i).won = true → i = 1 := by
  obtain ⟨s, hs, hw⟩ := Lts.Run.of_exec_any (P := fun s => (s.procs 1).won)
    (by decide +kernel : (Lts.exec (St.step exampleEnv) (.init 0) exampleLabels).any _ = true)
  have hrun : St.Run exampleEnv anyStep (.init 0) exampleLabels s := hs.mono fun _ _ _ h => ⟨trivial, h⟩
  exact ⟨s, hrun, hw, fun i hi => (owner_claim_safety hrun).1 i 1 hi hw⟩

end Vizra.OwnerClaim
