import Mathlib.Algebra.BigOperators.Ring.Finset
import Mathlib.Algebra.Order.BigOperators.Group.Finset
import Vizra.OwnerClaim.Proofs.AttemptProofs
import Vizra.OwnerClaim.Proofs.RefusalProofs

/-!
# A race of claims for one live token

While nobody has committed, every contender is on the path to success and at most one of them has the
row; after the commit every other contender is on a path to `ErrAlreadyClaimed`, whichever window it was
overtaken in. `RaceInv` is the disjunction of the two, and `rank` bounds the steps that are left.
-/

namespace Vizra.OwnerClaim

open Go Vizra.Pg

variable {env : Env} {s s' : St} {i j : Nat} {l : Label} {a : Act} {p : Proc} {c : ClaimCall}
  {r : TokenRow} {I : Finset Nat}

/-- A claim that can redeem `r`. -/
structure Contender (env : Env) (r : TokenRow) (c : ClaimCall) : Prop extends Presents env r c where
  email : SchemaAccepts env c.input.email
  correlation : storable c.correlationID = true

theorem Contender.storable (h : Contender env r c) (d : Digest) : (c.params d).storable = true :=
  storable_params (accepted_of_validate h.valid) h.email.1 d

/-- On an instance without users nothing refuses the rows of a contender. -/
theorem Contender.violation (h : Contender env r c) (d : Digest) {db : Db} (hu : db.users = [])
    (hc : db.credentials = []) : (c.params d).violation env db = none := by
  obtain ⟨huser, hcred⟩ := checks_params (accepted_of_validate h.valid) h.email.2 d
  simp [ClaimOwnerParams.violation, userViolation, credentialViolation, huser, hcred, firstFailing_eq_none,
    userKeys, credentialKeys, hu, hc]

/-! ## While nobody has committed -/

/-- A contender on the path to success. -/
def Contesting (env : Env) (r : TokenRow) (now : Time) : Proc → Prop
  | .claim c .check | .claim c .examine => Contender env r c
  | .claim c (.audit row _ _) | .claim c (.commit row _ _ _) => Contender env r c ∧ row.unspent = false
  | .claim c (.hash d) => Contender env r c ∧ d = r.token_sha256
  | .claim c (.begin q) => Contender env r c ∧ q = c.params r.token_sha256
  | .claim c (.gate t q) | .claim c (.redeem t q) | .claim c (.redeeming t q) =>
    Contender env r c ∧ q = c.params r.token_sha256 ∧ t ≤ now
  | _ => False

/-- The commit of a claim. -/
def IsClaimCommit (a : Act) : Prop :=
  ∃ row u cr e, a = .commit row [u] [cr] [e] (.claimed u.id u.username u.role row.generation) ∧
    row.unspent = false

/-- The redeem of a contender that has the row succeeds. -/
theorem Contender.redeem (h : Contender env r c) (ho : Open env r s) {t : Time} (ht : t ≤ s.now) :
    (c.params r.token_sha256).redeem env t s.db = .redeemed (r.consume t) := by
  have hr : r.redeemable (c.params r.token_sha256).token_sha256 t = true := ho.redeemable ht
  simp [ClaimOwnerParams.redeem, ho.token, hr, h.violation _ ho.users ho.credentials]

/-- What a contender does next while nobody has committed: it moves on, it commits, or it waits for the
row. -/
theorem Contesting.act (ho : Open env r s) (hp : Contesting env r s.now p) :
    (∃ q, (s.act env p = some (.goto q) ∨ s.act env p = some (.hold q)) ∧ Contesting env r s.now q) ∨
      (∃ a, s.act env p = some a ∧ IsClaimCommit a) ∨
      (s.act env p = none ∧ p.holds = false ∧ s.tokenLock ≠ none) := by
  unfold Contesting at hp
  split at hp
  case h_1 c =>
    refine Or.inl ⟨.claim c .examine, Or.inl ?_, hp⟩
    simp [St.act, claimAct, ho.no_users]
  case h_2 c =>
    refine Or.inl ⟨.claim c (.hash r.token_sha256), Or.inl ?_, hp, rfl⟩
    simp [St.act, claimAct, hp.examine ho]
  case h_3 c row u cr =>
    obtain ⟨e, he⟩ := emit_succeededEvent hp.1.correlation u
    refine Or.inl ⟨.claim c (.commit row u cr e), Or.inl ?_, hp⟩
    simp [St.act, claimAct, he]
  case h_4 c row u cr e => exact Or.inr (Or.inl ⟨_, rfl, row, u, cr, e, rfl, hp.2⟩)
  case h_5 c d =>
    obtain ⟨hc, rfl⟩ := hp
    exact Or.inl ⟨.claim c (.begin (c.params r.token_sha256)), Or.inl rfl, hc, rfl⟩
  case h_6 c q => exact Or.inl ⟨.claim c (.gate s.now q), Or.inl rfl, hp.1, hp.2, le_refl _⟩
  case h_7 c t q =>
    refine Or.inl ⟨.claim c (.redeem t q), Or.inl ?_, hp⟩
    simp [St.act, claimAct, ho.no_users]
  case h_8 c t q =>
    obtain ⟨hc, rfl, ht⟩ := hp
    refine Or.inl ⟨.claim c (.redeeming t (c.params r.token_sha256)), Or.inl ?_, hc, rfl, ht⟩
    simp [St.act, claimAct, hc.storable, ho.selects c ht]
  case h_9 c t q =>
    obtain ⟨hc, rfl, ht⟩ := hp
    -- the only place to wait: somebody else has the row
    by_cases hlock : s.tokenLock = none
    · refine Or.inl ⟨.claim c (.audit (r.consume t) (c.params r.token_sha256).user
        (c.params r.token_sha256).credential), Or.inr ?_, hc, rfl⟩
      simp only [St.act, claimAct, hlock, hc.redeem ho ht, if_true]
    · exact Or.inr (Or.inr ⟨by simp [St.act, claimAct, hlock], rfl, hlock⟩)
  case h_10 => exact hp.elim

/-! ## After the commit -/

/-- A contender that was overtaken. -/
def Losing (env : Env) (r : TokenRow) : Proc → Prop
  | .done .alreadyClaimed | .claim _ .classify => True
  | .claim c .check | .claim c .examine | .claim c (.hash _) => Contender env r c
  | .claim _ (.begin q) | .claim _ (.gate _ q) | .claim _ (.redeem _ q) | .claim _ (.redeeming _ q) =>
    q.storable = true
  | _ => False

/-- The state after the commit of the winner. -/
structure Closed (s : St) : Prop where
  users : s.db.users ≠ []
  token : ∀ r, s.db.token = some r → r.unspent = false
  lock : s.tokenLock = none

theorem Contesting.losing {now : Time} (hp : Contesting env r now p) (hh : p.holds = false) :
    Losing env r p := by
  unfold Contesting at hp
  split at hp
  case h_1 c => exact hp
  case h_2 c => exact hp
  -- a claim past its redeem holds the row
  case h_3 c row u cr => cases hh
  case h_4 c row u cr e => cases hh
  case h_5 c d => exact hp.1
  case h_6 c q => exact hp.2 ▸ hp.1.storable _
  case h_7 c t q => exact hp.2.1 ▸ hp.1.storable _
  case h_8 c t q => exact hp.2.1 ▸ hp.1.storable _
  case h_9 c t q => exact hp.2.1 ▸ hp.1.storable _
  case h_10 => exact hp.elim

theorem Closed.any_user (hc : Closed s) : anyUserExists s.db = true := by
  simpa [anyUserExists] using hc.users

/-- No token of a closed instance is live. -/
theorem Closed.examine (hc : Closed s) (h : Contender env r c) :
    examineToken env s c.input = .ok none := by
  unfold examineToken
  rw [h.valid]
  cases ht : s.db.token with
  | none => rfl
  | some r' => simp [TokenRow.live, hc.token r' ht]

theorem Closed.redeem (hc : Closed s) (q : ClaimOwnerParams) (t : Time) :
    q.redeem env t s.db = .noRows := by
  unfold ClaimOwnerParams.redeem
  cases ht : s.db.token with
  | none => rfl
  | some r' => simp [TokenRow.redeemable, TokenRow.live, hc.token r' ht]

/-- What an overtaken contender does next: it moves on, or it answers `ErrAlreadyClaimed`. -/
theorem Losing.act (hc : Closed s) (hp : Losing env r p) :
    p = .done .alreadyClaimed ∨ (∃ q, s.act env p = some (.goto q) ∧ Losing env r q) ∨
      s.act env p = some (.finish .alreadyClaimed) := by
  unfold Losing at hp
  split at hp
  case h_1 => exact Or.inl rfl
  case h_2 c => exact Or.inr (Or.inr (by simp [St.act, claimAct, hc.any_user]))
  case h_3 c => exact Or.inr (Or.inr (by simp [St.act, claimAct, hc.any_user]))
  case h_4 c =>
    exact Or.inr (Or.inl ⟨.claim c .classify, by simp [St.act, claimAct, hc.examine hp], trivial⟩)
  case h_5 c d => exact Or.inr (Or.inl ⟨.claim c (.begin (c.params d)), rfl, hp.storable d⟩)
  case h_6 c q => exact Or.inr (Or.inl ⟨.claim c (.gate s.now q), rfl, hp⟩)
  case h_7 c t q => exact Or.inr (Or.inr (by simp [St.act, claimAct, hc.any_user]))
  case h_8 c t q =>
    -- the snapshot of the redeem sees the winner
    have hsel : q.selects t s.db = false := by simp [ClaimOwnerParams.selects, hc.any_user]
    exact Or.inr (Or.inl ⟨.claim c .classify, by simp [St.act, claimAct, hp, hsel], trivial⟩)
  case h_9 c t q =>
    -- it started before the winner committed, and finds the row consumed after its wait
    refine Or.inr (Or.inl ⟨.claim c .classify, ?_, trivial⟩)
    simp only [St.act, claimAct, hc.lock, hc.redeem, if_true]
  case h_10 => exact hp.elim

/-! ## The race -/

/-- The steps of a race: nothing mints, supersedes or fails, and the clock stays before the expiry. -/
def RaceStep (r : TokenRow) (s : St) : Label → Prop
  | .exec _ => True
  | .tick d => s.now + d < r.expires_at
  | .spawn .. | .abort _ => False

/-- The start of a race: an unclaimed instance with the live token `r`, on which nothing runs but the
claims `I`, all for that token. Their correlation ids are those of the request middleware, which `text`
can hold. -/
structure Race (env : Env) (I : Finset Nat) (r : TokenRow) (s : St) : Prop where
  reached : ∃ now ls, St.Run env anyStep (.init now) ls s
  users : s.db.users = []
  token : s.db.token = some r
  live : r.live s.now = true
  claims : ∀ i ∈ I, ∃ c, s.procs i = .claim c .check ∧ Presents env r c ∧ storable c.correlationID = true
  others : ∀ i ∉ I, (s.procs i).running = false

/-- Nobody has committed, or one has and the others are losing. -/
structure RaceInv (env : Env) (I : Finset Nat) (r : TokenRow) (s : St) : Prop where
  locks : LockInv s
  others : ∀ i ∉ I, (s.procs i).running = false
  phase : (Open env r s ∧ ∀ i ∈ I, Contesting env r s.now (s.procs i)) ∨
    (Closed s ∧ ∃ w ∈ I, (s.procs w).won = true ∧ ∀ i ∈ I, i ≠ w → Losing env r (s.procs i))

/-- The schema accepts the email of every claim of the race. -/
def EmailsAccepted (env : Env) (I : Finset Nat) (s : St) : Prop :=
  ∀ i ∈ I, ∀ c, s.procs i = .claim c .check → SchemaAccepts env c.input.email

theorem Race.isOpen (h : Race env I r s) : Open env r s := by
  obtain ⟨now, ls, hrun⟩ := h.reached
  have hcred := (SafeInv.of_run hrun).together.credentials
  rw [h.users] at hcred
  exact ⟨h.users, by simpa using hcred, h.token, h.live⟩

theorem Race.inv (h : Race env I r s) (hall : EmailsAccepted env I s) : RaceInv env I r s := by
  obtain ⟨now, ls, hrun⟩ := h.reached
  refine ⟨(SafeInv.of_run hrun).locks, h.others, Or.inl ⟨h.isOpen, fun i hi => ?_⟩⟩
  obtain ⟨c, hc, hp, hcor⟩ := h.claims i hi
  rw [hc]
  exact ⟨hp, hall i hi c hc, hcor⟩

theorem Contesting.mono {t t' : Time} (hp : Contesting env r t p) (h : t ≤ t') :
    Contesting env r t' p := by
  unfold Contesting at hp ⊢
  split at hp
  case h_7 | h_8 | h_9 => exact ⟨hp.1, hp.2.1, hp.2.2.trans h⟩
  all_goals exact hp

theorem Proc.running_of_act (h : s.act env p = some a) : p.running = true := by
  cases p with
  | idle | done r => cases h
  | claim c pc | mint m pc | supersede caller pc | boot b pc => rfl

theorem others_apply (hi : i ∈ I) (h : ∀ j ∉ I, (s.procs j).running = false) :
    ∀ j ∉ I, ((s.apply i a).procs j).running = false := by
  intro j hj
  have hne : j ≠ i := fun e => hj (e ▸ hi)
  rw [St.apply_procs_ne s a hne]
  exact h j hj

/-- In a race only the claims of the race move. -/
theorem RaceInv.mem_of_act (h : RaceInv env I r s) (hact : s.act env (s.procs i) = some a) : i ∈ I := by
  by_contra hi
  have hrun := Proc.running_of_act hact
  rw [h.others i hi] at hrun
  cases hrun

theorem RaceInv.step_open (h : RaceInv env I r s) (ho : Open env r s)
    (hall : ∀ i ∈ I, Contesting env r s.now (s.procs i)) (hi : i ∈ I)
    (hact : s.act env (s.procs i) = some a) : RaceInv env I r (s.apply i a) := by
  have hlock := h.locks.apply (St.act_locks hact)
  refine ⟨hlock, others_apply hi h.others, ?_⟩
  -- the move leaves the rows alone and the contender on its path
  have hstay : ∀ q, a.next = q → a.dbAfter s.db = s.db → Contesting env r s.now q →
      Open env r (s.apply i a) ∧ ∀ j ∈ I, Contesting env r (s.apply i a).now ((s.apply i a).procs j) := by
    intro q hq hdb hcon
    refine ⟨⟨?_, ?_, ?_, ?_⟩, fun j hj => ?_⟩
    · rw [St.apply_db, hdb]; exact ho.users
    · rw [St.apply_db, hdb]; exact ho.credentials
    · rw [St.apply_db, hdb]; exact ho.token
    · rw [St.apply_now]; exact ho.live
    · rw [St.apply_now]
      by_cases hji : j = i
      · subst hji
        rw [St.apply_procs_self, hq]
        exact hcon
      · rw [St.apply_procs_ne s a hji]
        exact hall j hj
  rcases (hall i hi).act ho with ⟨q, hq | hq, hcon⟩ | ⟨b, hb, hcommit⟩ | ⟨hwait, -⟩
  · obtain rfl := Option.some.inj (hact.symm.trans hq)
    exact Or.inl (hstay q rfl rfl hcon)
  · obtain rfl := Option.some.inj (hact.symm.trans hq)
    exact Or.inl (hstay q rfl rfl hcon)
  · obtain rfl := Option.some.inj (hact.symm.trans hb)
    obtain ⟨row, u, cr, e, rfl, hspent⟩ := hcommit
    -- the race is decided: whoever has not got the row is overtaken
    have hholds : (s.procs i).holds = true := St.act_locks hact
    refine Or.inr ⟨⟨by simp [Act.dbAfter, Db.commit], ?_, ?_⟩, i, hi, by simp [Act.next, Proc.won], ?_⟩
    · intro r' hr'
      rw [St.apply_db] at hr'
      obtain rfl := Option.some.inj hr'
      exact hspent
    · simp [St.apply, released, (h.locks i).mp hholds]
    · intro j hj hji
      rw [St.apply_procs_ne _ _ hji]
      refine (hall j hj).losing ?_
      rw [Bool.eq_false_iff]
      exact fun hh => hji (h.locks.unique hh hholds)
  · rw [hact] at hwait
    cases hwait

theorem RaceInv.step_closed (h : RaceInv env I r s) (hc : Closed s) {w : Nat} (hw : w ∈ I)
    (hwon : (s.procs w).won = true) (hall : ∀ i ∈ I, i ≠ w → Losing env r (s.procs i)) (hi : i ∈ I)
    (hact : s.act env (s.procs i) = some a) : RaceInv env I r (s.apply i a) := by
  have hlock := h.locks.apply (St.act_locks hact)
  have hiw : i ≠ w := by
    rintro rfl
    have hrun := Proc.running_of_act hact
    rw [Proc.won_of_running hrun] at hwon
    cases hwon
  refine ⟨hlock, others_apply hi h.others, Or.inr ?_⟩
  -- whichever way the loser moves, the rows stay and the lock stays free
  have hstay : a.dbAfter s.db = s.db → (s.apply i a).tokenLock = none → Losing env r a.next →
      Closed (s.apply i a) ∧ ∃ w ∈ I, ((s.apply i a).procs w).won = true ∧
        ∀ j ∈ I, j ≠ w → Losing env r ((s.apply i a).procs j) := by
    intro hdb hfree hlose
    refine ⟨⟨?_, ?_, hfree⟩, w, hw, ?_, fun j hj hjw => ?_⟩
    · rw [St.apply_db, hdb]; exact hc.users
    · rw [St.apply_db, hdb]; exact hc.token
    · rw [St.apply_procs_ne s a (Ne.symm hiw)]; exact hwon
    · by_cases hji : j = i
      · subst hji
        rw [St.apply_procs_self]
        exact hlose
      · rw [St.apply_procs_ne s a hji]
        exact hall j hj hjw
  rcases (hall i hi hiw).act hc with hd | ⟨q, hq, hlose⟩ | hf
  · rw [hd] at hact
    cases hact
  · obtain rfl := Option.some.inj (hact.symm.trans hq)
    exact hstay rfl hc.lock hlose
  · obtain rfl := Option.some.inj (hact.symm.trans hf)
    exact hstay rfl (by simp [St.apply, released, hc.lock]) trivial

theorem RaceInv.step (h : RaceInv env I r s) (hg : RaceStep r s l) (hs : s.step env l = some s') :
    RaceInv env I r s' := by
  obtain ⟨d, rfl, rfl⟩ | ⟨i, a, hm, rfl⟩ := St.step_cases hs
  · refine ⟨h.locks, h.others, ?_⟩
    rcases h.phase with ⟨ho, hall⟩ | hc
    · have hle : s.now ≤ s.now + d :=
        Int.le_add_of_nonneg_right (Int.natCast_nonneg d)
      refine Or.inl ⟨⟨ho.users, ho.credentials, ho.token, ?_⟩, fun i hi => (hall i hi).mono hle⟩
      have hlive := ho.live
      simp only [TokenRow.live, Bool.and_eq_true, decide_eq_true_iff] at hlive ⊢
      exact ⟨hlive.1, hg⟩
    · exact Or.inr ⟨⟨hc.1.users, hc.1.token, hc.1.lock⟩, hc.2⟩
  · cases hm with
    | exec hact =>
      have hi := h.mem_of_act hact
      rcases h.phase with ⟨ho, hall⟩ | ⟨hc, w, hw, hwon, hall⟩
      · exact h.step_open ho hall hi hact
      · exact h.step_closed hc hw hwon hall hi hact
    | spawn _ => exact hg.elim
    | abort _ => exact hg.elim

theorem RaceInv.of_run {ls : List Label} (h : RaceInv env I r s) (hrun : St.Run env (RaceStep r) s ls s') :
    RaceInv env I r s' :=
  hrun.inv h fun _ _ _ hi hs => hi.step hs.1 hs.2

/-! ## Termination -/

/-- How many steps a claim has left at most. -/
def Proc.rank : Proc → Nat
  | .claim _ .check => 9
  | .claim _ .examine => 8
  | .claim _ (.hash _) => 7
  | .claim _ (.begin _) => 6
  | .claim _ (.gate ..) => 5
  | .claim _ (.redeem ..) => 4
  | .claim _ (.redeeming ..) => 3
  | .claim _ (.audit ..) => 2
  | .claim _ (.commit ..) | .claim _ .classify => 1
  | _ => 0

theorem claimAct_rank {pc : ClaimPc} (h : claimAct env s c pc = some a) :
    a.next.rank < (Proc.claim c pc).rank := by
  cases pc <;> simp only [claimAct] at h <;> (repeat' split at h) <;> cases h <;>
    simp [Act.next, Proc.rank]

/-- The number of steps of calls in a run. -/
def execs (ls : List Label) : Nat := ls.countP fun l => match l with | .exec _ => true | _ => false

/-- In a race only claims run. -/
theorem RaceInv.claim_of_act (h : RaceInv env I r s) (hact : s.act env (s.procs i) = some a) :
    i ∈ I ∧ ∃ c pc, s.procs i = .claim c pc := by
  have hrun := Proc.running_of_act hact
  have hi := h.mem_of_act hact
  refine ⟨hi, ?_⟩
  cases hp : s.procs i with
  | claim c pc => exact ⟨c, pc, rfl⟩
  | idle | done r => rw [hp] at hrun; cases hrun
  | mint m pc | supersede caller pc | boot b pc =>
    rcases h.phase with ⟨-, hall⟩ | ⟨-, w, -, hwon, hall⟩
    · have := hall i hi
      rw [hp] at this
      exact this.elim
    · have hiw : i ≠ w := by
        rintro rfl
        rw [hp] at hwon
        cases hwon
      have := hall i hi hiw
      rw [hp] at this
      exact this.elim

theorem RaceInv.rank_step (h : RaceInv env I r s) (hact : s.act env (s.procs i) = some a) :
    ∑ j ∈ I, ((s.apply i a).procs j).rank < ∑ j ∈ I, (s.procs j).rank := by
  obtain ⟨hi, c, pc, hp⟩ := h.claim_of_act hact
  have hless : a.next.rank < (s.procs i).rank := by
    rw [hp] at hact ⊢
    simp only [St.act] at hact
    exact claimAct_rank hact
  -- the rank of the call that moved goes down and the others stay
  refine Finset.sum_lt_sum (fun j _ => ?_) ⟨i, hi, ?_⟩
  · by_cases hji : j = i
    · subst hji
      rw [St.apply_procs_self]
      exact hless.le
    · rw [St.apply_procs_ne s a hji]
  · rw [St.apply_procs_self]
    exact hless

/-- Every step of a claim uses up one of the steps the race has. -/
theorem RaceInv.execs_le {ls : List Label} (h : RaceInv env I r s)
    (hrun : St.Run env (RaceStep r) s ls s') :
    execs ls + ∑ j ∈ I, (s'.procs j).rank ≤ ∑ j ∈ I, (s.procs j).rank := by
  refine (hrun.inv_events (I := fun ls t => RaceInv env I r t ∧
    execs ls + ∑ j ∈ I, (t.procs j).rank ≤ ∑ j ∈ I, (s.procs j).rank) ⟨h, by simp [execs]⟩ ?_).2
  rintro ls t l u ⟨hi, hle⟩ ⟨hg, hs⟩
  refine ⟨hi.step hg hs, ?_⟩
  obtain ⟨d, rfl, rfl⟩ | ⟨i, a, hm, rfl⟩ := St.step_cases hs
  · simpa [execs] using hle
  · cases hm with
    | exec hact =>
      have := hi.rank_step hact
      simp only [execs, List.countP_append, List.countP_singleton] at hle ⊢
      simp only [if_true]
      omega
    | spawn _ => exact hg.elim
    | abort _ => exact hg.elim

/-! ## The end of a race -/

theorem Contesting.running {now : Time} (h : Contesting env r now p) : p.running = true := by
  unfold Contesting at h
  split at h
  case h_10 => exact h.elim
  all_goals rfl

theorem Proc.running_of_holds (h : p.holds = true) : p.running = true := by
  cases p with
  | idle | done r => cases h
  | claim c pc | mint m pc | supersede caller pc | boot b pc => rfl

/-- As long as a claim runs, some claim can take a step. -/
theorem RaceInv.progress (h : RaceInv env I r s) (hi : i ∈ I) (hrun : (s.procs i).running = true) :
    ∃ j ∈ I, ∃ a, s.act env (s.procs j) = some a := by
  rcases h.phase with ⟨ho, hall⟩ | ⟨hc, w, -, hwon, hall⟩
  · -- the holder of the row if there is one, and otherwise any claim
    have hgo : ∀ j ∈ I, s.tokenLock = none ∨ (s.procs j).holds = true →
        ∃ j ∈ I, ∃ a, s.act env (s.procs j) = some a := by
      intro j hj hfree
      rcases (hall j hj).act ho with ⟨q, hq | hq, -⟩ | ⟨a, ha, -⟩ | ⟨-, hnot, hheld⟩
      · exact ⟨j, hj, _, hq⟩
      · exact ⟨j, hj, _, hq⟩
      · exact ⟨j, hj, a, ha⟩
      · rcases hfree with hfree | hfree
        · exact absurd hfree hheld
        · rw [hnot] at hfree
          cases hfree
    cases hl : s.tokenLock with
    | none => exact hgo i hi (Or.inl hl)
    | some j =>
      have hholds := (h.locks j).mpr hl
      have hj : j ∈ I := by
        by_contra hj
        have := Proc.running_of_holds hholds
        rw [h.others j hj] at this
        cases this
      exact hgo j hj (Or.inr hholds)
  · have hiw : i ≠ w := by
      rintro rfl
      rw [Proc.won_of_running hrun] at hwon
      cases hwon
    rcases (hall i hi hiw).act hc with hd | ⟨q, hq, -⟩ | hf
    · rw [hd] at hrun
      cases hrun
    · exact ⟨i, hi, _, hq⟩
    · exact ⟨i, hi, _, hf⟩

/-- What has returned has won, or was told that the instance is claimed. -/
theorem RaceInv.returned (h : RaceInv env I r s) (hi : i ∈ I) {res : Result}
    (hd : s.procs i = .done res) : (s.procs i).won = true ∨ res = .alreadyClaimed := by
  rcases h.phase with ⟨-, hall⟩ | ⟨-, w, -, hwon, hall⟩
  · have hrun := (hall i hi).running
    rw [hd] at hrun
    cases hrun
  · by_cases hiw : i = w
    · subst hiw
      exact Or.inl hwon
    · have hlose := hall i hi hiw
      rw [hd] at hlose
      cases res with
      | alreadyClaimed => exact Or.inr rfl
      | _ => exact hlose.elim

/-- When every claim has returned, one has won and the others answered `ErrAlreadyClaimed`. -/
theorem RaceInv.outcome (h : RaceInv env I r s) (hI : I.Nonempty)
    (hend : ∀ i ∈ I, (s.procs i).running = false) :
    ∃ w ∈ I, (s.procs w).won = true ∧ ∀ i ∈ I, i ≠ w → s.procs i = .done .alreadyClaimed := by
  rcases h.phase with ⟨-, hall⟩ | ⟨hc, w, hw, hwon, hall⟩
  · obtain ⟨i, hi⟩ := hI
    have hrun := (hall i hi).running
    rw [hend i hi] at hrun
    cases hrun
  · refine ⟨w, hw, hwon, fun i hi hiw => ?_⟩
    rcases (hall i hi hiw).act hc with hd | ⟨q, hq, -⟩ | hf
    · exact hd
    · have hrun := Proc.running_of_act hq
      rw [hend i hi] at hrun
      cases hrun
    · have hrun := Proc.running_of_act hf
      rw [hend i hi] at hrun
      cases hrun

theorem Race.rank_eq (h : Race env I r s) : ∑ j ∈ I, (s.procs j).rank = I.card * 9 := by
  refine Finset.sum_const_nat fun j hj => ?_
  obtain ⟨c, hc, -⟩ := h.claims j hj
  rw [hc]
  rfl

/-- A race ends after finitely many steps with one winner, and every other claim is told that the instance
is claimed. -/
structure RaceEnds (env : Env) (I : Finset Nat) (ls : List Label) (s : St) : Prop where
  steps : execs ls ≤ 9 * I.card
  progress : (∃ i ∈ I, (s.procs i).running = true) → ∃ j ∈ I, (s.step env (.exec j)).isSome = true
  returned : ∀ i ∈ I, ∀ res, s.procs i = .done res → (s.procs i).won = true ∨ res = .alreadyClaimed
  outcome : (∀ i ∈ I, (s.procs i).running = false) →
    ∃ w ∈ I, (s.procs w).won = true ∧ ∀ i ∈ I, i ≠ w → s.procs i = .done .alreadyClaimed

theorem Race.ends {s₀ : St} {ls : List Label} (h : Race env I r s₀) (hI : I.Nonempty)
    (hall : EmailsAccepted env I s₀) (hrun : St.Run env (RaceStep r) s₀ ls s) : RaceEnds env I ls s := by
  have hinv := (h.inv hall).of_run hrun
  refine ⟨?_, ?_, fun i hi res hd => hinv.returned hi hd, fun hend => hinv.outcome hI hend⟩
  · have hle := (h.inv hall).execs_le hrun
    have hrank := h.rank_eq
    omega
  · rintro ⟨i, hi, hir⟩
    obtain ⟨j, hj, a, ha⟩ := hinv.progress hi hir
    exact ⟨j, hj, by simp [St.step, ha]⟩

/-- Before the race nobody has the row. -/
theorem Race.lock (h : Race env I r s) : s.tokenLock = none := by
  obtain ⟨now, ls, hrun⟩ := h.reached
  cases hl : s.tokenLock with
  | none => rfl
  | some j =>
    have hholds := ((SafeInv.of_run hrun).locks j).mpr hl
    by_cases hj : j ∈ I
    · obtain ⟨c, hc, -⟩ := h.claims j hj
      rw [hc] at hholds
      cases hholds
    · have hrunning := Proc.running_of_holds hholds
      rw [h.others j hj] at hrunning
      cases hrunning

/-- A race in which the schema refuses an email can go wrong: the claim with that email goes first. -/
theorem Race.accepted {s₀ : St} (h : Race env I r s₀)
    (hends : ∀ ls s, St.Run env (RaceStep r) s₀ ls s → RaceEnds env I ls s) :
    EmailsAccepted env I s₀ := by
  intro i hi c hc
  by_contra hnot
  obtain ⟨c', hc', hp, -⟩ := h.claims i hi
  obtain rfl : c = c' := by
    rw [hc] at hc'
    cases hc'
    rfl
  have halone : Alone env (RaceStep r) s₀ i r c .check s₀ := ⟨⟨[], .refl⟩, h.isOpen, h.lock, hc⟩
  obtain ⟨ls, s, e, hrun, hdone, -⟩ := halone.refused (fun _ => trivial) hp hnot
  rcases (hends ls s hrun).returned i hi _ hdone with hwon | hres
  · rw [hdone] at hwon
    cases hwon
  · cases hres

/-- Refusals: `ErrTokenNotAccepted` is answered only after a read that found no user, which came after
the last look at the token; of the claims that race for one live token one succeeds and the others
answer `ErrAlreadyClaimed`, in every run, exactly if the schema accepts the emails of them all; and the
hasher is called only after the presented token was read live. -/
theorem claim_refusals_iff (env : Env) :
    (∀ now ls s i, St.Run env anyStep (.init now) ls s → s.procs i = .done .tokenNotAccepted →
      ReadNoUser env anyStep (.init now) ls i) ∧
    (∀ I r s₀, I.Nonempty → Race env I r s₀ →
      ((∀ ls s, St.Run env (RaceStep r) s₀ ls s → RaceEnds env I ls s) ↔ EmailsAccepted env I s₀)) ∧
    (∀ now ls s i c d, St.Run env anyStep (.init now) ls s → s.procs i = .claim c (.hash d) →
      ReadLiveToken env anyStep (.init now) ls i c) := by
  refine ⟨?_, ?_, ?_⟩
  · intro now ls s i hrun hd
    exact tokenNotAccepted_read hrun hd
  · intro I r s₀ hI hrace
    exact ⟨fun hends => hrace.accepted hends, fun hall ls s hrun => hrace.ends hI hall hrun⟩
  · intro now ls s i c d hrun hd
    exact hash_read hrun hd

instance (r : TokenRow) (s : St) : ∀ l, Decidable (RaceStep r s l)
  | .exec _ => inferInstanceAs (Decidable True)
  | .tick d => inferInstanceAs (Decidable (s.now + d < r.expires_at))
  | .spawn .. | .abort _ => inferInstanceAs (Decidable False)

/-- Call 0 mints; calls 1 and 2 start to claim. -/
def raceStartLabels (c : ClaimCall) : List Label :=
  .spawn 0 (.mint exampleMint) :: List.replicate 8 (.exec 0) ++
    [.spawn 1 (.claim c), .spawn 2 (.claim c)]

def raceStart (c : ClaimCall) : St :=
  (Lts.exec (St.step exampleEnv) (.init 0) (raceStartLabels c)).getD (.init 0)

def raceToken : TokenRow := mintRow 0 (exampleEnv.sha256 exampleToken.toList) (toInterval hour) none

theorem raceStart_run (c : ClaimCall) :
    St.Run exampleEnv anyStep (.init 0) (raceStartLabels c) (raceStart c) := by
  have hexec : Lts.exec (St.step exampleEnv) (.init 0) (raceStartLabels c) = some (raceStart c) := rfl
  exact (Lts.Run.of_exec hexec).mono fun _ _ _ h => ⟨trivial, h⟩

/-- A call that was never started is idle. -/
theorem idle_of_run {G : St → Label → Prop} {ls : List Label} (h : St.Run env G s ls s')
    (h0 : s.procs i = .idle) (hls : ∀ call, Label.spawn i call ∉ ls) : s'.procs i = .idle := by
  refine h.inv_events (I := fun ls t => (∀ call, Label.spawn i call ∉ ls) → t.procs i = .idle)
    (fun _ => h0) ?_ hls
  intro ls t l u hi hs hls
  have ht := hi fun call hc => hls call (List.mem_append_left _ hc)
  by_contra hne
  rw [← ht] at hne
  obtain ⟨a, hm, -⟩ := moves_of_ne hs.2 hne
  cases hm with
  | exec ha => rw [ht] at ha; cases ha
  | spawn hidle => exact hls _ (List.mem_append_right _ (List.mem_singleton.mpr rfl))
  | abort hr => rw [ht] at hr; cases hr

theorem raceStart_race (hp : Presents exampleEnv raceToken c) (hcor : storable c.correlationID = true) :
    Race exampleEnv {1, 2} raceToken (raceStart c) where
  reached := ⟨0, raceStartLabels c, raceStart_run c⟩
  users := rfl
  token := rfl
  live := rfl
  claims := by
    have h1 : (raceStart c).procs 1 = .claim c .check := rfl
    have h2 : (raceStart c).procs 2 = .claim c .check := rfl
    simp only [Finset.mem_insert, Finset.mem_singleton]
    rintro i (rfl | rfl)
    · exact ⟨c, h1, hp, hcor⟩
    · exact ⟨c, h2, hp, hcor⟩
  others := by
    intro i hi
    simp only [Finset.mem_insert, Finset.mem_singleton, not_or] at hi
    by_cases h0 : i = 0
    · subst h0
      rfl
    · have hidle := idle_of_run (raceStart_run c) (i := i) rfl
        (by simp [raceStartLabels, hi.1, hi.2, h0])
      rw [hidle]
      rfl

theorem raceStart_accepted (h : SchemaAccepts exampleEnv c.input.email) :
    EmailsAccepted exampleEnv {1, 2} (raceStart c) := by
  have h1 : (raceStart c).procs 1 = .claim c .check := rfl
  have h2 : (raceStart c).procs 2 = .claim c .check := rfl
  simp only [EmailsAccepted, Finset.mem_insert, Finset.mem_singleton]
  rintro i (rfl | rfl) c' hc'
  · rw [h1] at hc'
    cases hc'
    exact h
  · rw [h2] at hc'
    cases hc'
    exact h

theorem exampleClaim_presents : Presents exampleEnv raceToken exampleClaim := by
  constructor <;> decide +kernel

/-- Both claims go for the row, and call 2 gets it first. -/
def raceLabels : List Label :=
  List.replicate 6 (.exec 1) ++ List.replicate 9 (.exec 2) ++ List.replicate 2 (.exec 1)

/-- A claim on an instance that has no token yet. -/
def refusedLabels : List Label := .spawn 1 (.claim exampleClaim) :: List.replicate 3 (.exec 1)

theorem claim_refusals_two_claims :
    ReadNoUser exampleEnv anyStep (.init 0) refusedLabels 1 ∧
    (∃ s, St.Run exampleEnv (RaceStep raceToken) (raceStart exampleClaim) raceLabels s ∧
      ∃ w ∈ ({1, 2} : Finset Nat), (s.procs w).won = true ∧
        ∀ i ∈ ({1, 2} : Finset Nat), i ≠ w → s.procs i = .done .alreadyClaimed) ∧
    ReadLiveToken exampleEnv anyStep (.init 0) (raceStartLabels exampleClaim ++ [.exec 1, .exec 1]) 1
      exampleClaim := by
  refine ⟨?_, ?_, ?_⟩
  · obtain ⟨s, hs, hd⟩ := Lts.Run.of_exec_any
      (P := fun s : St => (s.procs 1).returned .tokenNotAccepted)
      (by decide +kernel : (Lts.exec (St.step exampleEnv) (.init 0) refusedLabels).any _ = true)
    exact (claim_refusals_iff exampleEnv).1 _ _ s _ (hs.mono fun _ _ _ h => ⟨trivial, h⟩)
      (Proc.returned_iff.mp hd)
  · obtain ⟨s, hs, hend⟩ := Lts.Run.of_exec_any
      (P := fun s : St => !(s.procs 1).running && !(s.procs 2).running)
      (by decide +kernel : (Lts.exec (Lts.restrict (RaceStep raceToken) (St.step exampleEnv))
        (raceStart exampleClaim) raceLabels).any _ = true)
    have hrun : St.Run exampleEnv (RaceStep raceToken) (raceStart exampleClaim) raceLabels s :=
      hs.mono fun _ _ _ h => Lts.graph_restrict h
    have hrace := raceStart_race exampleClaim_presents (by decide)
    have haccepted : EmailsAccepted exampleEnv {1, 2} (raceStart exampleClaim) :=
      raceStart_accepted ⟨by decide, by decide +kernel⟩
    have hends := ((claim_refusals_iff exampleEnv).2.1 _ _ _ ⟨1, by simp⟩ hrace).mpr haccepted
    refine ⟨s, hrun, (hends raceLabels s hrun).outcome ?_⟩
    simpa using hend
  · obtain ⟨s, hs, hd⟩ := Lts.Run.of_exec_any
      (P := fun s : St => match s.procs 1 with
        | .claim c (.hash d) => decide (c = exampleClaim ∧ d = raceToken.token_sha256) | _ => false)
      (by decide +kernel : (Lts.exec (St.step exampleEnv) (.init 0)
        (raceStartLabels exampleClaim ++ [.exec 1, .exec 1])).any _ = true)
    refine (claim_refusals_iff exampleEnv).2.2 _ _ s _ _ raceToken.token_sha256
      (hs.mono fun _ _ _ h => ⟨trivial, h⟩) ?_
    split at hd
    · rename_i c d hp
      obtain ⟨rfl, rfl⟩ := of_decide_eq_true hd
      exact hp
    · cases hd

/-- `exampleClaim` with U+000B in its email. -/
def verticalTabClaim : ClaimCall :=
  { exampleClaim with input := { exampleClaim.input with email := "a\x0bb@example.org" } }

/-- The validator accepts the email of both claims, the schema does not; neither of them succeeds. -/
theorem claim_race_without_winner :
    Race exampleEnv {1, 2} raceToken (raceStart verticalTabClaim) ∧
      ∃ s, St.Run exampleEnv (RaceStep raceToken) (raceStart verticalTabClaim)
          (List.replicate 7 (.exec 1) ++ List.replicate 7 (.exec 2)) s ∧
        s.procs 1 = .done (.failed (.check .users_email_shape)) ∧
        s.procs 2 = .done (.failed (.check .users_email_shape)) := by
  have hp : Presents exampleEnv raceToken verticalTabClaim := by constructor <;> decide +kernel
  refine ⟨raceStart_race hp (by decide), ?_⟩
  obtain ⟨s, hs, hend⟩ := Lts.Run.of_exec_any
    (P := fun s : St => (s.procs 1).returned (.failed (.check .users_email_shape)) &&
      (s.procs 2).returned (.failed (.check .users_email_shape)))
    (by decide +kernel : (Lts.exec (Lts.restrict (RaceStep raceToken) (St.step exampleEnv))
      (raceStart verticalTabClaim) (List.replicate 7 (.exec 1) ++ List.replicate 7 (.exec 2))).any _ = true)
  rw [Bool.and_eq_true, Proc.returned_iff, Proc.returned_iff] at hend
  exact ⟨s, hs.mono fun _ _ _ h => Lts.graph_restrict h, hend⟩

end Vizra.OwnerClaim
