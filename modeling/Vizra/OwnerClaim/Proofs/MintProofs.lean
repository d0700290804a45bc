import Mathlib
import Vizra.OwnerClaim.Proofs.SafetyProofs

/-!
# Boot and `vizra claim-token` on an instance without users

A mint reads the token under the advisory lock and keeps the lock to its commit, so what it has found
there still stands when it commits (`Decided`). The clock of its transaction is older than the lock,
which only errs to one side: a token that is live now was live then.
-/

namespace Vizra.OwnerClaim

open Go Vizra.Pg

variable {env : Env} {s s' s₀ : St} {i j : Nat} {l : Label} {a : Act} {p : Proc} {m : MintCall}
variable {es : List Audit.Event} {row r : TokenRow}
  {now : Time} {g : Int}

/-! ## The advisory lock -/

/-- A call whose transaction has the advisory lock. -/
def Proc.mints : Proc → Bool
  | .mint _ .begin | .mint _ (.lock _) => false
  | .mint _ _ => true
  | _ => false

/-- How a move of a call at `p` treats the advisory lock. -/
def Act.MintLocks (s : St) (p : Proc) : Act → Prop
  | goto q | hold q => q.mints = p.mints
  | lockMint q => s.mintLock = none ∧ q.mints = true
  | commit .. | finish _ => True

theorem claimAct_mintLocks {c : ClaimCall} {pc : ClaimPc} (h : claimAct env s c pc = some a) :
    a.MintLocks s (.claim c pc) := by
  cases pc <;> simp only [claimAct] at h <;> (repeat' split at h) <;> cases h <;>
    simp [Act.MintLocks, Proc.mints]

theorem mintAct_mintLocks {pc : MintPc} (h : mintAct env s m pc = some a) :
    a.MintLocks s (.mint m pc) := by
  cases pc <;> simp only [mintAct] at h <;> (repeat' split at h) <;> cases h <;>
    simp_all [Act.MintLocks, Proc.mints]

theorem supersedeAct_mintLocks {caller : Caller} {pc : SupersedePc}
    (h : supersedeAct s caller pc = some a) : a.MintLocks s (.supersede caller pc) := by
  cases pc <;> simp only [supersedeAct] at h <;> (repeat' split at h) <;> cases h <;>
    simp [Act.MintLocks, Proc.mints]

theorem bootAct_mintLocks {b : BootCall} {pc : BootPc} (h : bootAct s b pc = some a) :
    a.MintLocks s (.boot b pc) := by
  cases pc <;> simp only [bootAct] at h <;> split at h <;> cases h <;>
    simp [Act.MintLocks, Proc.mints]

theorem St.act_mintLocks (h : s.act env p = some a) : a.MintLocks s p :=
  St.act_rule (P := fun p a => a.MintLocks s p) (fun _ _ _ => claimAct_mintLocks)
    (fun _ _ _ => mintAct_mintLocks) (fun _ _ _ => supersedeAct_mintLocks)
    (fun _ _ _ => bootAct_mintLocks) h

theorem Call.start_mints (call : Call) : call.start.mints = false := by cases call <;> rfl

theorem St.Moves.mintLocks (h : s.Moves env i l a) : a.MintLocks s (s.procs i) :=
  h.rule (P := fun p a => a.MintLocks s p) (fun _ _ => St.act_mintLocks) Call.start_mints fun _ => trivial

/-- A call is past the point where `Mint` takes the advisory lock exactly if it holds it. -/
def MintLockInv (s : St) : Prop := Lts.Owned (Proc.mints ∘ s.procs) s.mintLock

theorem MintLockInv.apply (h : MintLockInv s) (ha : a.MintLocks s (s.procs i)) :
    MintLockInv (s.apply i a) := by
  unfold MintLockInv
  rw [St.apply_procs, Function.comp_update]
  cases a with
  | goto q | hold q => exact h.keep ha
  | lockMint q =>
    rw [Act.next, ha.2]
    exact h.take ha.1 i
  | commit row us cs es r | finish r => exact h.release fun j => released_eq_some

/-! ## What a mint has found -/

/-- The event for the generation that a mint destroys, if it is live for that mint. -/
def supersededBy (now : Time) (token : Option TokenRow) : List Audit.Event :=
  match token.filter fun r => r.live now with
  | none => []
  | some r => [tokenEvent .ownerClaimSuperseded r.generation none]

/-- A mint has read the token, which is still as it was then. -/
structure Decided (s : St) (m : MintCall) (now : Time) (events : List Audit.Event) : Prop where
  started : now ≤ s.now
  events_eq : events = supersededBy now s.db.token
  vacant : m.onlyIfNoLiveToken = true → ∀ r, s.db.token = some r → r.live now = false

/-- What a mint is about to commit. -/
structure Minting (env : Env) (s : St) (m : MintCall) (events : List Audit.Event) (row : TokenRow)
    (now : Time) : Prop where
  decided : Decided s m now events
  row_eq : row = mintRow now (env.sha256 m.raw.toList) (toInterval m.ttl) s.db.token

def mintedEvent (row : TokenRow) : Audit.Event :=
  tokenEvent .ownerClaimMinted row.generation (some (.expiresAt row.expires_at))

def MintPcOk (env : Env) (s : St) (m : MintCall) : MintPc → Prop
  | .begin => True
  | .lock now | .check now | .state now => now ≤ s.now
  | .upsert now es | .upserting now es => Decided s m now es
  | .audit es row => ∃ now, Minting env s m es row now
  | .commit es row => ∃ now es', es = es' ++ [mintedEvent row] ∧ Minting env s m es' row now

/-- The calls of an instance on which only `Boot` and `vizra claim-token` run and nobody has claimed. -/
def MintOk (env : Env) (s : St) : Proc → Prop
  | .idle | .done _ | .boot .. => True
  | .claim .. | .supersede .. => False
  | .mint m pc => (m.caller = .boot → m.onlyIfNoLiveToken = true) ∧ MintPcOk env s m pc

/-- What a move of such a call leads to. -/
def ActMintOk (env : Env) (s : St) : Act → Prop
  | .goto q | .lockMint q | .hold q => MintOk env s q
  | .commit row us _ es _ =>
    us = [] ∧ ∃ m now es', es = es' ++ [mintedEvent row] ∧ Minting env s m es' row now
  | .finish _ => True

theorem mintAct_mintOk {pc : MintPc} (hu : s.db.users = []) (hp : MintOk env s (.mint m pc))
    (h : mintAct env s m pc = some a) : ActMintOk env s a := by
  obtain ⟨hb, hp⟩ := hp
  have hnone := anyUserExists_of_nil hu
  cases pc <;> simp only [mintAct, hnone, Bool.and_false, Bool.false_eq_true, if_false] at h
  case begin =>
    cases h
    exact ⟨hb, le_refl s.now⟩
  case lock now =>
    split at h <;> cases h
    exact ⟨hb, hp⟩
  case check now =>
    cases h
    exact ⟨hb, hp⟩
  case state now =>
    split at h
    · rename_i hfilter
      cases h
      refine ⟨hb, hp, ?_, fun _ r hr => ?_⟩
      · rw [supersededBy, hfilter]
      · rw [hr, Option.filter_eq_none_iff] at hfilter
        simpa using hfilter r rfl
    · rename_i r hfilter
      split at h <;> cases h
      · trivial
      -- the live generation is destroyed, which a mint of `Boot` never does
      · rename_i hre
        refine ⟨hb, hp, ?_, fun hre' => absurd hre' hre⟩
        rw [supersededBy, hfilter]
  case upsert now es =>
    cases h
    exact ⟨hb, hp⟩
  case upserting now es =>
    split at h
    · split at h <;> cases h
      · trivial
      · exact ⟨hb, now, hp, rfl⟩
    · cases h
  case audit es row =>
    cases h
    obtain ⟨now, hm⟩ := hp
    exact ⟨hb, now, es, rfl, hm⟩
  case commit es row =>
    cases h
    obtain ⟨now, es', hes, hm⟩ := hp
    exact ⟨rfl, m, now, es', hes, hm⟩

theorem bootAct_mintOk {b : BootCall} {pc : BootPc} (hu : s.db.users = [])
    (h : bootAct s b pc = some a) : ActMintOk env s a := by
  cases pc <;> simp only [bootAct, anyUserExists_of_nil hu, Bool.false_eq_true, if_false] at h
  case check =>
    cases h
    trivial
  case state =>
    split at h <;> cases h
    · exact ⟨fun _ => rfl, trivial⟩
    · trivial

/-- Only calls of `Boot` and of `vizra claim-token` start. -/
def MintsOnly (_ : St) : Label → Prop
  | .spawn _ (.boot _) => True
  | .spawn _ (.mint m) => m.caller = .cli
  | .spawn _ _ => False
  | _ => True

theorem St.act_mintOk (hu : s.db.users = []) (hp : MintOk env s p) (h : s.act env p = some a) :
    ActMintOk env s a :=
  St.act_rule (P := fun p a => MintOk env s p → ActMintOk env s a) (fun _ _ _ _ hp => hp.elim)
    (fun _ _ _ ha hp => mintAct_mintOk hu hp ha) (fun _ _ _ _ hp => hp.elim)
    (fun _ _ _ ha _ => bootAct_mintOk hu ha) h hp

theorem St.Moves.mintOk (hu : s.db.users = []) (hp : MintOk env s (s.procs i)) (hg : MintsOnly s l)
    (h : s.Moves env i l a) : ActMintOk env s a := by
  cases h with
  | exec h => exact act_mintOk hu hp h
  | @spawn call h =>
    cases call with
    | claim c => exact hg.elim
    | supersede => exact hg.elim
    | boot b => trivial
    | mint m =>
      have hcli : m.caller = .cli := hg
      refine ⟨fun hb => ?_, trivial⟩
      rw [hcli] at hb
      cases hb
  | abort h => trivial

theorem Decided.congr (h : Decided s m now es) (hnow : s.now ≤ s'.now) (htok : s'.db.token = s.db.token) :
    Decided s' m now es := by
  refine ⟨le_trans h.started hnow, ?_, ?_⟩
  · rw [htok]
    exact h.events_eq
  · rw [htok]
    exact h.vacant

theorem Minting.congr (h : Minting env s m es row now) (hnow : s.now ≤ s'.now) (htok : s'.db.token = s.db.token) :
    Minting env s' m es row now := by
  refine ⟨h.decided.congr hnow htok, ?_⟩
  rw [htok]
  exact h.row_eq

/-- What a call relies on stays true while time passes, and while the token stays the same if the call has
the advisory lock. -/
theorem MintOk.congr (h : MintOk env s p) (hnow : s.now ≤ s'.now)
    (htok : p.mints = true → s'.db.token = s.db.token) : MintOk env s' p := by
  cases p with
  | mint m pc =>
    refine ⟨h.1, ?_⟩
    have hp := h.2
    cases pc with
    | begin => trivial
    | lock now | check now | state now => exact le_trans hp hnow
    | upsert now es | upserting now es => exact Decided.congr hp hnow (htok rfl)
    | audit es row =>
      obtain ⟨now, hm⟩ := hp
      exact ⟨now, hm.congr hnow (htok rfl)⟩
    | commit es row =>
      obtain ⟨now, es', hes, hm⟩ := hp
      exact ⟨now, es', hes, hm.congr hnow (htok rfl)⟩
  | claim c pc => exact h.elim
  | supersede caller pc => exact h.elim
  | _ => trivial

/-! ## The audit rows of destroyed generations -/

/-- The number of rows that say that generation `g` was superseded. -/
def supersededRows (g : Int) (es : List Audit.Event) : Nat :=
  es.countP fun e => e.action = .ownerClaimSuperseded && e.subject_id = some (toString g)

theorem supersededRows_append (es es' : List Audit.Event) :
    supersededRows g (es ++ es') = supersededRows g es + supersededRows g es' := List.countP_append

@[simp] theorem supersededRows_mintedEvent (row : TokenRow) : supersededRows g [mintedEvent row] = 0 := by
  simp [supersededRows, mintedEvent, tokenEvent]

theorem supersededRows_tokenEvent (g g' : Int) :
    supersededRows g [tokenEvent .ownerClaimSuperseded g' none] = if g' = g then 1 else 0 := by
  simp [supersededRows, tokenEvent, List.countP_cons, Int.toString_eq_repr, Int.repr_inj]

theorem supersededRows_of_ne {token : Option TokenRow} (h : ∀ r, token = some r → r.generation ≠ g) :
    supersededRows g (supersededBy now token) = 0 := by
  unfold supersededBy
  split
  · rfl
  · rename_i r hr
    have hsome := (Option.filter_eq_some_iff.mp hr).1
    rw [supersededRows_tokenEvent, if_neg (h r hsome)]

theorem supersededRows_of_live (h : r.live now = true) :
    supersededRows r.generation (supersededBy now (some r)) = 1 := by
  rw [supersededBy, Option.filter_some, if_pos h, supersededRows_tokenEvent, if_pos rfl]

theorem mintRow_generation (now : Time) (d : Digest) (ttl : Interval) (r : TokenRow) :
    (mintRow now d ttl (some r)).generation = r.generation + 1 := rfl

theorem mintRow_token_sha256 (now : Time) (d : Digest) (ttl : Interval) (token : Option TokenRow) :
    (mintRow now d ttl token).token_sha256 = d := by cases token <;> rfl

theorem mintRow_unspent (now : Time) (d : Digest) (ttl : Interval) (token : Option TokenRow) :
    (mintRow now d ttl token).unspent = true := by cases token <;> rfl

/-- The rows that a commit of a mint leaves behind. -/
theorem Minting.supersededRows_commit (h : Minting env s m es row now) :
    supersededRows g (s.db.commit row [] [] (es ++ [mintedEvent row])).audit =
      supersededRows g s.db.audit + supersededRows g (supersededBy now s.db.token) := by
  rw [Db.commit, supersededRows_append, supersededRows_append, supersededRows_mintedEvent,
    h.decided.events_eq, Nat.add_zero]

/-! ## The invariant -/

/-- An instance without users and with no call in progress. -/
structure Unclaimed (s : St) : Prop where
  users : s.db.users = []
  idle : ∀ i, s.procs i = .idle
  unlocked : s.mintLock = none

theorem Unclaimed.init (now : Time) : Unclaimed (.init now) := ⟨rfl, fun _ => rfl, rfl⟩

structure MintInv (env : Env) (s₀ s : St) : Prop where
  users : s.db.users = []
  lock : MintLockInv s
  procs : ∀ i, MintOk env s (s.procs i)
  -- generations that have not been destroyed yet have no row that the run wrote
  history : ∀ g, (∀ r, s.db.token = some r → r.generation ≤ g) →
    supersededRows g s.db.audit = supersededRows g s₀.db.audit

theorem Unclaimed.mintInv (h : Unclaimed s₀) : MintInv env s₀ s₀ where
  users := h.users
  lock i := by simp [h.idle, h.unlocked, Proc.mints]
  procs i := by rw [h.idle i]; trivial
  history _ _ := rfl

theorem MintInv.apply_quiet (h : MintInv env s₀ s) (hl : a.MintLocks s (s.procs i))
    (hdb : a.dbAfter s.db = s.db) (hok : MintOk env s a.next) : MintInv env s₀ (s.apply i a) := by
  have hdb' : (s.apply i a).db = s.db := by rw [St.apply_db, hdb]
  have hkeep : ∀ q, MintOk env s q → MintOk env (s.apply i a) q := fun q hq =>
    hq.congr (by simp) fun _ => by rw [hdb']
  refine ⟨?_, h.lock.apply hl, St.forall_procs_apply (hkeep _ hok) fun j _ => hkeep _ (h.procs j), ?_⟩
  · rw [hdb']
    exact h.users
  · rw [hdb']
    exact h.history

theorem MintInv.apply_commit (h : MintInv env s₀ s) {cs : List CredentialRow} {es' : List Audit.Event} {r : Result}
    (hmints : (s.procs i).mints = true) (hes : es = es' ++ [mintedEvent row]) (hm : Minting env s m es' row now) :
    MintInv env s₀ (s.apply i (.commit row [] cs es r)) := by
  refine ⟨?_, h.lock.apply trivial, St.forall_procs_apply trivial fun j hj => ?_, fun g hg => ?_⟩
  · simpa [Act.dbAfter, Db.commit] using h.users
  · refine (h.procs j).congr (by simp) fun hjm => ?_
    exact absurd (h.lock.unique hjm hmints) hj
  · have hle : row.generation ≤ g := hg row rfl
    have hlt : ∀ r, s.db.token = some r → r.generation < g := by
      intro r hr
      rw [hm.row_eq, hr, mintRow_generation] at hle
      omega
    have hrows := hm.supersededRows_commit (g := g)
    rw [supersededRows_of_ne fun r hr => (hlt r hr).ne, h.history g fun r hr => (hlt r hr).le] at hrows
    simpa [Act.dbAfter, Db.commit, hes] using hrows

/-- In these runs only a mint commits. -/
theorem St.act_commit {us : List User} {cs : List CredentialRow} {r : Result} (hp : MintOk env s p)
    (h : s.act env p = some (.commit row us cs es r)) : ∃ m, p = .mint m (.commit es row) := by
  refine St.act_rule (P := fun p a => MintOk env s p → a = .commit row us cs es r →
    ∃ m, p = .mint m (.commit es row)) (fun _ _ _ _ hp => hp.elim) ?_ (fun _ _ _ _ hp => hp.elim) ?_ h hp rfl
  · rintro m pc a ha - rfl
    cases pc <;> simp only [mintAct] at ha <;> (repeat' split at ha) <;> cases ha
    exact ⟨m, rfl⟩
  · rintro b pc a ha - rfl
    cases pc <;> simp only [bootAct] at ha <;> split at ha <;> cases ha

theorem MintInv.mints_of_commit (h : MintInv env s₀ s) {us : List User} {cs : List CredentialRow} {r : Result}
    (hm : s.Moves env i l (.commit row us cs es r)) : ∃ m, s.procs i = .mint m (.commit es row) ∧ l = .exec i := by
  cases hm with
  | exec ha =>
    obtain ⟨m, hp⟩ := St.act_commit (h.procs i) ha
    exact ⟨m, hp, rfl⟩

theorem MintInv.apply (h : MintInv env s₀ s) (hg : MintsOnly s l) (hm : s.Moves env i l a) :
    MintInv env s₀ (s.apply i a) := by
  have hok := hm.mintOk h.users (h.procs i) hg
  have hl := hm.mintLocks
  cases a with
  | goto q | lockMint q | hold q => exact h.apply_quiet hl rfl hok
  | finish r => exact h.apply_quiet hl rfl trivial
  | commit row us cs es r =>
    obtain ⟨rfl, m, now, es', hes, hmint⟩ := hok
    obtain ⟨m', hp, -⟩ := h.mints_of_commit hm
    exact h.apply_commit (by rw [hp]; rfl) hes hmint

theorem MintInv.step (h : MintInv env s₀ s) (hg : MintsOnly s l) (hs : s.step env l = some s') :
    MintInv env s₀ s' := by
  obtain ⟨d, -, rfl⟩ | ⟨i, a, hm, rfl⟩ := St.step_cases hs
  · refine ⟨h.users, h.lock, fun i => (h.procs i).congr ?_ fun _ => rfl, h.history⟩
    exact Int.le_add_of_nonneg_right (Int.natCast_nonneg d)
  · exact h.apply hg hm

theorem MintInv.of_run {ls : List Label} (h₀ : Unclaimed s₀) (h : St.Run env MintsOnly s₀ ls s) :
    MintInv env s₀ s :=
  h.inv h₀.mintInv fun _ _ _ hi hs => hi.step hs.1 hs.2

/-! ## Commits -/

theorem St.step_commit (env : Env) {events : List Audit.Event} (hp : s.procs i = .mint m (.commit events row)) :
    s.step env (.exec i) =
      some (s.apply i (.commit row [] [] events ((Result.minted m.raw row.generation).for m.caller))) := by
  simp [step, hp, act, mintAct]

/-- When a mint commits, what it found is what is stored. -/
theorem MintInv.minting (h : MintInv env s₀ s) {events : List Audit.Event}
    (hp : s.procs i = .mint m (.commit events row)) :
    ∃ now es, events = es ++ [mintedEvent row] ∧ Minting env s m es row now := by
  have hok := h.procs i
  rw [hp] at hok
  exact hok.2

/-- `Boot` mints only if no token is live when it commits. -/
theorem MintInv.vacant (h : MintInv env s₀ s) {events : List Audit.Event}
    (hp : s.procs i = .mint m (.commit events row)) (hb : m.caller = .boot) (hr : s.db.token = some r) :
    r.live s.now = false := by
  have hok := h.procs i
  rw [hp] at hok
  obtain ⟨now, es, -, hm⟩ := hok.2
  rw [Bool.eq_false_iff]
  intro hlive
  have hthen := TokenRow.live_of_le hlive hm.decided.started
  rw [hm.decided.vacant (hok.1 hb) r hr] at hthen
  cases hthen

/-- The step is not the commit of a mint by `vizra claim-token`. -/
def NoRemint (s : St) : Label → Prop
  | .exec i => ∀ m events row, s.procs i = .mint m (.commit events row) → m.caller = .boot
  | _ => True

/-- A stored token stays until it expires, as long as only `Boot` mints. -/
theorem MintInv.token_step (h : MintInv env s₀ s) (hg : NoRemint s l) (hs : s.step env l = some s')
    (hrow : row.unspent = true) (htok : s.now < row.expires_at → s.db.token = some row)
    (hnow : s'.now < row.expires_at) : s'.db.token = some row := by
  obtain ⟨d, -, rfl⟩ | ⟨i, a, hm, rfl⟩ := St.step_cases hs
  · have hlt : s.now < row.expires_at :=
      lt_of_le_of_lt (Int.le_add_of_nonneg_right (Int.natCast_nonneg d)) hnow
    exact htok hlt
  · rw [St.apply_now] at hnow
    cases a with
    | goto q | lockMint q | hold q | finish r => exact htok hnow
    | commit row' us cs es r =>
      obtain ⟨m, hp, rfl⟩ := h.mints_of_commit hm
      have hdead := h.vacant hp (hg m es row' hp) (htok hnow)
      rw [TokenRow.live, hrow, Bool.true_and, decide_eq_false_iff_not] at hdead
      exact absurd hnow hdead

/-- A later commit does not destroy a generation that is destroyed. -/
theorem MintInv.rows_step (h : MintInv env s₀ s) (hs : s.step env l = some s') (hr : s.db.token = some r)
    (hgen : g < r.generation) :
    (∃ r', s'.db.token = some r' ∧ g < r'.generation) ∧
      supersededRows g s'.db.audit = supersededRows g s.db.audit := by
  obtain ⟨d, -, rfl⟩ | ⟨i, a, hm, rfl⟩ := St.step_cases hs
  · exact ⟨⟨r, hr, hgen⟩, rfl⟩
  · rw [St.apply_db]
    cases a with
    | goto q | lockMint q | hold q | finish r => exact ⟨⟨_, hr, hgen⟩, rfl⟩
    | commit row us cs es res =>
      obtain ⟨m, hp, rfl⟩ := h.mints_of_commit hm
      obtain ⟨now, es', rfl, hmint⟩ := h.minting hp
      refine ⟨⟨row, rfl, ?_⟩, ?_⟩
      · rw [hmint.row_eq, hr, mintRow_generation]
        omega
      · have hne : ∀ r', s.db.token = some r' → r'.generation ≠ g := by
          intro r' hr'
          rw [hr] at hr'
          cases hr'
          exact hgen.ne'
        have hrows := hmint.supersededRows_commit (g := g)
        rw [supersededRows_of_ne hne] at hrows
        exact hrows

theorem MintInv.token_run (h : MintInv env s₀ s) {t : St} {ls : List Label}
    (hrun : St.Run env (fun u l => MintsOnly u l ∧ NoRemint u l) s ls t) (hrow : row.unspent = true)
    (htok : s.db.token = some row) (hnow : t.now < row.expires_at) : t.db.token = some row := by
  have hstored : MintInv env s₀ t ∧ (t.now < row.expires_at → t.db.token = some row) := by
    refine hrun.inv (I := fun u => MintInv env s₀ u ∧ (u.now < row.expires_at → u.db.token = some row))
      ⟨h, fun _ => htok⟩ ?_
    rintro u l v ⟨hu, hstored⟩ ⟨⟨hg, hno⟩, hstep⟩
    exact ⟨hu.step hg hstep, hu.token_step hno hstep hrow hstored⟩
  exact hstored.2 hnow

theorem MintInv.rows_run (h : MintInv env s₀ s) {t : St} {ls : List Label} (hrun : St.Run env MintsOnly s ls t)
    (htok : s.db.token = some row) (hgen : g < row.generation) :
    supersededRows g t.db.audit = supersededRows g s.db.audit := by
  have hrows : MintInv env s₀ t ∧ (∃ r, t.db.token = some r ∧ g < r.generation) ∧
      supersededRows g t.db.audit = supersededRows g s.db.audit := by
    refine hrun.inv (I := fun u => MintInv env s₀ u ∧ (∃ r, u.db.token = some r ∧ g < r.generation) ∧
      supersededRows g u.db.audit = supersededRows g s.db.audit) ⟨h, ⟨row, htok, hgen⟩, rfl⟩ ?_
    rintro u l v ⟨hu, ⟨r, hr, hlt⟩, hcount⟩ ⟨hg, hstep⟩
    obtain ⟨hnext, hsame⟩ := hu.rows_step hstep hr hlt
    exact ⟨hu.step hg hstep, hnext, hsame.trans hcount⟩
  exact hrows.2.2

/-- A re-mint over a live token writes the row of the generation it destroys. -/
theorem MintInv.rows_commit (h : MintInv env s₀ s) (hm : Minting env s m es row now) (hr : s.db.token = some r)
    (hlive : r.live s.now = true) :
    supersededRows r.generation (s.db.commit row [] [] (es ++ [mintedEvent row])).audit =
      supersededRows r.generation s₀.db.audit + 1 := by
  have hbefore : supersededRows r.generation s.db.audit = supersededRows r.generation s₀.db.audit := by
    refine h.history _ fun r' hr' => ?_
    rw [hr] at hr'
    cases hr'
    exact le_refl _
  have hthen : r.live now = true := TokenRow.live_of_le hlive hm.decided.started
  rw [hm.supersededRows_commit, hbefore, hr, supersededRows_of_live hthen]

/-- Minting on an instance without users, where any number of calls of `Boot` and of `vizra claim-token`
run in any interleaving. Where a mint of `Boot` commits no token is live, and the token that it prints is
the stored one, and redeemable, until it expires or a re-mint commits. Where a re-mint commits over a live
token, from then on exactly one more row than at the start says that this generation was superseded. -/
theorem boot_minting {ls : List Label} {events : List Audit.Event} {row : TokenRow} (h₀ : Unclaimed s₀)
    (h : St.Run env MintsOnly s₀ ls s) (hp : s.procs i = .mint m (.commit events row))
    (hs : s.step env (.exec i) = some s') :
    (m.caller = .boot →
      (∀ r, s.db.token = some r → r.live s.now = false) ∧
      ∀ ls' t, St.Run env (fun u l => MintsOnly u l ∧ NoRemint u l) s' ls' t → t.now < row.expires_at →
        t.db.token = some row ∧ row.redeemable (env.sha256 m.raw.toList) t.now = true) ∧
    (m.caller = .cli → ∀ r, s.db.token = some r → r.live s.now = true →
      ∀ ls' t, St.Run env MintsOnly s' ls' t →
        supersededRows r.generation t.db.audit = supersededRows r.generation s₀.db.audit + 1) := by
  have hinv := MintInv.of_run h₀ h
  have hinv' : MintInv env s₀ s' := hinv.step (l := .exec i) trivial hs
  obtain ⟨now, es, rfl, hm⟩ := hinv.minting hp
  rw [St.step_commit env hp] at hs
  have hdb : s'.db = s.db.commit row [] [] (es ++ [mintedEvent row]) := by
    rw [← Option.some.inj hs, St.apply_db]
    rfl
  have htok : s'.db.token = some row := by rw [hdb]; rfl
  refine ⟨fun hb => ⟨fun r hr => hinv.vacant hp hb hr, fun ls' t hrun hnow => ?_⟩,
    fun _ r hr hlive ls' t hrun => ?_⟩
  · have hunspent : row.unspent = true := by rw [hm.row_eq, mintRow_unspent]
    have hdigest : row.token_sha256 = env.sha256 m.raw.toList := by rw [hm.row_eq, mintRow_token_sha256]
    refine ⟨hinv'.token_run hrun hunspent htok hnow, ?_⟩
    simpa [TokenRow.redeemable, TokenRow.live, hdigest, hunspent] using hnow
  · have hgen : r.generation < row.generation := by
      rw [hm.row_eq, hr, mintRow_generation]
      omega
    rw [hinv'.rows_run hrun htok hgen, hdb, hinv.rows_commit hm hr hlive]

/-- The mint that a call is about to commit. -/
def Proc.committing : Proc → Option (MintCall × List Audit.Event × TokenRow)
  | .mint m (.commit events row) => some (m, events, row)
  | _ => none

theorem Proc.eq_of_committing {c : MintCall × List Audit.Event × TokenRow} (h : p.committing = some c) :
    p = .mint c.1 (.commit c.2.1 c.2.2) := by
  unfold committing at h
  split at h
  · cases h
    rfl
  · cases h

instance : ∀ (s : St) (l : Label), Decidable (MintsOnly s l)
  | _, .spawn _ (.mint m) => inferInstanceAs (Decidable (m.caller = .cli))
  | _, .spawn _ (.claim _) | _, .spawn _ .supersede => .isFalse id
  | _, .spawn _ (.boot _) | _, .tick _ | _, .exec _ | _, .abort _ => .isTrue trivial

def exampleBoot : BootCall := { stderr := true, ttl := hour, raw := exampleToken }

/-- Call 0 is a boot and is about to commit its mint. -/
def bootLabels : List Label := .spawn 0 (.boot exampleBoot) :: List.replicate 9 (.exec 0)

/-- It commits, and call 1 is a re-mint that is about to commit. -/
def remintLabels : List Label :=
  bootLabels ++ .exec 0 :: .spawn 1 (.mint { exampleMint with raw := "ff" }) :: List.replicate 7 (.exec 1)

theorem boot_minting_example :
    (∃ s s' row, St.Run exampleEnv MintsOnly (.init 0) bootLabels s ∧
      s.step exampleEnv (.exec 0) = some s' ∧ s'.db.token = some row ∧
      row.redeemable (exampleEnv.sha256 exampleToken.toList) s'.now = true) ∧
    ∃ s s', St.Run exampleEnv MintsOnly (.init 0) remintLabels s ∧
      s.step exampleEnv (.exec 1) = some s' ∧ supersededRows 1 s'.db.audit = 1 := by
  constructor
  · obtain ⟨s, hs, ht⟩ := Lts.Run.of_exec_any
      (P := fun s : St => (s.procs 0).committing.any fun c =>
        c.1.caller = .boot && c.1.raw = exampleToken && s.now < c.2.2.expires_at)
      (by decide +kernel :
        (Lts.exec (Lts.restrict MintsOnly (St.step exampleEnv)) (.init 0) bootLabels).any _ = true)
    obtain ⟨c, hc, ht⟩ := (Option.any_eq_true _ _).mp ht
    simp only [Bool.and_eq_true, decide_eq_true_eq] at ht
    have hp := Proc.eq_of_committing hc
    have hstep := St.step_commit exampleEnv hp
    have hrun : St.Run exampleEnv MintsOnly (.init 0) bootLabels s :=
      hs.mono fun _ _ _ => Lts.graph_restrict
    have hboot := (boot_minting (Unclaimed.init 0) hrun hp hstep).1 ht.1.1
    have hstored := hboot.2 [] _ .refl (by simpa using ht.2)
    rw [ht.1.2] at hstored
    exact ⟨s, _, c.2.2, hrun, hstep, hstored⟩
  · obtain ⟨s, hs, ht⟩ := Lts.Run.of_exec_any
      (P := fun s : St => (s.procs 1).committing.any (fun c => c.1.caller = .cli) &&
        s.db.token.any fun r => r.generation = 1 && r.live s.now)
      (by decide +kernel :
        (Lts.exec (Lts.restrict MintsOnly (St.step exampleEnv)) (.init 0) remintLabels).any _ = true)
    simp only [Bool.and_eq_true, Option.any_eq_true, decide_eq_true_eq] at ht
    obtain ⟨⟨c, hc, hcli⟩, r, hr, hgen, hlive⟩ := ht
    have hp := Proc.eq_of_committing hc
    have hstep := St.step_commit exampleEnv hp
    have hrun : St.Run exampleEnv MintsOnly (.init 0) remintLabels s :=
      hs.mono fun _ _ _ => Lts.graph_restrict
    have hone := (boot_minting (Unclaimed.init 0) hrun hp hstep).2 hcli r hr hlive [] _ .refl
    rw [hgen] at hone
    exact ⟨s, _, hrun, hstep, hone⟩

end Vizra.OwnerClaim
