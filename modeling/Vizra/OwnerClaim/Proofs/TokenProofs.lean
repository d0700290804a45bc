import Vizra.OwnerClaim.Proofs.SafetyProofs

/-!
# No live token on a claimed instance

`MintOwnerClaimToken` checks for users in the snapshot it starts with and writes the row when it gets it.
A claim that commits in between consumes the row the mint is waiting for, and the DO UPDATE of the mint
then revives it. `NoLateMint` excludes that one step, and it is all there is to exclude.
-/

namespace Vizra.OwnerClaim

open Go Vizra.Pg

variable {env : Env} {s s' : St} {i j : Nat} {l : Label} {a : Act} {p : Proc} {db : Db}

/-- No `MintOwnerClaimToken` writes its row after a user was committed. -/
def NoLateMint (s : St) : Label → Prop
  | .exec i =>
    match s.procs i with
    | .mint _ (.upserting ..) => s.db.users = []
    | _ => True
  | _ => True

instance (s : St) (l : Label) : Decidable (NoLateMint s l) := by
  unfold NoLateMint
  split
  · split <;> infer_instance
  · infer_instance

/-- The uncommitted token row of a call, against the committed users. -/
def SpentOk (db : Db) : Proc → Prop
  | .claim _ (.audit row _ _) | .claim _ (.commit row _ _ _) => row.unspent = false
  | .mint _ (.audit ..) | .mint _ (.commit ..) => db.users = []
  | .supersede _ (.audit row) | .supersede _ (.commit row _) => row.unspent = false
  | _ => True

/-- A move and the rows it may commit. -/
def SpentAct (db : Db) : Act → Prop
  | .goto q | .lockMint q | .hold q => SpentOk db q
  | .commit row us _ _ _ => row.unspent = false ∨ db.users = [] ∧ us = []
  | .finish _ => True

theorem claimAct_spent {c : ClaimCall} {pc : ClaimPc} (hp : SpentOk s.db (.claim c pc))
    (h : claimAct env s c pc = some a) : SpentAct s.db a := by
  cases pc <;> simp only [claimAct] at h
  case redeeming now q =>
    (repeat' split at h) <;> cases h
    · simp [SpentAct, SpentOk]
    · simp [SpentAct]
    · rename_i row hr
      obtain ⟨r, -, -, rfl, -⟩ := ClaimOwnerParams.redeem_redeemed hr
      rfl
  case audit row u cr =>
    split at h <;> cases h
    · simp [SpentAct]
    · exact hp
  case commit row u cr e =>
    cases h
    exact Or.inl hp
  all_goals
    (repeat' split at h) <;> cases h <;> simp [SpentAct, SpentOk]

theorem mintAct_spent {m : MintCall} {pc : MintPc} (hp : SpentOk s.db (.mint m pc))
    (hg : ∀ now es, pc = .upserting now es → s.db.users = []) (h : mintAct env s m pc = some a) :
    SpentAct s.db a := by
  cases pc <;> simp only [mintAct] at h
  case upserting now es =>
    (repeat' split at h) <;> cases h
    · simp [SpentAct]
    -- the one place where the condition on the run is used
    · exact hg now es rfl
  case audit es row =>
    cases h
    exact hp
  case commit es row =>
    cases h
    exact Or.inr ⟨hp, rfl⟩
  case begin =>
    cases h
    simp [SpentAct, SpentOk]
  all_goals
    (repeat' split at h) <;> cases h <;> simp [SpentAct, SpentOk]

theorem supersedeAct_spent {caller : Caller} {pc : SupersedePc} (hp : SpentOk s.db (.supersede caller pc))
    (h : supersedeAct s caller pc = some a) : SpentAct s.db a := by
  cases pc <;> simp only [supersedeAct] at h
  case updating now =>
    (repeat' split at h) <;> cases h
    · simp [SpentAct]
    · simp [SpentAct, SpentOk, TokenRow.supersede, TokenRow.unspent]
  case audit row =>
    cases h
    exact hp
  case commit row e =>
    cases h
    exact Or.inl hp
  case begin =>
    cases h
    simp [SpentAct, SpentOk]
  case update now =>
    split at h <;> cases h <;> simp [SpentAct, SpentOk]

theorem bootAct_spent {b : BootCall} {pc : BootPc} (h : bootAct s b pc = some a) : SpentAct s.db a := by
  cases pc <;> simp only [bootAct] at h
  all_goals
    split at h
    all_goals
      cases h
      simp [SpentAct, SpentOk]

theorem St.act_spent (hp : SpentOk s.db p)
    (hg : ∀ m now es, p = .mint m (.upserting now es) → s.db.users = []) (h : s.act env p = some a) :
    SpentAct s.db a :=
  St.act_rule (P := fun p a => SpentOk s.db p →
      (∀ m now es, p = .mint m (.upserting now es) → s.db.users = []) → SpentAct s.db a)
    (fun _ _ _ ha hp _ => claimAct_spent hp ha)
    (fun m _ _ ha hp hg => mintAct_spent hp (fun now es hpc => hg m now es (by rw [hpc])) ha)
    (fun _ _ _ ha hp _ => supersedeAct_spent hp ha) (fun _ _ _ ha _ _ => bootAct_spent ha) h hp hg

theorem St.Moves.spent (hp : SpentOk s.db (s.procs i)) (hg : NoLateMint s l) (h : s.Moves env i l a) :
    SpentAct s.db a := by
  cases h with
  | exec h =>
    refine act_spent hp ?_ h
    intro m now es hpi
    simpa [NoLateMint, hpi] using hg
  | @spawn call h => cases call <;> simp [SpentAct, SpentOk, Call.start]
  | abort h => trivial

/-- The token of a claimed instance is spent, and will stay so whoever commits next. -/
structure SpentInv (s : St) : Prop where
  locks : LockInv s
  procs : ∀ i, SpentOk s.db (s.procs i)
  token : s.db.users ≠ [] → ∀ r, s.db.token = some r → r.unspent = false

theorem SpentInv.init (now : Time) : SpentInv (.init now) :=
  ⟨.init now, fun i => by simp [St.init, SpentOk], by simp [St.init, Db.empty]⟩

theorem SpentOk.of_not_holds {db' : Db} (hp : SpentOk db p) (hh : p.holds = false) : SpentOk db' p := by
  unfold SpentOk at hp ⊢
  split at hp <;> first | cases hh | exact hp

theorem SpentInv.step (h : SpentInv s) (hg : NoLateMint s l) (hs : s.step env l = some s') :
    SpentInv s' := by
  obtain ⟨d, -, rfl⟩ | ⟨i, a, hm, rfl⟩ := St.step_cases hs
  · exact ⟨h.locks, h.procs, h.token⟩
  have hact := hm.spent (h.procs i) hg
  have hl := hm.locks
  have hself : SpentOk (a.dbAfter s.db) a.next := by
    cases a with
    | goto q | lockMint q | hold q => exact hact
    | commit row us cs es r | finish r => simp [Act.next, SpentOk]
  refine ⟨h.locks.apply hl, ?_, ?_⟩
  · rw [St.apply_db]
    refine St.forall_procs_apply hself fun j hj => ?_
    cases a with
    | goto q | lockMint q | hold q | finish r => exact h.procs j
    | commit row us cs es r =>
      -- the call that commits holds the lock, so call `j` has nothing uncommitted
      refine (h.procs j).of_not_holds ?_
      rw [Bool.eq_false_iff]
      exact fun hh => hj (h.locks.unique hh hl)
  · rw [St.apply_db]
    cases a with
    | goto q | lockMint q | hold q | finish r => exact h.token
    | commit row us cs es r =>
      intro hne r hr
      obtain rfl := Option.some.inj hr
      rcases hact with hspent | ⟨hu, rfl⟩
      · exact hspent
      -- a mint commits a live token, but on an instance that stays without users
      · exact absurd (by simp [Act.dbAfter, Db.commit, hu]) hne

theorem SpentInv.of_run {now : Time} {ls : List Label} (h : St.Run env NoLateMint (.init now) ls s) :
    SpentInv s :=
  h.inv (SpentInv.init now) fun _ _ _ hi hs => hi.step hs.1 hs.2

/-- In every run in which no mint writes after a user was committed, a claimed instance never has a live
token. -/
theorem no_live_token_when_claimed {now : Time} {ls : List Label} {s : St}
    (h : St.Run env NoLateMint (.init now) ls s) :
    ¬ (s.db.users ≠ [] ∧ ∃ r, s.db.token = some r ∧ r.live s.now = true) := by
  rintro ⟨hu, r, hr, hlive⟩
  have hspent := (SpentInv.of_run h).token hu r hr
  rw [TokenRow.live, hspent] at hlive
  cases hlive

theorem no_live_token_when_claimed_example :
    ∃ s, St.Run exampleEnv NoLateMint (.init 0) exampleLabels s ∧ s.db.users ≠ [] ∧
      ∀ r, s.db.token = some r → r.live s.now = false := by
  obtain ⟨s, hs, hu⟩ := Lts.Run.of_exec_any (P := fun s => s.db.users ≠ [])
    (by decide +kernel :
      (Lts.exec (Lts.restrict NoLateMint (St.step exampleEnv)) (.init 0) exampleLabels).any _ = true)
  have hrun : St.Run exampleEnv NoLateMint (.init 0) exampleLabels s :=
    hs.mono fun _ _ _ => Lts.graph_restrict
  have hne : s.db.users ≠ [] := of_decide_eq_true hu
  refine ⟨s, hrun, hne, fun r hr => ?_⟩
  rw [Bool.eq_false_iff]
  exact fun hl => no_live_token_when_claimed hrun ⟨hne, r, hr, hl⟩

/-- A claim has the token row, a re-mint starts and waits for it, the claim commits, and the re-mint goes
on. -/
def lateMintLabels : List Label :=
  .spawn 0 (.mint exampleMint) :: List.replicate 8 (.exec 0) ++
    .spawn 1 (.claim exampleClaim) :: List.replicate 7 (.exec 1) ++
    .spawn 2 (.mint { exampleMint with raw := "ff" }) :: List.replicate 5 (.exec 2) ++
    List.replicate 2 (.exec 1) ++ List.replicate 3 (.exec 2)

theorem live_token_when_claimed :
    ∃ s, St.Run exampleEnv anyStep (.init 0) lateMintLabels s ∧ s.db.users ≠ [] ∧
      ∃ r, s.db.token = some r ∧ r.live s.now = true := by
  obtain ⟨s, hs, ht⟩ := Lts.Run.of_exec_any
    (P := fun s : St => decide (s.db.users ≠ []) && s.db.token.any fun r => r.live s.now)
    (by decide +kernel : (Lts.exec (St.step exampleEnv) (.init 0) lateMintLabels).any _ = true)
  rw [Bool.and_eq_true, decide_eq_true_iff, Option.any_eq_true] at ht
  exact ⟨s, hs.mono fun _ _ _ h => ⟨trivial, h⟩, ht⟩

end Vizra.OwnerClaim
