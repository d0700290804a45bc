import Vizra.Lts.Lock
import Vizra.OwnerClaim.System

/-!
# What a step of the owner claim can do

`St.step_cases` splits a step into an advance of the clock and a move of one call, and `St.act_locks` says
for every move how it treats the row lock: a call has uncommitted writes of the token row exactly while
it holds the lock (`LockInv`), so only the holder commits.
-/

namespace Vizra.OwnerClaim

open Go Vizra.Pg

variable {env : Env} {s s' : St} {i j : Nat} {l : Label} {a : Act} {p : Proc}

/-- A call whose transaction has written the token row and not ended. -/
def Proc.holds : Proc → Bool
  | .claim _ (.audit ..) | .claim _ (.commit ..) => true
  | .mint _ (.audit ..) | .mint _ (.commit ..) => true
  | .supersede _ (.audit ..) | .supersede _ (.commit ..) => true
  | _ => false

/-! ## Rows -/

theorem anyUserExists_of_nil {db : Db} (h : db.users = []) : anyUserExists db = false := by
  simp [anyUserExists, h]

/-- A token that is live was live before. -/
theorem TokenRow.live_of_le {r : TokenRow} {t now : Time} (h : r.live now = true) (ht : t ≤ now) :
    r.live t = true := by
  simp only [live, Bool.and_eq_true, decide_eq_true_iff] at h ⊢
  exact ⟨h.1, lt_of_le_of_lt ht h.2⟩

/-! ## Moves -/

/-- The moves of call `i` that a label stands for. -/
inductive St.Moves (env : Env) (s : St) (i : Nat) : Label → Act → Prop where
  | exec {a : Act} (h : s.act env (s.procs i) = some a) : Moves env s i (.exec i) a
  | spawn {call : Call} (h : s.procs i = .idle) : Moves env s i (.spawn i call) (.goto call.start)
  | abort (h : (s.procs i).running = true) : Moves env s i (.abort i) (.finish .unavailable)

theorem St.step_cases (h : s.step env l = some s') :
    (∃ d : Nat, l = .tick d ∧ s' = { s with now := s.now + d }) ∨
      ∃ i a, s.Moves env i l a ∧ s' = s.apply i a := by
  cases l with
  | tick d => exact Or.inl ⟨d, rfl, (Option.some.inj h).symm⟩
  | spawn i call =>
    simp only [step] at h
    split at h
    · exact Or.inr ⟨i, _, .spawn ‹_›, (Option.some.inj h).symm⟩
    · cases h
  | exec i =>
    simp only [step, Option.map_eq_some_iff] at h
    obtain ⟨a, ha, rfl⟩ := h
    exact Or.inr ⟨i, a, .exec ha, rfl⟩
  | abort i =>
    simp only [step, Option.ite_none_right_eq_some, Option.some.injEq] at h
    exact Or.inr ⟨i, _, .abort h.1, h.2.symm⟩

/-- What holds of the steps of each kind of call holds of every step. -/
theorem St.act_rule {P : Proc → Act → Prop}
    (claim : ∀ c pc a, claimAct env s c pc = some a → P (.claim c pc) a)
    (mint : ∀ m pc a, mintAct env s m pc = some a → P (.mint m pc) a)
    (supersede : ∀ caller pc a, supersedeAct s caller pc = some a → P (.supersede caller pc) a)
    (boot : ∀ b pc a, bootAct s b pc = some a → P (.boot b pc) a) (h : s.act env p = some a) : P p a := by
  cases p with
  | claim c pc => exact claim c pc a h
  | mint m pc => exact mint m pc a h
  | supersede caller pc => exact supersede caller pc a h
  | boot b pc => exact boot b pc a h
  | idle => cases h
  | done r => cases h

/-- And of every move, if it also holds of the start and of the abort of a call. -/
theorem St.Moves.rule {P : Proc → Act → Prop} (h : s.Moves env i l a)
    (exec : ∀ p a, s.act env p = some a → P p a) (spawn : ∀ call : Call, P .idle (.goto call.start))
    (abort : ∀ p, P p (.finish .unavailable)) : P (s.procs i) a := by
  cases h with
  | exec h => exact exec _ _ h
  | @spawn call h =>
    rw [h]
    exact spawn call
  | abort h => exact abort _

/-! ## The state after a move -/

@[simp] theorem St.apply_now (s : St) (i : Nat) (a : Act) : (s.apply i a).now = s.now := by cases a <;> rfl

/-- The counter of the call that moved. -/
def Act.next : Act → Proc
  | goto p | lockMint p | hold p => p
  | commit _ _ _ _ r | finish r => .done r

theorem St.apply_procs (s : St) (i : Nat) (a : Act) :
    (s.apply i a).procs = Function.update s.procs i a.next := by
  cases a <;> rfl

@[simp] theorem St.apply_procs_self (s : St) (i : Nat) (a : Act) : (s.apply i a).procs i = a.next := by
  rw [apply_procs, Function.update_self]

@[simp] theorem St.apply_procs_ne (s : St) (a : Act) (h : j ≠ i) :
    (s.apply i a).procs j = s.procs j := by
  rw [apply_procs, Function.update_of_ne h]

theorem St.forall_procs_apply {Q : Proc → Prop} (hself : Q a.next) (hother : ∀ j, j ≠ i → Q (s.procs j))
    (j : Nat) : Q ((s.apply i a).procs j) := by
  rw [apply_procs]
  exact (Function.forall_update_iff s.procs fun _ => Q).mpr ⟨hself, hother⟩ j

/-- The rows after a move: only a commit changes them. -/
def Act.dbAfter (db : Db) : Act → Db
  | commit row users credentials events _ => db.commit row users credentials events
  | _ => db

@[simp] theorem St.apply_db (s : St) (i : Nat) (a : Act) : (s.apply i a).db = a.dbAfter s.db := by
  cases a <;> rfl

theorem released_eq_some {lock : Option Nat} : released i lock = some j ↔ lock = some j ∧ j ≠ i := by
  unfold released
  split_ifs with h
  · simp only [false_iff, not_and, not_not]
    intro hj
    rw [h] at hj
    exact (Option.some.inj hj).symm
  · constructor
    · intro hj
      exact ⟨hj, fun e => h (e ▸ hj)⟩
    · exact fun hj => hj.1

/-- A move that does not end the call leaves it running. -/
def Act.KeepsRunning : Act → Prop
  | goto q | lockMint q | hold q => q.running = true
  | commit .. | finish _ => True

theorem claimAct_running {c : ClaimCall} {pc : ClaimPc} (h : claimAct env s c pc = some a) :
    a.KeepsRunning := by
  cases pc <;> simp only [claimAct] at h <;> (repeat' split at h) <;> cases h <;>
    simp [Act.KeepsRunning, Proc.running]

theorem mintAct_running {m : MintCall} {pc : MintPc} (h : mintAct env s m pc = some a) :
    a.KeepsRunning := by
  cases pc <;> simp only [mintAct] at h <;> (repeat' split at h) <;> cases h <;>
    simp [Act.KeepsRunning, Proc.running]

theorem supersedeAct_running {caller : Caller} {pc : SupersedePc} (h : supersedeAct s caller pc = some a) :
    a.KeepsRunning := by
  cases pc <;> simp only [supersedeAct] at h <;> (repeat' split at h) <;> cases h <;>
    simp [Act.KeepsRunning, Proc.running]

theorem bootAct_running {b : BootCall} {pc : BootPc} (h : bootAct s b pc = some a) : a.KeepsRunning := by
  cases pc <;> simp only [bootAct] at h <;> split at h <;> cases h <;>
    simp [Act.KeepsRunning, Proc.running]

theorem Call.start_running (call : Call) : call.start.running = true := by cases call <;> rfl

theorem St.act_running (h : s.act env p = some a) : a.KeepsRunning :=
  St.act_rule (P := fun _ a => a.KeepsRunning) (fun _ _ _ => claimAct_running) (fun _ _ _ => mintAct_running)
    (fun _ _ _ => supersedeAct_running) (fun _ _ _ => bootAct_running) h

theorem St.Moves.keepsRunning (h : s.Moves env i l a) : a.KeepsRunning :=
  h.rule (P := fun _ a => a.KeepsRunning) (fun _ _ => St.act_running) Call.start_running fun _ => trivial

/-! ## The row lock -/

/-- How a move of a call at `p` treats the row lock. -/
def Act.Locks (s : St) (p : Proc) : Act → Prop
  | goto q => q.holds = p.holds
  | lockMint q => p.holds = false ∧ q.holds = false
  | hold q => s.tokenLock = none ∧ p.holds = false ∧ q.holds = true
  | commit .. => p.holds = true
  | finish _ => True

theorem claimAct_locks {c : ClaimCall} {pc : ClaimPc} (h : claimAct env s c pc = some a) :
    a.Locks s (.claim c pc) := by
  cases pc <;> simp only [claimAct] at h <;> (repeat' split at h) <;> cases h <;>
    simp_all [Act.Locks, Proc.holds]

theorem mintAct_locks {m : MintCall} {pc : MintPc} (h : mintAct env s m pc = some a) :
    a.Locks s (.mint m pc) := by
  cases pc <;> simp only [mintAct] at h <;> (repeat' split at h) <;> cases h <;>
    simp_all [Act.Locks, Proc.holds]

theorem supersedeAct_locks {caller : Caller} {pc : SupersedePc} (h : supersedeAct s caller pc = some a) :
    a.Locks s (.supersede caller pc) := by
  cases pc <;> simp only [supersedeAct] at h <;> (repeat' split at h) <;> cases h <;>
    simp_all [Act.Locks, Proc.holds]

theorem bootAct_locks {b : BootCall} {pc : BootPc} (h : bootAct s b pc = some a) :
    a.Locks s (.boot b pc) := by
  cases pc <;> simp only [bootAct] at h <;> (repeat' split at h) <;> cases h <;>
    simp_all [Act.Locks, Proc.holds]

theorem St.act_locks (h : s.act env p = some a) : a.Locks s p :=
  St.act_rule (P := fun p a => a.Locks s p) (fun _ _ _ => claimAct_locks) (fun _ _ _ => mintAct_locks)
    (fun _ _ _ => supersedeAct_locks) (fun _ _ _ => bootAct_locks) h

theorem Call.start_holds (call : Call) : call.start.holds = false := by cases call <;> rfl

theorem St.Moves.locks (h : s.Moves env i l a) : a.Locks s (s.procs i) :=
  h.rule (P := fun p a => a.Locks s p) (fun _ _ => St.act_locks) Call.start_holds fun _ => trivial

/-- A call has written the token row exactly if it holds the row lock. -/
def LockInv (s : St) : Prop := ∀ i, (s.procs i).holds = true ↔ s.tokenLock = some i

theorem LockInv.init (now : Time) : LockInv (.init now) := fun i => by simp [St.init, Proc.holds]

theorem LockInv.owned (h : LockInv s) : Lts.Owned (Proc.holds ∘ s.procs) s.tokenLock := h

/-- At most one call holds the row lock. -/
theorem LockInv.unique (h : LockInv s) (hi : (s.procs i).holds = true) (hj : (s.procs j).holds = true) :
    i = j :=
  h.owned.unique hi hj

theorem LockInv.apply (h : LockInv s) (ha : a.Locks s (s.procs i)) : LockInv (s.apply i a) := by
  have hprocs : Proc.holds ∘ (s.apply i a).procs =
      Function.update (Proc.holds ∘ s.procs) i a.next.holds := by
    rw [St.apply_procs, Function.comp_update]
  suffices hown : Lts.Owned (Proc.holds ∘ (s.apply i a).procs) (s.apply i a).tokenLock from hown
  rw [hprocs]
  cases a with
  | goto q => exact h.owned.keep ha
  | lockMint q => exact h.owned.keep (ha.2.trans ha.1.symm)
  | hold q =>
    rw [Act.next, ha.2.2]
    exact h.owned.take ha.1 i
  | commit row us cs es r | finish r => exact h.owned.release fun j => released_eq_some

end Vizra.OwnerClaim
