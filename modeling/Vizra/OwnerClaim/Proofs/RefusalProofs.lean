import Vizra.OwnerClaim.Proofs.SafetyProofs

/-!
# How a claim is refused, and when it hashes

A call moves to `done tokenNotAccepted` only from `classify`, by a read that found no user, and to the
hasher only from `examine`, by a read that found its token live. Both are facts about the one step at
which a run gets there.
-/

namespace Vizra.OwnerClaim

open Go Vizra.Pg

variable {env : Env} {s s' t : St} {i j : Nat} {l : Label} {a : Act} {p : Proc} {c : ClaimCall}

/-! ## The step that gets there -/

theorem examineToken_some {input : Input} {d : Digest} (h : examineToken env s input = .ok (some d)) :
    ∃ r, s.db.token = some r ∧ r.token_sha256 = input.digest env ∧ r.live s.now = true ∧
      d = r.token_sha256 := by
  unfold examineToken at h
  split at h
  · cases h
  · cases h
  · split at h
    · cases h
    · rename_i r hr
      split at h
      · rename_i hc
        rw [Bool.and_eq_true, decide_eq_true_iff] at hc
        simp only [Except.ok.injEq, Option.some.injEq] at h
        exact ⟨r, hr, hc.1.symm, hc.2, h.symm⟩
      · cases h

/-- The only way to the hasher. -/
theorem act_hash {d : Digest} (h : s.act env p = some a) (hn : a.next = .claim c (.hash d)) :
    p = .claim c .examine ∧ examineToken env s c.input = .ok (some d) := by
  cases p <;> simp only [St.act] at h
  case claim c' pc =>
    cases pc <;> simp only [claimAct] at h <;> (repeat' split at h) <;> cases h <;>
      simp only [Act.next, reduceCtorEq, Proc.claim.injEq, ClaimPc.hash.injEq, and_false] at hn
    obtain ⟨rfl, rfl⟩ := hn
    exact ⟨rfl, ‹_›⟩
  case mint m pc =>
    cases pc <;> simp only [mintAct] at h <;> (repeat' split at h) <;> cases h <;> cases hn
  case supersede caller pc =>
    cases pc <;> simp only [supersedeAct] at h <;> (repeat' split at h) <;> cases h <;> cases hn
  case boot b pc =>
    cases pc <;> simp only [bootAct] at h <;> split at h <;> cases h <;> cases hn
  case idle => cases h
  case done r => cases h

theorem Result.for_eq_tokenNotAccepted {r : Result} {caller : Caller}
    (h : r.for caller = .tokenNotAccepted) : r = .tokenNotAccepted := by
  cases caller with
  | cli => exact h
  | boot => cases r <;> simp_all [Result.for, Result.forBoot]

/-- The only way to `ErrTokenNotAccepted`. -/
theorem act_tokenNotAccepted (h : s.act env p = some a) (hn : a.next = .done .tokenNotAccepted) :
    (∃ c, p = .claim c .classify) ∧ s.db.users = [] := by
  cases p <;> simp only [St.act] at h
  case claim c' pc =>
    cases pc <;> simp only [claimAct] at h <;> (repeat' split at h) <;> cases h <;>
      simp only [Act.next, reduceCtorEq, Proc.done.injEq] at hn
    rename_i hu
    exact ⟨⟨c', rfl⟩, by simpa [anyUserExists] using hu⟩
  case mint m pc =>
    cases pc <;> simp only [mintAct] at h <;> (repeat' split at h) <;> cases h <;>
      simp only [Act.next, reduceCtorEq, Proc.done.injEq] at hn <;>
      cases Result.for_eq_tokenNotAccepted hn
  case supersede caller pc =>
    cases pc <;> simp only [supersedeAct] at h <;> (repeat' split at h) <;> cases h <;>
      simp only [Act.next, reduceCtorEq, Proc.done.injEq] at hn <;>
      cases Result.for_eq_tokenNotAccepted hn
  case boot b pc =>
    cases pc <;> simp only [bootAct] at h <;> split at h <;> cases h <;> cases hn
  case idle => cases h
  case done r => cases h

/-- A step after which call `i` is somewhere else was a move of call `i`. -/
theorem moves_of_ne (h : s.step env l = some s') (hne : s'.procs i ≠ s.procs i) :
    ∃ a, s.Moves env i l a ∧ s' = s.apply i a := by
  obtain ⟨d, -, rfl⟩ | ⟨j, a, hm, rfl⟩ := St.step_cases h
  · exact absurd rfl hne
  · by_cases hj : i = j
    · subst hj
      exact ⟨a, hm, rfl⟩
    · exact absurd (St.apply_procs_ne s a hj) hne

/-- A call that has returned does not move. -/
theorem done_step {r : Result} (hd : s.procs i = .done r) (h : s.step env l = some s') :
    s'.procs i = .done r := by
  by_contra hne
  rw [← hd] at hne
  obtain ⟨a, hm, -⟩ := moves_of_ne h hne
  cases hm with
  | exec ha => rw [hd] at ha; cases ha
  | spawn hidle => rw [hd] at hidle; cases hidle
  | abort hr => rw [hd] at hr; cases hr

theorem done_run {G : St → Label → Prop} {ls : List Label} {r : Result} (h : St.Run env G s ls t)
    (hd : s.procs i = .done r) : t.procs i = .done r :=
  h.inv (I := fun s => s.procs i = .done r) hd fun _ _ _ hi hs => done_step hi hs.2

/-- A test for the end of a call. -/
def Proc.returned (r : Result) : Proc → Bool
  | .done r' => r' = r
  | _ => false

theorem Proc.returned_iff {r : Result} : p.returned r = true ↔ p = .done r := by
  cases p <;> simp [returned]

/-! ## Along a run -/

/-- The step is an examination of the token by the claim `i`: the read phase's, or a half of the redeem. -/
def Examines (s : St) (i : Nat) (l : Label) : Prop :=
  l = .exec i ∧ ∃ c, s.procs i = .claim c .examine ∨ (∃ now q, s.procs i = .claim c (.redeem now q)) ∨
    ∃ now q, s.procs i = .claim c (.redeeming now q)

/-- In the run, call `i` read the users table, found it empty, and never looked at the token again. -/
def ReadNoUser (env : Env) (G : St → Label → Prop) (s : St) (ls : List Label) (i : Nat) : Prop :=
  ∃ pre post t t', ls = pre ++ .exec i :: post ∧ St.Run env G s pre t ∧ t.step env (.exec i) = some t' ∧
    (∃ c, t.procs i = .claim c .classify) ∧ t.db.users = [] ∧
    ∀ p₁ l p₂ u, post = p₁ ++ l :: p₂ → St.Run env G t' p₁ u → ¬ Examines u i l

theorem tokenNotAccepted_read {G : St → Label → Prop} {now : Time} {ls : List Label}
    (h : St.Run env G (.init now) ls s) (hd : s.procs i = .done .tokenNotAccepted) :
    ReadNoUser env G (.init now) ls i := by
  have h0 : ¬ (St.init now).procs i = .done .tokenNotAccepted := by simp [St.init]
  obtain ⟨pre, l, post, t, t', rfl, hpre, hstep, -, hn, hp⟩ :=
    h.crossing (P := fun s => s.procs i = .done .tokenNotAccepted) h0 hd
  obtain ⟨a, hm, rfl⟩ := moves_of_ne hstep.2 (by rw [hp]; exact Ne.symm hn)
  rw [St.apply_procs_self] at hp
  cases hm with
  | exec ha =>
    obtain ⟨hc, hu⟩ := act_tokenNotAccepted ha hp
    refine ⟨pre, post, t, _, rfl, hpre, hstep.2, hc, hu, ?_⟩
    rintro p₁ l p₂ u - hrun ⟨-, c, hex⟩
    -- after the answer the call is done for good and examines nothing
    have hdone := done_run hrun (by rw [St.apply_procs_self, hp])
    rw [hdone] at hex
    rcases hex with hex | ⟨_, _, hex⟩ | ⟨_, _, hex⟩ <;> cases hex
  | @spawn call hidle => cases call <;> cases hp
  | abort hr => cases hp

/-- In the run, the claim `c` read the token row, which had the digest it presents and was live. -/
def ReadLiveToken (env : Env) (G : St → Label → Prop) (s : St) (ls : List Label) (i : Nat)
    (c : ClaimCall) : Prop :=
  ∃ pre post t r, ls = pre ++ .exec i :: post ∧ St.Run env G s pre t ∧
    t.procs i = .claim c .examine ∧ t.db.token = some r ∧ r.token_sha256 = c.input.digest env ∧
    r.live t.now = true

theorem hash_read {G : St → Label → Prop} {now : Time} {ls : List Label} {d : Digest}
    (h : St.Run env G (.init now) ls s) (hd : s.procs i = .claim c (.hash d)) :
    ReadLiveToken env G (.init now) ls i c := by
  have h0 : ¬ (St.init now).procs i = .claim c (.hash d) := by simp [St.init]
  obtain ⟨pre, l, post, t, t', rfl, hpre, hstep, -, hn, hp⟩ :=
    h.crossing (P := fun s => s.procs i = .claim c (.hash d)) h0 hd
  obtain ⟨a, hm, rfl⟩ := moves_of_ne hstep.2 (by rw [hp]; exact Ne.symm hn)
  rw [St.apply_procs_self] at hp
  cases hm with
  | exec ha =>
    obtain ⟨hc, hex⟩ := act_hash ha hp
    obtain ⟨r, hr, hdig, hlive, -⟩ := examineToken_some hex
    exact ⟨pre, post, t, r, rfl, hpre, hc, hr, hdig, hlive⟩
  | @spawn call hidle => cases call <;> cases hp
  | abort hr => cases hp

end Vizra.OwnerClaim
