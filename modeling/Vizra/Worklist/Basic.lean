import Mathlib.Algebra.GroupWithZero.Nat
import Mathlib.Algebra.Order.BigOperators.Group.List
import Mathlib.Algebra.Order.Group.Nat
import Mathlib.Data.List.Nodup
import Mathlib.Logic.Relation

/-!
# Worklists

The loop that takes a node from the front of a queue, passes over it if it was seen, and otherwise marks it and
appends its successors. `reach` is what it has marked when the queue is empty, in order. `mem_reach_iff` says that
these are the nodes that can be reached from the ones it starts with, whatever cycles there are. `run` does not append
a successor that is marked; `run_eq_reach` says that it ends with the same nodes.
-/

namespace Worklist

open Relation

section Skips

variable {κ : Type}

/-- The second queue is the first one without some of the nodes that are marked. -/
inductive Skips (seen : List κ) : List κ → List κ → Prop where
  | nil : Skips seen [] []
  | keep (k : κ) {q q' : List κ} (h : Skips seen q q') : Skips seen (k :: q) (k :: q')
  | drop {k : κ} (hk : k ∈ seen) {q q' : List κ} (h : Skips seen q q') : Skips seen (k :: q) q'

theorem skips_refl (seen queue : List κ) : Skips seen queue queue := by
  induction queue with
  | nil => exact .nil
  | cons k queue ih => exact .keep k ih

theorem Skips.append {seen a a' b b' : List κ} (ha : Skips seen a a') (hb : Skips seen b b') :
    Skips seen (a ++ b) (a' ++ b') := by
  induction ha with
  | nil => exact hb
  | keep k _ ih => exact .keep k ih
  | drop hk _ ih => exact .drop hk ih

theorem Skips.mono {seen seen' q q' : List κ} (h : Skips seen q q') (hsub : ∀ k ∈ seen, k ∈ seen') :
    Skips seen' q q' := by
  induction h with
  | nil => exact .nil
  | keep k _ ih => exact .keep k ih
  | drop hk _ ih => exact .drop (hsub _ hk) ih

end Skips

variable {κ : Type} [DecidableEq κ] (succ : κ → List κ)

/-- A number of rounds of the loop. -/
def visit : Nat → List κ → List κ → List κ
  | 0, seen, _ => seen
  | _ + 1, seen, [] => seen
  | n + 1, seen, k :: queue =>
    if k ∈ seen then visit n seen queue else visit n (seen ++ [k]) (queue ++ succ k)

/-- The same loop where a successor that is marked is not appended; nothing if the queue is not empty after that many
rounds. -/
def run : Nat → List κ → List κ → Option (List κ)
  | _, seen, [] => some seen
  | 0, _, _ :: _ => none
  | n + 1, seen, k :: queue =>
    if k ∈ seen then run n seen queue
    else run n (seen ++ [k]) (queue ++ (succ k).filter fun j => j ∉ seen ++ [k])

/-- The successors that are still to be appended. -/
def pending (nodes seen : List κ) : Nat := (nodes.map fun k => if k ∈ seen then 0 else (succ k).length).sum

/-- The loop, where every node with successors is one of `nodes`. -/
def reach (nodes seeds : List κ) : List κ := visit succ (seeds.length + pending succ nodes []) [] seeds

variable {succ}
variable {n : Nat} {seen queue nodes seeds : List κ} {k : κ}

theorem subset_visit : ∀ k ∈ seen, k ∈ visit succ n seen queue := by
  intro k hk
  induction n, seen, queue using visit.induct succ with
  | case1 => exact hk
  | case2 => exact hk
  | case3 n seen j queue hj ih =>
    rw [visit, if_pos hj]
    exact ih hk
  | case4 n seen j queue hj ih =>
    rw [visit, if_neg hj]
    exact ih (List.mem_append_left _ hk)

theorem visit_sound (h : k ∈ visit succ n seen queue) :
    k ∈ seen ∨ ∃ q ∈ queue, ReflTransGen (fun a b => b ∈ succ a) q k := by
  induction n, seen, queue using visit.induct succ with
  | case1 => exact Or.inl h
  | case2 => exact Or.inl h
  | case3 n seen j queue hj ih =>
    rw [visit, if_pos hj] at h
    rcases ih h with hseen | ⟨q, hq, hreach⟩
    · exact Or.inl hseen
    · exact Or.inr ⟨q, List.mem_cons_of_mem _ hq, hreach⟩
  | case4 n seen j queue hj ih =>
    rw [visit, if_neg hj] at h
    rcases ih h with hseen | ⟨q, hq, hreach⟩
    · rcases List.mem_append.mp hseen with hseen | hnew
      · exact Or.inl hseen
      · rw [List.mem_singleton.mp hnew]
        exact Or.inr ⟨j, List.mem_cons_self, .refl⟩
    · rcases List.mem_append.mp hq with hq | hq
      · exact Or.inr ⟨q, List.mem_cons_of_mem _ hq, hreach⟩
      · exact Or.inr ⟨j, List.mem_cons_self, .head hq hreach⟩

theorem pending_append_le (succ : κ → List κ) (nodes seen : List κ) (k : κ) :
    pending succ nodes (seen ++ [k]) ≤ pending succ nodes seen := by
  refine List.sum_le_sum fun j _ => ?_
  by_cases hj : j ∈ seen
  · rw [if_pos hj, if_pos (List.mem_append_left _ hj)]
  · rw [if_neg hj]
    split
    · exact Nat.zero_le _
    · exact le_rfl

/-- Marking a node takes its successors off what is to be appended. -/
theorem pending_mark (hk : k ∉ seen) (hnodes : k ∉ nodes → succ k = []) :
    (succ k).length + pending succ nodes (seen ++ [k]) ≤ pending succ nodes seen := by
  by_cases hmem : k ∈ nodes
  · obtain ⟨before, after, rfl⟩ := List.append_of_mem hmem
    have hbefore := pending_append_le succ before seen k
    have hafter := pending_append_le succ after seen k
    have hsplit : ∀ seen, pending succ (before ++ k :: after) seen =
        pending succ before seen + ((if k ∈ seen then 0 else (succ k).length) + pending succ after seen) := by
      intro seen
      rw [pending, List.map_append, List.sum_append, List.map_cons, List.sum_cons]
      rfl
    rw [hsplit, hsplit, if_neg hk, if_pos (List.mem_append_right _ List.mem_cons_self)]
    omega
  · rw [hnodes hmem, List.length_nil, Nat.zero_add]
    exact pending_append_le succ nodes seen k

/-- With enough rounds the queue runs empty: what was queued is marked, and the successors of what is marked are. -/
theorem visit_closed (hnodes : ∀ k, k ∉ nodes → succ k = []) (hn : queue.length + pending succ nodes seen ≤ n)
    (hseen : ∀ k ∈ seen, ∀ j ∈ succ k, j ∈ seen ∨ j ∈ queue) :
    (∀ k ∈ queue, k ∈ visit succ n seen queue) ∧
      ∀ k ∈ visit succ n seen queue, ∀ j ∈ succ k, j ∈ visit succ n seen queue := by
  induction n, seen, queue using visit.induct succ with
  | case1 seen queue =>
    have hqueue : queue = [] := List.length_eq_zero_iff.mp (by omega)
    subst hqueue
    exact ⟨nofun, fun k hk j hj => (hseen k hk j hj).resolve_right nofun⟩
  | case2 n seen => exact ⟨nofun, fun k hk j hj => (hseen k hk j hj).resolve_right nofun⟩
  | case3 n seen i queue hi ih =>
    have hseen' : ∀ k ∈ seen, ∀ j ∈ succ k, j ∈ seen ∨ j ∈ queue := by
      intro k hk j hj
      rcases hseen k hk j hj with h | h
      · exact Or.inl h
      · rcases List.mem_cons.mp h with rfl | h
        · exact Or.inl hi
        · exact Or.inr h
    rw [List.length_cons] at hn
    have h := ih (by omega) hseen'
    rw [visit, if_pos hi]
    refine ⟨fun k hk => ?_, h.2⟩
    rcases List.mem_cons.mp hk with rfl | hk
    · exact subset_visit _ hi
    · exact h.1 k hk
  | case4 n seen i queue hi ih =>
    have hseen' : ∀ k ∈ seen ++ [i], ∀ j ∈ succ k, j ∈ seen ++ [i] ∨ j ∈ queue ++ succ i := by
      intro k hk j hj
      rcases List.mem_append.mp hk with hk | hk
      · rcases hseen k hk j hj with h | h
        · exact Or.inl (List.mem_append_left _ h)
        · rcases List.mem_cons.mp h with rfl | h
          · exact Or.inl (List.mem_append_right _ List.mem_cons_self)
          · exact Or.inr (List.mem_append_left _ h)
      · rw [List.mem_singleton.mp hk] at hj
        exact Or.inr (List.mem_append_right _ hj)
    have hmark := pending_mark hi (hnodes i)
    rw [List.length_cons] at hn
    have h := ih (by rw [List.length_append]; omega) hseen'
    rw [visit, if_neg hi]
    refine ⟨fun k hk => ?_, h.2⟩
    rcases List.mem_cons.mp hk with rfl | hk
    · exact subset_visit _ (List.mem_append_right _ List.mem_cons_self)
    · exact h.1 k (List.mem_append_left _ hk)

theorem mem_reach_iff (hnodes : ∀ k, k ∉ nodes → succ k = []) :
    k ∈ reach succ nodes seeds ↔ ∃ q ∈ seeds, ReflTransGen (fun a b => b ∈ succ a) q k := by
  constructor
  · intro h
    exact (visit_sound h).resolve_left nofun
  · rintro ⟨q, hq, h⟩
    have hclosed := visit_closed hnodes (Nat.le_refl (seeds.length + pending succ nodes [])) nofun
    induction h with
    | refl => exact hclosed.1 q hq
    | tail _ hstep ih => exact hclosed.2 _ ih _ hstep

theorem nodup_visit (h : seen.Nodup) : (visit succ n seen queue).Nodup := by
  induction n, seen, queue using visit.induct succ with
  | case1 => exact h
  | case2 => exact h
  | case3 n seen k queue hk ih =>
    rw [visit, if_pos hk]
    exact ih h
  | case4 n seen k queue hk ih =>
    rw [visit, if_neg hk]
    refine ih (List.nodup_append.mpr ⟨h, List.nodup_singleton k, ?_⟩)
    rintro a ha b hb rfl
    rw [List.mem_singleton.mp hb] at ha
    exact hk ha

theorem nodup_reach : (reach succ nodes seeds).Nodup := nodup_visit List.nodup_nil

/-! ## Passing over what is marked -/

theorem skips_filter (seen queue : List κ) : Skips seen queue (queue.filter fun j => j ∉ seen) := by
  induction queue with
  | nil => exact .nil
  | cons k queue ih =>
    by_cases hk : k ∈ seen
    · rw [List.filter_cons_of_neg (by simpa using hk)]
      exact .drop hk ih
    · rw [List.filter_cons_of_pos (by simpa using hk)]
      exact .keep k ih

/-- With enough rounds the two loops mark the same nodes in the same order. -/
theorem run_eq_visit (hnodes : ∀ k, k ∉ nodes → succ k = []) {m : Nat} {q q' : List κ} (hskips : Skips seen q q')
    (hm : q.length + pending succ nodes seen ≤ m) (hn : q'.length + pending succ nodes seen ≤ n) :
    run succ n seen q' = some (visit succ m seen q) := by
  induction m generalizing n seen q q' with
  | zero =>
    have hq : q = [] := List.length_eq_zero_iff.mp (by omega)
    subst hq
    cases hskips
    rw [run, visit]
  | succ m ih =>
    cases hskips with
    | nil => rw [run, visit]
    | @drop k hk q _ hskips =>
      rw [List.length_cons] at hm
      rw [visit, if_pos hk]
      exact ih hskips (by omega) hn
    | @keep k q q' hskips =>
      rw [List.length_cons] at hm hn
      obtain ⟨n, rfl⟩ : ∃ n', n = n' + 1 := ⟨n - 1, by omega⟩
      by_cases hk : k ∈ seen
      · rw [run, if_pos hk, visit, if_pos hk]
        exact ih hskips (by omega) (by omega)
      · rw [run, if_neg hk, visit, if_neg hk]
        have hmark := pending_mark hk (hnodes k)
        have hfilter := List.length_filter_le (fun j => decide (j ∉ seen ++ [k])) (succ k)
        have hsub : ∀ j ∈ seen, j ∈ seen ++ [k] := fun j hj => List.mem_append_left _ hj
        refine ih ((hskips.mono hsub).append (skips_filter _ _)) ?_ ?_
        · rw [List.length_append]
          omega
        · rw [List.length_append]
          omega

/-- The loop that passes over what is marked ends, and returns what can be reached. -/
theorem run_eq_reach (hnodes : ∀ k, k ∉ nodes → succ k = []) (hn : seeds.length + pending succ nodes [] ≤ n) :
    run succ n [] seeds = some (reach succ nodes seeds) :=
  run_eq_visit hnodes (skips_refl _ _) le_rfl hn

/-- A node without successors reaches itself only. -/
theorem reach_singleton (h : succ k = []) : reach succ nodes [k] = [k] := by
  have hempty : ∀ n, visit succ n [k] [] = [k] := by
    intro n
    cases n with
    | zero => rfl
    | succ n => rfl
  rw [reach, List.length_singleton, Nat.add_comm, visit, if_neg List.not_mem_nil, h]
  exact hempty _

end Worklist
