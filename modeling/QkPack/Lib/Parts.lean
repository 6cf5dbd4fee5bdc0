import Mathlib.Data.List.Perm.Basic
import QkPack.Lib.Machine

/-!
# Tasks of several parts

A task works on a store that it shares with others. It does its parts in any order, each of them at once and only once,
and in between the others may change the store as they like.
-/

namespace Parts

variable {ι σ α : Type}

/-- The parts that are left to do, and what the others have found. -/
structure Task (ι σ α : Type) where
  store : σ
  left : List ι
  found : α

inductive Turn (ι σ : Type) where
  | part (i : ι)
  | others (store : σ)

def Turn.foreign : Turn ι σ → List σ
  | .part _ => []
  | .others store => [store]

def Turn.done : Turn ι σ → List ι
  | .part i => [i]
  | .others _ => []

section Step

variable [DecidableEq ι] (act : ι → σ → α → Option (σ × α))

def step (task : Task ι σ α) : Turn ι σ → Option (Task ι σ α)
  | .part i =>
    if i ∈ task.left then
      (act i task.store task.found).map fun r => ⟨r.1,task.left.erase i,r.2⟩
    else none
  | .others store => some { task with store := store }

variable {act} {task task' : Task ι σ α}

theorem step_part {i : ι} {store : σ} {found : α} (hi : i ∈ task.left)
    (hact : act i task.store task.found = some (store,found)) :
    step act task (.part i) = some ⟨store,task.left.erase i,found⟩ := by
  rw [step, if_pos hi, hact]
  rfl

theorem step_left {turn : Turn ι σ} (hstep : step act task turn = some task') :
    task.left.Perm (turn.done ++ task'.left) := by
  cases turn with
  | part i =>
    rw [step] at hstep
    split at hstep
    · case isTrue hi =>
      obtain ⟨r,-,rfl⟩ := Option.map_eq_some_iff.mp hstep
      exact List.perm_cons_erase hi
    · cases hstep
  | others store =>
    cases hstep
    exact .refl _

theorem run_left {turns : List (Turn ι σ)} (hrun : Machine.run (step act) task turns = some task') :
    task.left.Perm (turns.flatMap Turn.done ++ task'.left) := by
  induction turns generalizing task with
  | nil =>
    cases hrun
    exact .refl _
  | cons turn turns ih =>
    obtain ⟨task₁,hstep,hrest⟩ := Machine.run_cons_eq_some.mp hrun
    rw [List.flatMap_cons, List.append_assoc]
    exact (step_left hstep).trans ((ih hrest).append_left _)

end Step

end Parts
