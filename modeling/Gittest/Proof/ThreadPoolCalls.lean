import Gittest.Proof.ThreadPoolInvariant

/-!
# The calls of `add_task`

What a thread has called is what has returned to it, and the call it is in. It holds in every run,
whichever allocations fail.
-/

namespace Gittest

open Transition

variable {W C : Type}

/-- The calls of `add_task` that a run begins, in order. -/
def PoolAction.calls (actions : List (PoolAction W C)) : List (C × ThreadpoolTask) :=
  actions.filterMap fun
    | .call c task => some (c, task)
    | _ => none

/-- The task of the call the thread is in. -/
def CallerPc.task? : CallerPc → Option ThreadpoolTask
  | .idle => none
  | .lock task | .test task | .wait task | .relock task | .enq task | .count task | .signal task
  | .unlock task => some task

namespace Pool

variable [DecidableEq C] {s s' : Pool W C} {alloc : Allocator}

/-- Of each thread's calls, in its order, all have returned but the one it is in. -/
def Served (s : Pool W C) (calls : List (C × ThreadpoolTask)) : Prop :=
  ∀ c, (calls.filter fun call => call.1 = c)
    = (s.returned.filter fun call => call.1 = c) ++ (s.caller c).task?.toList.map (c, ·)

theorem Served.congr {calls : List (C × ThreadpoolTask)} (hserved : s.Served calls)
    (htask : ∀ c, (s'.caller c).task? = (s.caller c).task?) (hreturned : s'.returned = s.returned) :
    s'.Served calls := by
  intro c
  rw [hserved c, htask c, hreturned]

theorem Served.move {calls : List (C × ThreadpoolTask)} (hserved : s.Served calls) {c : C} {pc : CallerPc}
    (hcaller : s'.caller = Function.update s.caller c pc) (hpc : pc.task? = (s.caller c).task?)
    (hreturned : s'.returned = s.returned) : s'.Served calls := by
  refine hserved.congr (fun d => ?_) hreturned
  rw [hcaller]
  by_cases hd : d = c
  · rw [hd, Function.update_self, hpc]
  · rw [Function.update_of_ne hd]

/-- A call begins. -/
theorem Served.call {calls : List (C × ThreadpoolTask)} (hserved : s.Served calls) {c : C}
    (hidle : s.caller c = .idle) {task : ThreadpoolTask} :
    (s.setCaller c (.lock task)).Served (calls ++ [(c, task)]) := by
  intro d
  have hd := hserved d
  rw [caller_setCaller, List.filter_append, hd]
  change _ = (s.returned.filter fun call => call.1 = d) ++ _
  by_cases hdc : d = c
  · subst hdc
    rw [hidle, Function.update_self]
    simp [CallerPc.task?]
  · have hcd : ¬c = d := fun h => hdc h.symm
    rw [Function.update_of_ne hdc]
    simp [hcd]

/-- A call returns. -/
theorem Served.return {calls : List (C × ThreadpoolTask)} (hserved : s.Served calls) {c : C}
    {task : ThreadpoolTask} (hpc : s.caller c = .unlock task)
    (hcaller : s'.caller = Function.update s.caller c .idle)
    (hreturned : s'.returned = s.returned ++ [(c, task)]) : s'.Served calls := by
  intro d
  have hd := hserved d
  rw [hcaller, hreturned, List.filter_append, hd]
  by_cases hdc : d = c
  · subst hdc
    rw [hpc, Function.update_self]
    simp [CallerPc.task?]
  · have hcd : ¬c = d := fun h => hdc h.symm
    rw [Function.update_of_ne hdc]
    simp [hcd]

omit [DecidableEq C] in
theorem task?_workerStep [DecidableEq W] {w : W} (hstep : s.workerStep w = some s') :
    (∀ c, (s'.caller c).task? = (s.caller c).task?) ∧ s'.returned = s.returned := by
  cases hpc : s.worker w with
  | broadcast task =>
      simp only [workerStep, hpc, Option.some.injEq] at hstep
      subst hstep
      refine ⟨fun c => ?_, rfl⟩
      change (s.caller c).awake.task? = _
      cases s.caller c <;> rfl
  | deq =>
      simp only [workerStep, hpc, onHeap, Option.some.injEq] at hstep
      repeat' split at hstep
      all_goals subst hstep; exact ⟨fun _ => rfl, rfl⟩
  | count task =>
      simp only [workerStep, hpc, addSize, Option.some.injEq] at hstep
      split at hstep
      all_goals subst hstep; exact ⟨fun _ => rfl, rfl⟩
  | _ =>
      simp only [workerStep, hpc] at hstep
      repeat' split at hstep
      all_goals cases hstep
      all_goals exact ⟨fun _ => rfl, rfl⟩

/-- A thread keeps its task until `add_task` returns. -/
theorem task?_callerStep {c : C} (hpc : ∀ task, s.caller c ≠ .unlock task)
    (hstep : s.callerStep alloc c = some s') :
    ∃ pc, s'.caller = Function.update s.caller c pc ∧ pc.task? = (s.caller c).task? ∧
      s'.returned = s.returned := by
  cases hnow : s.caller c with
  | unlock task => exact absurd hnow (hpc task)
  | enq task =>
      simp only [callerStep, hnow, onHeap, Option.some.injEq] at hstep
      repeat' split at hstep
      all_goals subst hstep
      · exact ⟨.count task, rfl, rfl, rfl⟩
      · exact ⟨.count task, rfl, rfl, rfl⟩
      · exact ⟨s.caller c, (Function.update_eq_self _ _).symm, by rw [hnow], rfl⟩
  | count task =>
      simp only [callerStep, hnow, addSize, Option.some.injEq] at hstep
      split at hstep
      all_goals subst hstep
      · exact ⟨.signal task, rfl, rfl, rfl⟩
      · exact ⟨s.caller c, (Function.update_eq_self _ _).symm, by rw [hnow], rfl⟩
  | _ =>
      simp only [callerStep, hnow] at hstep
      repeat' split at hstep
      all_goals cases hstep
      all_goals exact ⟨_, rfl, rfl, rfl⟩

theorem Served.step [Fintype W] [DecidableEq W] {calls : List (C × ThreadpoolTask)} (hserved : s.Served calls)
    {a : PoolAction W C} (hstep : s.step alloc a = some s') :
    s'.Served (calls ++ PoolAction.calls [a]) := by
  unfold Pool.step at hstep
  split at hstep
  · cases hstep
  · cases a with
    | call c task =>
        dsimp only at hstep
        split at hstep
        · rename_i hidle
          cases hstep
          exact hserved.call hidle
        · cases hstep
    | caller c =>
        change s'.Served (calls ++ [])
        rw [List.append_nil]
        by_cases hpc : ∃ task, s.caller c = .unlock task
        · obtain ⟨task, hpc⟩ := hpc
          simp only [callerStep, hpc, Option.some.injEq] at hstep
          subst hstep
          exact hserved.return hpc rfl rfl
        · push Not at hpc
          obtain ⟨pc, hcaller, htask, hreturned⟩ := task?_callerStep hpc hstep
          exact hserved.move hcaller htask hreturned
    | signal c woken =>
        change s'.Served (calls ++ [])
        rw [List.append_nil]
        cases hpc : s.caller c with
        | signal task =>
            simp only [signalStep, hpc] at hstep
            split at hstep
            · cases hstep
              exact hserved.move rfl (by rw [hpc]; rfl) rfl
            · cases hstep
        | _ => simp [signalStep, hpc] at hstep
    | worker w =>
        change s'.Served (calls ++ [])
        rw [List.append_nil]
        obtain ⟨htask, hreturned⟩ := task?_workerStep hstep
        exact hserved.congr htask hreturned
    | wakeWorker w =>
        dsimp only at hstep
        split at hstep
        · cases hstep
          change (s.setWorker w .relock).Served (calls ++ [])
          rw [List.append_nil]
          exact hserved.congr (fun _ => rfl) rfl
        · cases hstep
    | wakeCaller c =>
        dsimp only at hstep
        split at hstep
        · rename_i task hwait
          cases hstep
          change (s.setCaller c (.relock task)).Served (calls ++ [])
          rw [List.append_nil]
          exact hserved.move rfl (by rw [hwait]; rfl) rfl
        · cases hstep

theorem Served.run [Fintype W] [DecidableEq W] {calls : List (C × ThreadpoolTask)} (hserved : s.Served calls)
    {actions : List (PoolAction W C)} (hrun : run (Pool.step alloc) s actions = some s') :
    s'.Served (calls ++ PoolAction.calls actions) := by
  induction actions generalizing s calls with
  | nil =>
      rw [run_nil, Option.some.injEq] at hrun
      rw [← hrun]
      change s.Served (calls ++ [])
      rwa [List.append_nil]
  | cons a actions ih =>
      obtain ⟨t, ht, hrest⟩ := run_cons_eq_some.mp hrun
      have hlater := ih (hserved.step ht) hrest
      rwa [List.append_assoc, PoolAction.calls, PoolAction.calls, ← List.filterMap_append] at hlater

variable {queueMax : Int} {m₀ : Mem ThreadpoolTask Unit} {s₀ : Pool W C}

omit [DecidableEq C] in
/-- The pool as the constructor leaves it. -/
theorem eq_of_new (hnew : Pool.new W C alloc queueMax m₀ = .ok s₀) :
    (∀ w, s₀.worker w = .lock) ∧ (∀ c, s₀.caller c = .idle) ∧ s₀.accepted = [] ∧ s₀.taken = [] ∧
      s₀.returned = [] := by
  rw [Pool.new] at hnew
  cases hcreat : queueCreat alloc 16 m₀ with
  | error fault =>
      rw [hcreat] at hnew
      cases hnew
  | ok result =>
      rw [hcreat] at hnew
      cases hnew
      exact ⟨fun _ => rfl, fun _ => rfl, rfl, rfl, rfl⟩

theorem served_new (hnew : Pool.new W C alloc queueMax m₀ = .ok s₀) : s₀.Served [] := by
  obtain ⟨-, hcaller, -, -, hreturned⟩ := eq_of_new hnew
  intro c
  rw [hcaller c, hreturned]
  rfl

end Pool

end Gittest
