import Gittest.Proof.ThreadPoolCalls

/-!
# What the thread pool guarantees

In every state that any interleaving of the workers and of any number of threads in `add_task` leads to:
no task is lost or taken twice, the tasks are taken in order, and whoever is blocked has a reason to be.
-/

namespace Gittest

open Monitor Outcome Transition

variable {W C : Type} [Fintype W]

theorem threadNum_pos (threadnum : Int) : 0 < threadNum threadnum := by
  unfold threadNum
  split <;> omega

/-! ### Every reachable state -/

omit [Fintype W] in
theorem Pool.exists_taskQueue {alloc : Allocator}
    (htotal : alloc.Total) {queueMax : Int} {m₀ : Mem ThreadpoolTask Unit} {s₀ : Pool W C}
    (hnew : Pool.new W C alloc queueMax m₀ = .ok s₀) : ∃ ptr, s₀.taskQueue = some ptr := by
  obtain ⟨ptr, hanswer⟩ := Mem.exists_answer htotal (by decide : (0 : Int) ≤ 24) m₀
  obtain ⟨m, hmade⟩ := llistCreat_ok 16 hanswer
  rw [Pool.new, queueCreat, hmade] at hnew
  cases hnew
  exact ⟨ptr, rfl⟩

theorem Pool.inv_new {alloc : Allocator} {queueMax : Int}
    (hqueueMax : 1 ≤ queueMax ∧ queueMax ≤ intMax) {m₀ : Mem ThreadpoolTask Unit} {s₀ : Pool W C}
    (hnew : Pool.new W C alloc queueMax m₀ = .ok s₀) {ptr : Addr}
    (hqueue : s₀.taskQueue = some ptr) : s₀.Inv ptr [] := by
  obtain ⟨m, hmade⟩ : ∃ m, llistCreat alloc 16 m₀ = .ok (some ptr, m) := by
    cases hcreat : llistCreat alloc 16 m₀ with
    | error fault =>
        rw [Pool.new, queueCreat, hcreat] at hnew
        cases hnew
    | ok result =>
        rw [Pool.new, queueCreat, hcreat] at hnew
        cases hnew
        obtain ⟨q, m⟩ := result
        obtain rfl : q = some ptr := hqueue
        exact ⟨m, rfl⟩
  have hlist := (llistCreat_some hmade).1
  rw [Pool.new, queueCreat, hmade] at hnew
  cases hnew
  refine ⟨fun t => ?_, ?_⟩
  · cases t with
    | worker w => exact ⟨fun h => absurd h Bool.false_ne_true, fun h => absurd h.symm (by simp)⟩
    | caller c => exact ⟨fun h => absurd h Bool.false_ne_true, fun h => absurd h.symm (by simp)⟩
  · exact {
      fault := rfl
      taskQueue := rfl
      queueMax := hqueueMax
      failed := by
        intro w h
        cases h
      list := hlist
      order := rfl
      returned := rfl
      size := rfl
      lower := le_rfl
      upper := by
        change 0 + 0 ≤ queueMax
        omega
      workers := by
        rintro ⟨_, h⟩
        cases h
      callers := by
        rintro ⟨_, _, h⟩
        cases h }

theorem Pool.inv_run [DecidableEq W] [DecidableEq C] {alloc : Allocator} (htotal : alloc.Total) {queueMax : Int}
    (hqueueMax : 1 ≤ queueMax ∧ queueMax ≤ intMax) {m₀ : Mem ThreadpoolTask Unit} {s₀ s : Pool W C}
    (hnew : Pool.new W C alloc queueMax m₀ = .ok s₀) {actions : List (PoolAction W C)}
    (hrun : run (Pool.step alloc) s₀ actions = some s) : ∃ ptr nodes, s.Inv ptr nodes := by
  obtain ⟨ptr, hqueue⟩ := Pool.exists_taskQueue htotal hnew
  have hinit := Pool.inv_new hqueueMax hnew hqueue
  have hstep : ∀ (s : Pool W C) (a : PoolAction W C) (s' : Pool W C),
      (∃ nodes, s.Inv ptr nodes) → s.step alloc a = some s' → ∃ nodes, s'.Inv ptr nodes :=
    fun s a s' ⟨_, hinv⟩ hs => Pool.inv_step (Pool.enqSucceeds_of_total htotal s a) hinv hs
  exact ⟨ptr, run_invariant hstep ⟨[], hinit⟩ hrun⟩

/-! ### Dispatch -/

/-- The queue `nodes` at `ptr` and the counter agree, and each task is in one place. -/
structure Pool.Dispatches (s : Pool W C) (ptr : Addr) (nodes : List (Addr × ThreadpoolTask)) :
    Prop where
  taskQueue : s.taskQueue = some ptr
  list : s.mem.IsList ptr 16 nodes
  size : s.lock = none → s.queueSize = nodes.length
  bounds : s.lock = none → 0 ≤ s.queueSize ∧ s.queueSize ≤ s.queueMaxSize
  deq_succeeds : ∀ w, s.worker w ≠ .failed
  /-- The tasks leave the queue in the order in which they were put there. -/
  order : s.accepted.map Prod.snd = s.taken.map Prod.snd ++ nodes.map Prod.snd
  /-- What has been put in the queue is what calls of `add_task` have returned for, in the same order,
  except for the call that still has the mutex. -/
  returned : s.returned <+: s.accepted
  returned_all : s.lock = none → s.returned = s.accepted
  /-- The task of the `i`-th call that returned has been taken by one worker, as the `i`-th, or is at one
  place of the queue. -/
  place : ∀ i c task, s.returned[i]? = some (c, task) →
    (i < s.taken.length ∧ ∃ w, s.taken[i]? = some (w, task)) ∨
      (s.taken.length ≤ i ∧ ∃ a, nodes[i - s.taken.length]? = some (a, task))
  no_fault : s.fault = none

theorem Pool.Inv.progress_free {s : Pool W C} {ptr : Addr} {nodes : List (Addr × ThreadpoolTask)}
    (hinv : s.Inv ptr nodes) (hfree : s.lock = none) : s.Data ptr nodes {} := by
  have hdata := hinv.data
  rwa [Pool.progress, hfree] at hdata

theorem Pool.Inv.dispatches {s : Pool W C} {ptr : Addr} {nodes : List (Addr × ThreadpoolTask)}
    (hinv : s.Inv ptr nodes) : s.Dispatches ptr nodes where
  taskQueue := hinv.data.taskQueue
  list := hinv.data.list
  size := by
    intro hfree
    have hsize := (hinv.progress_free hfree).size
    simp only at hsize
    omega
  bounds := by
    intro hfree
    have hlower := (hinv.progress_free hfree).lower
    have hupper := (hinv.progress_free hfree).upper
    simp only at hlower hupper
    omega
  deq_succeeds := hinv.data.failed
  order := hinv.data.order
  returned := ⟨_, hinv.data.returned.symm⟩
  returned_all := by
    intro hfree
    have hreturned := (hinv.progress_free hfree).returned
    simp only [List.append_nil] at hreturned
    exact hreturned.symm
  place := by
    intro i c task hget
    have hlt := (List.getElem?_eq_some_iff.mp hget).1
    have haccepted : s.accepted[i]? = some (c, task) := by
      rw [hinv.data.returned, List.getElem?_append_left hlt, hget]
    have horder : (s.taken.map Prod.snd ++ nodes.map Prod.snd)[i]? = some task := by
      rw [← hinv.data.order, List.getElem?_map, haccepted]
      rfl
    by_cases hi : i < s.taken.length
    · rw [List.getElem?_append_left (by simpa using hi), List.getElem?_map,
        Option.map_eq_some_iff] at horder
      obtain ⟨⟨w, _⟩, hw, rfl⟩ := horder
      exact Or.inl ⟨hi, w, hw⟩
    · rw [List.getElem?_append_right (by simpa using hi), List.getElem?_map,
        Option.map_eq_some_iff, List.length_map] at horder
      obtain ⟨⟨a, _⟩, ha, rfl⟩ := horder
      exact Or.inr ⟨by omega, a, ha⟩
  no_fault := hinv.data.fault

/-- **Dispatch is safe.** What a thread has called is what has returned to it, and the call it is in; the
tasks of the calls that have returned are in one place each. -/
theorem threadpool_dispatch_safe [DecidableEq C] {threadnum : Int} {alloc : Allocator} (htotal : alloc.Total)
    {queueMax : Int} (hqueueMax : 1 ≤ queueMax ∧ queueMax ≤ intMax) {m₀ : Mem ThreadpoolTask Unit}
    {s₀ s : Pool (Fin (threadNum threadnum)) C}
    (hnew : Pool.new _ C alloc queueMax m₀ = .ok s₀)
    {actions : List (PoolAction (Fin (threadNum threadnum)) C)}
    (hrun : run (Pool.step alloc) s₀ actions = some s) :
    s.Served (PoolAction.calls actions) ∧ ∃ ptr nodes, s.Dispatches ptr nodes := by
  obtain ⟨ptr, nodes, hinv⟩ := Pool.inv_run htotal hqueueMax hnew hrun
  exact ⟨(Pool.served_new hnew).run hrun, ptr, nodes, hinv.dispatches⟩

/-- A worker finds no task and is blocked, a task is added, and the signal wakes the worker. -/
def addOne (w : Fin (threadNum 2)) : List (PoolAction (Fin (threadNum 2)) Unit) :=
  [.worker w, .worker w, .call () ⟨1, none⟩, .caller (), .caller (), .caller (), .caller (),
    .signal () {w}, .caller ()]

/-- The worker takes that task, and another one is added. -/
def addTwo (w : Fin (threadNum 2)) : List (PoolAction (Fin (threadNum 2)) Unit) :=
  addOne w ++ [.worker w, .worker w, .worker w, .worker w, .worker w, .worker w,
    .call () ⟨2, none⟩, .caller (), .caller (), .caller (), .caller (), .signal () ∅, .caller ()]

theorem threadpool_dispatch_safe_two :
    ∃ (w : Fin (threadNum 2)) (s₀ s : Pool (Fin (threadNum 2)) Unit),
      Pool.new _ _ nextAddress 2 (.empty ()) = .ok s₀ ∧
      run (Pool.step nextAddress) s₀ (addTwo w) = some s ∧ s.taken = [(w, ⟨1, none⟩)] ∧
      s.Served [((), ⟨1, none⟩), ((), ⟨2, none⟩)] ∧ s.caller () = .idle ∧
      ∃ ptr nodes, s.Dispatches ptr nodes ∧ nodes.map Prod.snd = [⟨2, none⟩] := by
  let w : Fin (threadNum 2) := ⟨0, by decide⟩
  have hmade : Meets (fun s₀ => ∃ s ∈ run (Pool.step nextAddress) s₀ (addTwo w),
      s.accepted = [((), ⟨1, none⟩), ((), ⟨2, none⟩)] ∧ s.taken = [(w, ⟨1, none⟩)] ∧
      s.caller () = .idle) (fun _ => False)
      (Pool.new (Fin (threadNum 2)) Unit nextAddress 2 (.empty ())) := by
    decide +kernel
  obtain ⟨s₀, hnew, s, hrun, haccepted, htaken, hidle⟩ := hmade.exists_ok
  obtain ⟨hserved, ptr, nodes, hdispatches⟩ :=
    threadpool_dispatch_safe nextAddress_total (by decide) hnew hrun
  have horder := hdispatches.order
  rw [haccepted, htaken] at horder
  exact ⟨w, s₀, s, hnew, hrun, htaken, hserved, hidle, ptr, nodes, hdispatches,
    (List.cons.inj horder).2.symm⟩

/-- One call of `add_task` from beginning to end, before the worker comes to lock the mutex. -/
def addUnseen : List (PoolAction (Fin (threadNum 1)) Unit) :=
  [.call () ⟨1, none⟩, .caller (), .caller (), .caller (), .caller (), .signal () ∅, .caller ()]

/-! ### Wake-ups -/

/-- The worker is awake, holds no task and is about to test the queue. -/
def WorkerPc.aboutToTest : WorkerPc → Bool
  | .lock | .test | .relock => true
  | _ => false

/-- Whoever is blocked has a reason to be. -/
structure Pool.NoLostWakeup (s : Pool W C) (ptr : Addr) (nodes : List (Addr × ThreadpoolTask)) :
    Prop where
  taskQueue : s.taskQueue = some ptr
  list : s.mem.IsList ptr 16 nodes
  workers : (∃ w, s.worker w = .wait) →
    s.queueSize ≤ (Finset.univ.filter fun w => (s.worker w).aboutToTest).card
  callers : (∃ c task, s.caller c = .wait task) → s.queueMaxSize ≤ s.queueSize
  /-- The workers are not all blocked while a task is queued or a caller of `add_task` is blocked. -/
  awake : (∀ w, s.worker w = .wait) → nodes = [] ∧ ∀ c task, s.caller c ≠ .wait task

theorem Pool.Inv.noLostWakeup [Nonempty W] {s : Pool W C} {ptr : Addr}
    {nodes : List (Addr × ThreadpoolTask)} (hinv : s.Inv ptr nodes) (hfree : s.lock = none) :
    s.NoLostWakeup ptr nodes := by
  have hdata := hinv.progress_free hfree
  have hsize := hdata.size
  have hmax := hdata.queueMax.1
  simp only [Int.add_zero] at hsize
  have howner := hinv.owner
  rw [hfree] at howner
  have hworkers : (∃ w, s.worker w = .wait) →
      s.queueSize ≤ (Finset.univ.filter fun w => (s.worker w).aboutToTest).card := by
    intro hwait
    have hle := hdata.workers hwait
    have hcard : tally WorkerPc.seeking s.worker
        = (Finset.univ.filter fun w => (s.worker w).aboutToTest).card := by
      apply tally_eq_card
      intro w
      have hout := howner.not_inside (.worker w)
      cases hpc : s.worker w with
      | deq =>
          rw [Inside, hpc] at hout
          exact absurd rfl hout
      | _ => rfl
    rw [← hcard]
    simp only [Nat.add_zero] at hle
    omega
  have hcallers : (∃ c task, s.caller c = .wait task) → s.queueMaxSize ≤ s.queueSize := by
    intro hwait
    have hle := hdata.callers hwait
    simp only [Int.add_zero] at hle
    exact hle
  refine ⟨hdata.taskQueue, hdata.list, hworkers, hcallers, fun hall => ?_⟩
  obtain ⟨w⟩ := ‹Nonempty W›
  have hnone : (Finset.univ.filter fun w => (s.worker w).aboutToTest) = ∅ := by
    rw [Finset.filter_eq_empty_iff]
    intro v _
    rw [hall v]
    exact Bool.false_ne_true
  have hle := hworkers ⟨w, hall w⟩
  rw [hnone, Finset.card_empty] at hle
  refine ⟨List.length_eq_zero_iff.mp (by omega), fun c task hwait => ?_⟩
  have hfull := hcallers ⟨c, task, hwait⟩
  omega

/-- **No wake-up is lost.** -/
theorem threadpool_no_lost_wakeup [DecidableEq C] {threadnum : Int} {alloc : Allocator} (htotal : alloc.Total)
    {queueMax : Int} (hqueueMax : 1 ≤ queueMax ∧ queueMax ≤ intMax) {m₀ : Mem ThreadpoolTask Unit}
    {s₀ s : Pool (Fin (threadNum threadnum)) C}
    (hnew : Pool.new _ C alloc queueMax m₀ = .ok s₀)
    {actions : List (PoolAction (Fin (threadNum threadnum)) C)}
    (hrun : run (Pool.step alloc) s₀ actions = some s) (hfree : s.lock = none) :
    ∃ ptr nodes, s.NoLostWakeup ptr nodes := by
  have : Nonempty (Fin (threadNum threadnum)) := ⟨⟨0, threadNum_pos threadnum⟩⟩
  obtain ⟨ptr, nodes, hinv⟩ := Pool.inv_run htotal hqueueMax hnew hrun
  exact ⟨ptr, nodes, hinv.noLostWakeup hfree⟩

theorem threadpool_no_lost_wakeup_one : ∃ s₀ s : Pool (Fin (threadNum 2)) Unit,
    Pool.new _ _ nextAddress 2 (.empty ()) = .ok s₀ ∧
    run (Pool.step nextAddress) s₀ (addOne ⟨0, by decide⟩) = some s ∧ s.lock = none ∧
    ∃ ptr nodes, s.NoLostWakeup ptr nodes := by
  obtain ⟨s₀, s, hnew, hrun, hfree⟩ : ∃ s₀ s : Pool (Fin (threadNum 2)) Unit,
      Pool.new _ _ nextAddress 2 (.empty ()) = .ok s₀ ∧
      run (Pool.step nextAddress) s₀ (addOne ⟨0, by decide⟩) = some s ∧ s.lock = none :=
    ⟨_, _, rfl, rfl, rfl⟩
  exact ⟨s₀, s, hnew, hrun, hfree,
    threadpool_no_lost_wakeup nextAddress_total (by decide) hnew hrun hfree⟩

end Gittest
