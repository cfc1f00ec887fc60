import Gittest.ThreadPoolSafety

/-!
# The thread pool and a failed enqueue

`add_task` reports a failed `queue_enq` to nobody: it counts the task that is not in the queue and returns 0.
The worker that later finds the queue empty goes back to the head of its loop with the mutex. As long as
every `queue_enq` gets its memory nothing of this happens.
-/

namespace Gittest

open Outcome Pool Transition

variable {W C : Type} [Fintype W]

/-- The counter and the queue `nodes` at `ptr` agree whenever the mutex is free, what `add_task` has
returned for was put in the queue, and no worker that has the mutex is about to lock it. -/
structure Pool.Survives (s : Pool W C) (ptr : Addr) (nodes : List (Addr × ThreadpoolTask)) : Prop where
  taskQueue : s.taskQueue = some ptr
  list : s.mem.IsList ptr 16 nodes
  size : s.lock = none → s.queueSize = nodes.length
  returned : s.returned <+: s.accepted
  locks_once : ∀ w, s.worker w = .lock → s.lock ≠ some (.worker w)

theorem Pool.Inv.survives {s : Pool W C} {ptr : Addr} {nodes : List (Addr × ThreadpoolTask)}
    (hinv : s.Inv ptr nodes) : s.Survives ptr nodes where
  taskQueue := hinv.dispatches.taskQueue
  list := hinv.dispatches.list
  size := hinv.dispatches.size
  returned := hinv.dispatches.returned
  locks_once := by
    intro w hpc hlock
    have hin : (s.worker w).inside := (hinv.owner (.worker w)).mpr hlock
    rw [hpc] at hin
    cases hin

/-- **No enqueue fails.** In a run in which every `queue_enq` gets its memory, every state is as it should
be, and what a thread has called is what has returned to it, and the call it is in. -/
theorem threadpool_survives [DecidableEq C] {threadnum : Int} {alloc : Allocator} {queueMax : Int}
    (hqueueMax : 1 ≤ queueMax ∧ queueMax ≤ intMax) {m₀ : Mem ThreadpoolTask Unit}
    {s₀ : Pool (Fin (threadNum threadnum)) C} (hnew : Pool.new _ C alloc queueMax m₀ = .ok s₀)
    (hqueue : s₀.taskQueue ≠ none) {actions : List (PoolAction (Fin (threadNum threadnum)) C)}
    (henq : Along (Pool.step alloc) (Pool.EnqSucceeds alloc) s₀ actions) :
    Throughout (Pool.step alloc) (fun s => ∃ ptr nodes, s.Survives ptr nodes) s₀ actions ∧
      ∀ s, run (Pool.step alloc) s₀ actions = some s → s.Served (PoolAction.calls actions) := by
  obtain ⟨ptr, hptr⟩ := Option.ne_none_iff_exists'.mp hqueue
  have hinit : ∃ nodes, s₀.Inv ptr nodes := ⟨[], Pool.inv_new hqueueMax hnew hptr⟩
  have hstep : ∀ (s : Pool (Fin (threadNum threadnum)) C) (a : PoolAction _ C) (s' : Pool _ C),
      (∃ nodes, s.Inv ptr nodes) → s.EnqSucceeds alloc a → s.step alloc a = some s' →
      ∃ nodes, s'.Inv ptr nodes :=
    fun s a s' ⟨_, hinv⟩ hsucceeds hs => Pool.inv_step hsucceeds hinv hs
  exact ⟨throughout_of_along hstep (fun s ⟨nodes, hinv⟩ => ⟨ptr, nodes, hinv.survives⟩) hinit henq,
    fun s hrun => (Pool.served_new hnew).run hrun⟩

theorem threadpool_survives_two :
    ∃ (w : Fin (threadNum 2)) (s₀ s : Pool (Fin (threadNum 2)) Unit),
      Pool.new _ _ nextAddress 2 (.empty ()) = .ok s₀ ∧ s₀.taskQueue ≠ none ∧
      Along (Pool.step nextAddress) (Pool.EnqSucceeds nextAddress) s₀ (addTwo w) ∧
      Throughout (Pool.step nextAddress) (fun s => ∃ ptr nodes, s.Survives ptr nodes) s₀ (addTwo w) ∧
      run (Pool.step nextAddress) s₀ (addTwo w) = some s ∧ s.taken = [(w, ⟨1, none⟩)] ∧
      s.Served [((), ⟨1, none⟩), ((), ⟨2, none⟩)] := by
  let w : Fin (threadNum 2) := ⟨0, by decide⟩
  have hmade : Meets (fun s₀ => s₀.taskQueue ≠ none ∧
      ∃ s ∈ run (Pool.step nextAddress) s₀ (addTwo w), s.taken = [(w, ⟨1, none⟩)]) (fun _ => False)
      (Pool.new (Fin (threadNum 2)) Unit nextAddress 2 (.empty ())) := by
    decide +kernel
  obtain ⟨s₀, hnew, hqueue, s, hrun, htaken⟩ := hmade.exists_ok
  have halong : Along (Pool.step nextAddress) (Pool.EnqSucceeds nextAddress) s₀ (addTwo w) :=
    along_of_forall (Pool.enqSucceeds_of_total nextAddress_total)
  obtain ⟨hsurvives, hserved⟩ := threadpool_survives (by decide) hnew hqueue halong
  exact ⟨w, s₀, s, hnew, hqueue, halong, hsurvives, hrun, htaken, hserved s hrun⟩

/-! ### An enqueue that fails -/

/-- What is left of `add_task` after its `queue_enq`, with no step of another thread in between. -/
theorem Pool.finish_add_task [DecidableEq W] [DecidableEq C] {alloc : Allocator} {s s' : Pool W C} {c : C}
    {task : ThreadpoolTask} (hpc : s.caller c = .count task) {woken : Finset W}
    (hrun : run (Pool.step alloc) s [.caller c, .signal c woken, .caller c] = some s') :
    s'.accepted = s.accepted ∧ s'.returned = s.returned ++ [(c, task)] := by
  obtain ⟨s₁, hs₁, hrun⟩ := run_cons_eq_some.mp hrun
  obtain ⟨s₂, hs₂, hrun⟩ := run_cons_eq_some.mp hrun
  obtain ⟨s₃, hs₃, hrun⟩ := run_cons_eq_some.mp hrun
  cases hrun
  have hcount : s₁ = s.addSize 1 fun s => s.setCaller c (.signal task) := by
    unfold Pool.step at hs₁
    split at hs₁
    · cases hs₁
    · simp only [Pool.callerStep, hpc, Option.some.injEq] at hs₁
      exact hs₁.symm
  unfold Pool.addSize at hcount
  split at hcount
  · subst hcount
    unfold Pool.step at hs₂
    split at hs₂
    · cases hs₂
    · simp only [Pool.signalStep, caller_setCaller, Function.update_self] at hs₂
      split at hs₂
      · cases hs₂
        unfold Pool.step at hs₃
        split at hs₃
        · cases hs₃
        · simp only [Pool.callerStep, caller_setCaller, Function.update_self, Option.some.injEq] at hs₃
          subst hs₃
          exact ⟨rfl, rfl⟩
      · cases hs₂
  · subst hcount
    simp [Pool.step, Pool.fail] at hs₂

/-- Whenever a `queue_enq` fails, the call of `add_task` returns for a task that is not in the queue. -/
theorem Pool.Inv.not_survives [DecidableEq W] [DecidableEq C] {alloc : Allocator} {s s' : Pool W C}
    {ptr : Addr} {nodes : List (Addr × ThreadpoolTask)} (hinv : s.Inv ptr nodes) {c : C}
    {task : ThreadpoolTask} (hpc : s.caller c = .enq task)
    (hanswer : s.mem.answer alloc (16 + 16) = none) {woken : Finset W}
    (hrun : run (Pool.step alloc) s [.caller c, .caller c, .signal c woken, .caller c] = some s') :
    ¬∃ ptr nodes, s'.Survives ptr nodes := by
  have hin : (s.caller c).inside := by rw [hpc]; rfl
  have hdata := hinv.data_of_caller hin
  have haccepted := hdata.returned
  rw [hpc, CallerPc.progress, List.append_nil] at haccepted
  have henq : (do queueEnq alloc (← deref s.taskQueue) task : MemM ThreadpoolTask Unit _) s.mem
      = .ok (-1, s.mem.refused) := by
    rw [hdata.taskQueue, run_bind deref_ok, queueEnq_refused hdata.list task hanswer]
  obtain ⟨s₁, hs₁, hrun⟩ := run_cons_eq_some.mp hrun
  have hcount : s₁ = { s with mem := s.mem.refused }.setCaller c (.count task) := by
    have hok : ¬s.fault.isSome = true := by
      rw [hdata.fault]
      exact Bool.false_ne_true
    unfold Pool.step at hs₁
    rw [if_neg hok] at hs₁
    simp only [Pool.callerStep, hpc, Pool.onHeap, henq, Option.some.injEq] at hs₁
    rw [← hs₁, if_pos (by decide)]
  subst hcount
  obtain ⟨hsame, hreturned⟩ := Pool.finish_add_task (Function.update_self _ _ _) hrun
  rintro ⟨_, _, hsurvives⟩
  have hle := hsurvives.returned.length_le
  rw [hsame, hreturned, List.length_append, List.length_singleton] at hle
  change s.returned.length + 1 ≤ s.accepted.length at hle
  rw [haccepted] at hle
  omega

/-- A worker looks for a task, and is back at the head of its loop. -/
def lookForTask (w : Fin (threadNum 1)) : List (PoolAction (Fin (threadNum 1)) Unit) :=
  [.worker w, .worker w, .worker w, .worker w]

/-- `add_task` returns 0 for a task that is in no queue, `queue_size` counts it, and then the worker is
about to lock the mutex that it has. -/
theorem threadpool_enqueue_fails : ∃ s₀ s₁ s₂ : Pool (Fin (threadNum 1)) Unit,
    Pool.new _ _ (failsAt 1) 2 (.empty ()) = .ok s₀ ∧ s₀.taskQueue = some 1 ∧
    run (Pool.step (failsAt 1)) s₀ addUnseen = some s₁ ∧
    (s₁.lock = none ∧ s₁.queueSize = 1 ∧ s₁.mem.IsList 1 16 []) ∧ ¬s₁.returned <+: s₁.accepted ∧
    run (Pool.step (failsAt 1)) s₁ (lookForTask ⟨0, by decide⟩) = some s₂ ∧
    s₂.worker ⟨0, by decide⟩ = .lock ∧ s₂.lock = some (.worker ⟨0, by decide⟩) := by
  obtain ⟨m, hmade⟩ : ∃ m : Mem ThreadpoolTask Unit,
      llistCreat (failsAt 1) 16 (.empty ()) = .ok (some 1, m) := ⟨_, rfl⟩
  have hlist := (llistCreat_some hmade).1
  cases hmade
  refine ⟨_, _, _, rfl, rfl, rfl, ⟨rfl, rfl, ?_⟩, ?_, rfl, rfl, rfl⟩
  · exact hlist.frame (fun _ _ => rfl) hlist.live
  · intro hprefix
    have hle : 1 ≤ 0 := hprefix.length_le
    omega

end Gittest
