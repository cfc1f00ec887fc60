import Gittest.Proof.LinkListWalk
import Gittest.ThreadPoolSafety

/-!
# The destructor of the thread pool

`~threadpool` destroys one thing after the other while the workers go on with what they were doing: nothing
asks them to stop, and nothing waits for them. All calls of `add_task` have returned before. A worker that
is blocked in `pthread_cond_wait` uses the condition variable all the time: to destroy it then is as wrong
as to use it afterwards.
-/

namespace Gittest

open Outcome Transition

/-- What the workers share with the destructor. -/
inductive PoolPart where
  | condQueueNotEmpty
  | condQueueNotFull
  | lock
  | taskQueue
  | queueSize
  deriving DecidableEq

/-- The statement that the destructor executes next. -/
inductive DestroyPc where
  | deleteThreads
  | destroyNotEmpty
  | destroyNotFull
  | destroyLock
  | destroyQueue
  | done
  deriving DecidableEq

/-- What has been destroyed by then; `queue_size` goes with the object. -/
def DestroyPc.gone : DestroyPc → List PoolPart
  | .deleteThreads | .destroyNotEmpty => []
  | .destroyNotFull => [.condQueueNotEmpty]
  | .destroyLock => [.condQueueNotEmpty, .condQueueNotFull]
  | .destroyQueue => [.condQueueNotEmpty, .condQueueNotFull, .lock]
  | .done => [.condQueueNotEmpty, .condQueueNotFull, .lock, .taskQueue, .queueSize]

section Steps

variable {W C : Type}

/-- What the statement that a worker is at locks, waits on, signals or reads. -/
def Pool.uses (s : Pool W C) (w : W) : List PoolPart :=
  match s.worker w with
  | .lock => [.lock]
  | .test => if s.queueSize ≤ 0 then [.queueSize, .condQueueNotEmpty, .lock] else [.queueSize]
  | .wait => [.condQueueNotEmpty, .lock]
  | .relock => [.condQueueNotEmpty, .lock]
  | .deq => [.taskQueue]
  | .failed => []
  | .count _ => [.queueSize]
  | .broadcast _ => [.condQueueNotFull]
  | .unlock _ => [.lock]
  | .run _ => []

/-- The pool while it is destroyed; `misused` if a worker has used what was destroyed, or was using it when
it was, which ends the run. -/
structure Teardown (W C : Type) where
  pool : Pool W C
  pc : DestroyPc
  misused : Bool

def Pool.teardown (s : Pool W C) : Teardown W C := ⟨s, .deleteThreads, false⟩

inductive TeardownAction (W : Type) where
  | destructor
  | worker (w : W)
  /-- A worker wakes up by itself. -/
  | wakeWorker (w : W)

/-- `pthread_cond_destroy` and `pthread_mutex_destroy`: undefined where a thread is blocked on the
condition variable, or has the mutex. -/
def Teardown.destroy (t : Teardown W C) (inUse : Prop) [Decidable inUse] (next : DestroyPc) :
    Teardown W C :=
  if inUse then { t with misused := true } else { t with pc := next }

variable [Fintype W]

/-- Only workers block on `cond_queue_not_empty`, and only callers of `add_task` on
`cond_queue_not_full`. -/
def Teardown.destructorStep (t : Teardown W C) : Option (Teardown W C) :=
  match t.pc with
  | .deleteThreads => some { t with pc := .destroyNotEmpty }
  | .destroyNotEmpty => some (t.destroy (∃ w, t.pool.worker w = .wait) .destroyNotFull)
  | .destroyNotFull => some { t with pc := .destroyLock }
  | .destroyLock => some (t.destroy (t.pool.lock ≠ none) .destroyQueue)
  | .destroyQueue =>
      match queueDestroy t.pool.taskQueue t.pool.mem with
      | .ok (_, mem) => some { t with pool := { t.pool with mem := mem }, pc := .done }
      | .error fault => some { t with pool := t.pool.fail fault }
  | .done => none

variable [DecidableEq W]

/-- One step; `spurious` is whether a worker may wake up by itself. A blocked worker takes none. -/
def Teardown.step (spurious : Bool) (t : Teardown W C) (a : TeardownAction W) :
    Option (Teardown W C) :=
  if t.misused || t.pool.fault.isSome then
    none
  else
    match a with
    | .destructor => t.destructorStep
    | .worker w =>
        if t.pool.worker w = .wait then
          none
        else if (t.pool.uses w).any (· ∈ t.pc.gone) then
          some { t with misused := true }
        else
          (t.pool.workerStep w).map fun s => { t with pool := s }
    | .wakeWorker w =>
        if spurious ∧ t.pool.worker w = .wait then
          some { t with pool := t.pool.setWorker w .relock }
        else
          none

/-- However the steps of the destructor and of the workers come, no worker uses what was destroyed, and
no task is left in the queue when it is destroyed. -/
def Pool.SafeToDestroy (spurious : Bool) (s : Pool W C) : Prop :=
  ∀ actions t, run (Teardown.step spurious) s.teardown actions = some t →
    t.misused = false ∧ (t.pc = .done → t.pool.taken.length = t.pool.accepted.length)

end Steps

section HoldsQueue

variable {W C : Type} {s s' : Pool W C}

/-- Whatever allocations fail, `task_queue` is `NULL` or a list. -/
def Pool.HoldsQueue (s : Pool W C) : Prop :=
  ∀ ptr, s.taskQueue = some ptr → ∃ nodes, s.mem.IsList ptr 16 nodes

theorem Pool.HoldsQueue.deq (hholds : s.HoldsQueue) {result : Int × Option ThreadpoolTask}
    {m' : Mem ThreadpoolTask Unit}
    (hdeq : (do queueDeq (← deref s.taskQueue) : MemM ThreadpoolTask Unit _) s.mem = .ok (result, m')) :
    { s with mem := m' }.HoldsQueue := by
  intro ptr hqueue
  change s.taskQueue = some ptr at hqueue
  obtain ⟨nodes, hlist⟩ := hholds ptr hqueue
  rw [hqueue, run_bind deref_ok] at hdeq
  cases nodes with
  | nil =>
      rw [queueDeq_nil hlist] at hdeq
      cases hdeq
      exact ⟨[], hlist⟩
  | cons node nodes =>
      obtain ⟨m'', hok, hlist'⟩ := queueDeq_cons hlist (by decide)
      rw [hok] at hdeq
      cases hdeq
      exact ⟨nodes, hlist'⟩

theorem Pool.HoldsQueue.enq (hholds : s.HoldsQueue) {alloc : Allocator} {task : ThreadpoolTask} {ret : Int}
    {m' : Mem ThreadpoolTask Unit}
    (henq : (do queueEnq alloc (← deref s.taskQueue) task : MemM ThreadpoolTask Unit _) s.mem
      = .ok (ret, m')) : { s with mem := m' }.HoldsQueue := by
  intro ptr hqueue
  change s.taskQueue = some ptr at hqueue
  obtain ⟨nodes, hlist⟩ := hholds ptr hqueue
  rw [hqueue, run_bind deref_ok] at henq
  cases hanswer : s.mem.answer alloc (16 + 16) with
  | none =>
      rw [queueEnq_refused hlist task hanswer] at henq
      cases henq
      exact ⟨nodes, hlist.refused⟩
  | some a =>
      obtain ⟨m'', hok, hinserted⟩ := queueEnq_ok hlist (by decide) task hanswer
      rw [hok] at henq
      cases henq
      exact ⟨_, hinserted.isList⟩

theorem Pool.holdsQueue_workerStep [DecidableEq W] (hholds : s.HoldsQueue) {w : W}
    (hstep : s.workerStep w = some s') : s'.HoldsQueue := by
  unfold Pool.workerStep at hstep
  split at hstep
  case h_5 =>
    simp only [Pool.onHeap, Option.some.injEq] at hstep
    subst hstep
    split
    · rename_i hdeq
      repeat' split
      all_goals exact hholds.deq hdeq
    · exact hholds
  case h_7 =>
    simp only [Pool.addSize, Option.some.injEq] at hstep
    subst hstep
    split
    · exact hholds
    · exact hholds
  all_goals
    repeat' split at hstep
    all_goals
      cases hstep
      try exact hholds

theorem Pool.holdsQueue_callerStep [DecidableEq C] {alloc : Allocator} (hholds : s.HoldsQueue) {c : C}
    (hstep : s.callerStep alloc c = some s') : s'.HoldsQueue := by
  unfold Pool.callerStep at hstep
  split at hstep
  case h_6 task _ =>
    simp only [Pool.onHeap, Option.some.injEq] at hstep
    subst hstep
    split
    · rename_i henq
      split
      all_goals exact hholds.enq henq
    · exact hholds
  case h_7 =>
    simp only [Pool.addSize, Option.some.injEq] at hstep
    subst hstep
    split
    · exact hholds
    · exact hholds
  all_goals
    repeat' split at hstep
    all_goals
      cases hstep
      try exact hholds

theorem Pool.holdsQueue_step [Fintype W] [DecidableEq W] [DecidableEq C] {alloc : Allocator}
    (hholds : s.HoldsQueue) {a : PoolAction W C}
    (hstep : s.step alloc a = some s') : s'.HoldsQueue := by
  unfold Pool.step at hstep
  split at hstep
  · cases hstep
  · cases a with
    | caller c => exact Pool.holdsQueue_callerStep hholds hstep
    | worker w => exact Pool.holdsQueue_workerStep hholds hstep
    | signal c woken =>
        dsimp only [Pool.signalStep] at hstep
        repeat' split at hstep
        all_goals
          cases hstep
          try exact hholds
    | _ =>
        dsimp only at hstep
        split at hstep
        · cases hstep
          exact hholds
        · cases hstep

theorem Pool.holdsQueue_new {alloc : Allocator} {queueMax : Int} {m₀ : Mem ThreadpoolTask Unit}
    {s₀ : Pool W C} (hnew : Pool.new W C alloc queueMax m₀ = .ok s₀) : s₀.HoldsQueue := by
  intro ptr hqueue
  cases hcreat : llistCreat alloc 16 m₀ with
  | error fault =>
      rw [Pool.new, queueCreat, hcreat] at hnew
      cases hnew
  | ok result =>
      obtain ⟨q, m⟩ := result
      rw [Pool.new, queueCreat, hcreat] at hnew
      cases hnew
      obtain rfl : q = some ptr := hqueue
      exact ⟨[], (llistCreat_some hcreat).1⟩

theorem Pool.holdsQueue_run [Fintype W] [DecidableEq W] [DecidableEq C] {alloc : Allocator}
    (hholds : s.HoldsQueue) {actions : List (PoolAction W C)}
    (hrun : run (Pool.step alloc) s actions = some s') : s'.HoldsQueue :=
  run_invariant (fun _ _ _ hholds hstep => Pool.holdsQueue_step hholds hstep) hholds hrun

end HoldsQueue

theorem queueDestroy_ok {α σ : Type} {m : Mem α σ} {ptr : Addr} {size : Int}
    {nodes : List (Addr × α)} (hlist : m.IsList ptr size nodes) :
    ∃ m', queueDestroy (some ptr) m = .ok ((), m') := by
  let P : Ground α := ⟨Set.univ, fun _ => Set.univ⟩
  have hbeside : Beside P ∅ m ptr size nodes :=
    ⟨hlist, fun _ _ => trivial, fun _ _ => trivial, Set.empty_subset _, fun _ _ => Set.notMem_empty _⟩
  have hnone : ∀ op ∈ (none : Option (LlistNodeOp α σ)),
      LeavesLists P (fun _ => ()) (fun _ => False) op := by simp
  obtain ⟨⟨_, m'⟩, hdestroy, _⟩ := (llistDestroy_beside hnone hbeside).exists_ok
  exact ⟨m', hdestroy⟩

theorem Pool.HoldsQueue.queueDestroy {W C : Type} {s : Pool W C} (hholds : s.HoldsQueue) :
    ∃ m, Gittest.queueDestroy s.taskQueue s.mem = .ok ((), m) := by
  cases hqueue : s.taskQueue with
  | none => exact ⟨s.mem, rfl⟩
  | some ptr =>
      obtain ⟨nodes, hlist⟩ := hholds ptr hqueue
      exact queueDestroy_ok hlist

/-! ### The destructor and the workers -/

section Destroy

variable {W C : Type} [Fintype W] [DecidableEq W] {spurious : Bool} {s : Pool W C}
  {t : Teardown W C}

variable (spurious) in
/-- The destructor runs to its end before any worker takes a step, if none is blocked or has the
mutex. -/
theorem Pool.HoldsQueue.teardown_run (hholds : s.HoldsQueue) (hfault : s.fault = none)
    (hawake : ∀ w, s.worker w ≠ .wait) (hfree : s.lock = none) :
    ∃ m, run (Teardown.step spurious) s.teardown (.replicate 5 .destructor)
      = some ⟨{ s with mem := m }, .done, false⟩ := by
  obtain ⟨m, hdestroy⟩ := hholds.queueDestroy
  refine ⟨m, ?_⟩
  simp [List.replicate, run_cons, Teardown.step, Teardown.destructorStep, Teardown.destroy, Pool.teardown,
    hfault, hawake, hfree, hdestroy]

variable (spurious) in
/-- `pthread_cond_destroy` finds a worker blocked. -/
theorem Pool.teardown_blocked (hfault : s.fault = none) {w : W} (hwait : s.worker w = .wait) :
    run (Teardown.step spurious) s.teardown (.replicate 2 .destructor)
      = some ⟨s, .destroyNotEmpty, true⟩ := by
  have hblocked : ∃ w, s.worker w = .wait := ⟨w, hwait⟩
  simp [List.replicate, run_cons, Teardown.step, Teardown.destructorStep, Teardown.destroy, Pool.teardown,
    hfault, hblocked]

variable (spurious) in
/-- `pthread_mutex_destroy` finds the mutex locked. -/
theorem Pool.teardown_locked (hfault : s.fault = none) (hawake : ∀ w, s.worker w ≠ .wait)
    (hlock : s.lock ≠ none) : run (Teardown.step spurious) s.teardown (.replicate 4 .destructor)
      = some ⟨s, .destroyLock, true⟩ := by
  simp [List.replicate, run_cons, Teardown.step, Teardown.destructorStep, Teardown.destroy, Pool.teardown,
    hfault, hawake, hlock]

theorem Teardown.step_worker (hok : t.misused = false) (hfault : t.pool.fault = none) {w : W}
    (hawake : t.pool.worker w ≠ .wait) :
    t.step spurious (.worker w)
      = if (t.pool.uses w).any (· ∈ t.pc.gone) then some { t with misused := true }
        else (t.pool.workerStep w).map fun s => { t with pool := s } := by
  unfold Teardown.step
  rw [hok, hfault]
  change (if t.pool.worker w = .wait then none else _) = _
  exact if_neg hawake

/-- A worker at the head of its loop uses the mutex. -/
theorem Teardown.step_lock (hok : t.misused = false) (hfault : t.pool.fault = none)
    (hdone : t.pc = .done) {w : W} (hpc : t.pool.worker w = .lock) :
    t.step spurious (.worker w) = some { t with misused := true } := by
  rw [Teardown.step_worker hok hfault (by simp [hpc]), Pool.uses, hpc, hdone]
  rfl

variable (spurious) in
/-- After the destructor, every worker that is not blocked goes on to use what was destroyed. -/
theorem Teardown.exists_misused (hok : t.misused = false) (hfault : t.pool.fault = none)
    (hdone : t.pc = .done) {w : W} (hawake : t.pool.worker w ≠ .wait) :
    ∃ actions t', run (Teardown.step spurious) t actions = some t' ∧ t'.misused = true := by
  have hloop : ∀ s, t.pool.uses w = [] → t.pool.workerStep w = some s → s.fault = none →
      s.worker w = .lock →
      run (Teardown.step spurious) t [.worker w, .worker w]
        = some { t with pool := s, misused := true } := by
    intro s hnone hworker hfault' hlock
    have hstep : t.step spurious (.worker w) = some { t with pool := s } := by
      rw [Teardown.step_worker hok hfault hawake, hnone, hworker]
      rfl
    rw [run_cons, hstep, Option.bind_some, run_cons,
      Teardown.step_lock (t := { t with pool := s }) hok hfault' hdone hlock]
    rfl
  have hnow : (t.pool.uses w).any (· ∈ t.pc.gone) = true →
      run (Teardown.step spurious) t [.worker w] = some { t with misused := true } := by
    intro huses
    rw [run_cons, Teardown.step_worker hok hfault hawake, if_pos huses]
    rfl
  cases hpc : t.pool.worker w with
  | wait => exact absurd hpc hawake
  | failed =>
      refine ⟨_, _, hloop (t.pool.setWorker w .lock) (by rw [Pool.uses, hpc])
        (by rw [Pool.workerStep, hpc]) hfault (Function.update_self ..), rfl⟩
  | run task =>
      refine ⟨_, _, hloop (t.pool.setWorker w .lock) (by rw [Pool.uses, hpc])
        (by rw [Pool.workerStep, hpc]) hfault (Function.update_self ..), rfl⟩
  | test =>
      refine ⟨_, _, hnow ?_, rfl⟩
      rw [Pool.uses, hpc, hdone]
      dsimp only
      split <;> rfl
  | _ =>
      refine ⟨_, _, hnow ?_, rfl⟩
      rw [Pool.uses, hpc, hdone]
      rfl

/-- There is a worker, and wherever it is the destructor goes wrong: it is blocked, or it goes on. -/
theorem Pool.HoldsQueue.not_safeToDestroy [Nonempty W] (hholds : s.HoldsQueue)
    (hfault : s.fault = none) : ¬s.SafeToDestroy spurious := by
  intro hsafe
  by_cases hblocked : ∃ w, s.worker w = .wait
  · obtain ⟨w, hwait⟩ := hblocked
    have hok := (hsafe _ _ (Pool.teardown_blocked spurious hfault hwait)).1
    cases hok
  push Not at hblocked
  by_cases hfree : s.lock = none
  · obtain ⟨m, hdestroyed⟩ := hholds.teardown_run spurious hfault hblocked hfree
    obtain ⟨w⟩ := ‹Nonempty W›
    obtain ⟨actions, t, hrun, hmisused⟩ := Teardown.exists_misused spurious
      (t := ⟨{ s with mem := m }, .done, false⟩) rfl hfault rfl (hblocked w)
    have hall : run (Teardown.step spurious) s.teardown (.replicate 5 .destructor ++ actions) = some t := by
      rw [run_append, hdestroyed]
      exact hrun
    have hok := (hsafe _ t hall).1
    rw [hmisused] at hok
    cases hok
  · have hok := (hsafe _ _ (Pool.teardown_locked spurious hfault hblocked hfree)).1
    cases hok

end Destroy

/-- **Destruction is never safe.** Whatever the workers are doing when it begins. -/
theorem threadpool_never_safe_to_destroy {C : Type} [DecidableEq C] {threadnum : Int} {alloc : Allocator}
    {queueMax : Int} {m₀ : Mem ThreadpoolTask Unit} {s₀ s : Pool (Fin (threadNum threadnum)) C}
    (hnew : Pool.new _ C alloc queueMax m₀ = .ok s₀)
    {actions : List (PoolAction (Fin (threadNum threadnum)) C)}
    (hrun : run (Pool.step alloc) s₀ actions = some s) (hfault : s.fault = none) (spurious : Bool) :
    ¬s.SafeToDestroy spurious := by
  have : Nonempty (Fin (threadNum threadnum)) := ⟨⟨0, threadNum_pos threadnum⟩⟩
  exact (Pool.holdsQueue_run (Pool.holdsQueue_new hnew) hrun).not_safeToDestroy hfault

/-- Nor is it where every worker is blocked and no task is left. -/
theorem threadpool_never_safe_to_destroy_idle : ∃ s₀ s : Pool (Fin (threadNum 1)) Unit,
    Pool.new _ _ nextAddress 2 (.empty ()) = .ok s₀ ∧ s₀.taskQueue ≠ none ∧
    run (Pool.step nextAddress) s₀ [.worker ⟨0, by decide⟩, .worker ⟨0, by decide⟩] = some s ∧
    s.fault = none ∧ (∀ w, s.worker w = .wait) ∧ s.taken.length = s.accepted.length ∧
    ¬s.SafeToDestroy false := by
  have hmade : Meets (fun s₀ => s₀.taskQueue ≠ none ∧
      ∃ s ∈ run (Pool.step nextAddress) s₀ [.worker ⟨0, by decide⟩, .worker ⟨0, by decide⟩],
        s.fault = none ∧ (∀ w, s.worker w = .wait) ∧ s.taken.length = s.accepted.length)
      (fun _ => False) (Pool.new (Fin (threadNum 1)) Unit nextAddress 2 (.empty ())) := by
    decide +kernel
  obtain ⟨s₀, hnew, hqueue, s, hrun, hfault, hwait, hempty⟩ := hmade.exists_ok
  exact ⟨s₀, s, hnew, hqueue, hrun, hfault, hwait, hempty,
    threadpool_never_safe_to_destroy hnew hrun hfault false⟩

/-- The pool is destroyed with the task in its queue, and then the worker locks the mutex. -/
theorem threadpool_destroy_unsafe : ∃ (s₀ s : Pool (Fin (threadNum 1)) Unit) (t t' : Teardown _ Unit),
    Pool.new _ _ nextAddress 2 (.empty ()) = .ok s₀ ∧ s₀.taskQueue ≠ none ∧
    run (Pool.step nextAddress) s₀ addUnseen = some s ∧ s.fault = none ∧ s.caller () = .idle ∧
    run (Teardown.step false) s.teardown (.replicate 5 .destructor) = some t ∧ t.pc = .done ∧
    t.pool.accepted.length = 1 ∧ t.pool.taken.length = 0 ∧
    t.step false (.worker ⟨0, by decide⟩) = some t' ∧ t'.misused = true ∧ ¬s.SafeToDestroy false := by
  have hmade : Meets (fun s₀ => s₀.taskQueue ≠ none ∧ ∃ s ∈ run (Pool.step nextAddress) s₀ addUnseen,
      s.fault = none ∧ s.caller () = .idle ∧
      ∃ t ∈ run (Teardown.step false) s.teardown (.replicate 5 .destructor), t.pc = .done ∧
        t.pool.accepted.length = 1 ∧ t.pool.taken.length = 0 ∧
        ∃ t' ∈ t.step false (.worker ⟨0, by decide⟩), t'.misused = true) (fun _ => False)
      (Pool.new (Fin (threadNum 1)) Unit nextAddress 2 (.empty ())) := by
    decide +kernel
  obtain ⟨s₀, hnew, hqueue, s, hrun, hfault, hidle, t, hdestroyed, hdone, haccepted, htaken, t', hstep,
    hmisused⟩ := hmade.exists_ok
  refine ⟨s₀, s, t, t', hnew, hqueue, hrun, hfault, hidle, hdestroyed, hdone, haccepted, htaken, hstep,
    hmisused, fun hsafe => ?_⟩
  have hkept := (hsafe (.replicate 5 .destructor) t hdestroyed).2 hdone
  omega

end Gittest
