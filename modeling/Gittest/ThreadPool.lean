import Gittest.Lib.Transition
import Gittest.Queue
import Mathlib.Data.Fintype.Basic

/-!
# The thread pool

`threadpool.cpp`: workers that take tasks out of a queue, and threads that call `add_task`. A step is one
statement of one thread; a `pthread_cond_wait` is two, the one that blocks and releases the mutex, and
the one that has it again. `pthread_cond_signal` wakes some of the threads that are blocked, and at
least one if there is one. A blocked thread may also wake up by itself.

The queue is the one of `queue.c` on the heap. `accepted`, `taken` and `returned` are not part of the
program: they record what has happened, and no step reads them except to add to them.
-/

namespace Gittest

structure ThreadpoolTask where
  function : Addr
  arg : Option Addr
  deriving DecidableEq, Repr

inductive Thread (W C : Type) where
  | worker (w : W)
  | caller (c : C)
  deriving DecidableEq

/-- A thread in `work`: the statement it executes next. -/
inductive WorkerPc where
  | lock
  | test
  /-- It is blocked on `cond_queue_not_empty`. -/
  | wait
  /-- It has been woken up and is about to have the mutex again. -/
  | relock
  | deq
  /-- `queue_deq` has failed, and `continue` leads back to the head of the loop. -/
  | failed
  | count (task : ThreadpoolTask)
  | broadcast (task : ThreadpoolTask)
  | unlock (task : ThreadpoolTask)
  | run (task : ThreadpoolTask)
  deriving DecidableEq

/-- A thread that may call `add_task`. -/
inductive CallerPc where
  | idle
  | lock (task : ThreadpoolTask)
  | test (task : ThreadpoolTask)
  /-- It is blocked on `cond_queue_not_full`. -/
  | wait (task : ThreadpoolTask)
  | relock (task : ThreadpoolTask)
  | enq (task : ThreadpoolTask)
  | count (task : ThreadpoolTask)
  | signal (task : ThreadpoolTask)
  | unlock (task : ThreadpoolTask)
  deriving DecidableEq

/-- What a broadcast on `cond_queue_not_full` makes of a thread. -/
def CallerPc.awake : CallerPc → CallerPc
  | .wait task => .relock task
  | pc => pc

structure Pool (W C : Type) where
  lock : Option (Thread W C)
  worker : W → WorkerPc
  caller : C → CallerPc
  mem : Mem ThreadpoolTask Unit
  taskQueue : Option Addr
  queueMaxSize : Int
  queueSize : Int
  /-- The tasks that were put in the queue, in order. -/
  accepted : List (C × ThreadpoolTask)
  /-- The tasks that were taken out of the queue, in order. -/
  taken : List (W × ThreadpoolTask)
  /-- The calls of `add_task` that have returned, in order. -/
  returned : List (C × ThreadpoolTask)
  fault : Option Fault

/-- The number of threads that the constructor makes for its argument. -/
def threadNum (threadnum : Int) : Nat :=
  if threadnum ≤ 0 then 1 else threadnum.toNat

def Pool.new (W C : Type) (alloc : Allocator) (queueMax : Int) (m : Mem ThreadpoolTask Unit) :
    Except Fault (Pool W C) := do
  let (taskQueue, mem) ← queueCreat alloc 16 m
  return {
    lock := none, worker := fun _ => .lock, caller := fun _ => .idle, mem := mem
    taskQueue := taskQueue, queueMaxSize := queueMax, queueSize := 0
    accepted := [], taken := [], returned := [], fault := none }

section Steps

variable {W C : Type} [DecidableEq W] [DecidableEq C]

namespace Pool

def setWorker (s : Pool W C) (w : W) (pc : WorkerPc) : Pool W C :=
  { s with worker := Function.update s.worker w pc }

def setCaller (s : Pool W C) (c : C) (pc : CallerPc) : Pool W C :=
  { s with caller := Function.update s.caller c pc }

def setLock (s : Pool W C) (owner : Option (Thread W C)) : Pool W C := { s with lock := owner }

def fail (s : Pool W C) (fault : Fault) : Pool W C := { s with fault := some fault }

def onHeap {β : Type} (s : Pool W C) (x : MemM ThreadpoolTask Unit β) (next : Pool W C → β → Pool W C) :
    Pool W C :=
  match x s.mem with
  | .ok (result, mem) => next { s with mem := mem } result
  | .error fault => s.fail fault

def addSize (s : Pool W C) (n : Int) (next : Pool W C → Pool W C) : Pool W C :=
  if intMin ≤ s.queueSize + n ∧ s.queueSize + n ≤ intMax then
    next { s with queueSize := s.queueSize + n }
  else
    s.fail .signedOverflow

/-- The next statement of a worker; `none` while it is blocked. -/
def workerStep (s : Pool W C) (w : W) : Option (Pool W C) :=
  match s.worker w with
  | .lock =>
      match s.lock with
      | none => some ((s.setLock (some (.worker w))).setWorker w .test)
      | some _ => none
  | .test =>
      if s.queueSize ≤ 0 then
        some ((s.setLock none).setWorker w .wait)
      else
        some (s.setWorker w .deq)
  | .wait => none
  | .relock =>
      match s.lock with
      | none => some ((s.setLock (some (.worker w))).setWorker w .test)
      | some _ => none
  | .deq =>
      some (s.onHeap (do queueDeq (← deref s.taskQueue)) fun s result =>
        if result.1 < 0 then
          s.setWorker w .failed
        else
          match result.2 with
          | some task => { s with taken := s.taken ++ [(w, task)] }.setWorker w (.count task)
          | none => s.fail .uninitialised)
  | .failed => some (s.setWorker w .lock)
  | .count task => some (s.addSize (-1) fun s => s.setWorker w (.broadcast task))
  | .broadcast task =>
      some ({ s with caller := fun c => (s.caller c).awake }.setWorker w (.unlock task))
  | .unlock task => some ((s.setLock none).setWorker w (.run task))
  | .run _ => some (s.setWorker w .lock)

/-- The next statement of a thread in `add_task`, other than its signal. -/
def callerStep (alloc : Allocator) (s : Pool W C) (c : C) : Option (Pool W C) :=
  match s.caller c with
  | .idle => none
  | .lock task =>
      match s.lock with
      | none => some ((s.setLock (some (.caller c))).setCaller c (.test task))
      | some _ => none
  | .test task =>
      if s.queueSize ≥ s.queueMaxSize then
        some ((s.setLock none).setCaller c (.wait task))
      else
        some (s.setCaller c (.enq task))
  | .wait _ => none
  | .relock task =>
      match s.lock with
      | none => some ((s.setLock (some (.caller c))).setCaller c (.test task))
      | some _ => none
  | .enq task =>
      some (s.onHeap (do queueEnq alloc (← deref s.taskQueue) task) fun s ret =>
        if ret < 0 then
          s.setCaller c (.count task)
        else
          { s with accepted := s.accepted ++ [(c, task)] }.setCaller c (.count task))
  | .count task => some (s.addSize 1 fun s => s.setCaller c (.signal task))
  | .signal _ => none
  | .unlock task =>
      some ({ s with returned := s.returned ++ [(c, task)] }.setLock none |>.setCaller c .idle)

variable [Fintype W]

/-- The signal of a thread in `add_task`, which wakes the workers `woken`. -/
def signalStep (s : Pool W C) (c : C) (woken : Finset W) : Option (Pool W C) :=
  match s.caller c with
  | .signal task =>
      if (∀ w ∈ woken, s.worker w = .wait) ∧ ((∃ w, s.worker w = .wait) → woken.Nonempty) then
        some ({ s with worker := fun w => if w ∈ woken then .relock else s.worker w }.setCaller c
          (.unlock task))
      else
        none
  | _ => none

end Pool

inductive PoolAction (W C : Type) where
  | call (c : C) (task : ThreadpoolTask)
  | caller (c : C)
  | signal (c : C) (woken : Finset W)
  | worker (w : W)
  /-- A worker wakes up by itself. -/
  | wakeWorker (w : W)
  /-- A thread in `add_task` wakes up by itself. -/
  | wakeCaller (c : C)

/-- One step; none follows a fault. -/
def Pool.step [Fintype W] (alloc : Allocator) (s : Pool W C) (a : PoolAction W C) :
    Option (Pool W C) :=
  if s.fault.isSome then
    none
  else
    match a with
    | .call c task => if s.caller c = .idle then some (s.setCaller c (.lock task)) else none
    | .caller c => s.callerStep alloc c
    | .signal c woken => s.signalStep c woken
    | .worker w => s.workerStep w
    | .wakeWorker w => if s.worker w = .wait then some (s.setWorker w .relock) else none
    | .wakeCaller c =>
        match s.caller c with
        | .wait task => some (s.setCaller c (.relock task))
        | _ => none

end Steps

end Gittest
