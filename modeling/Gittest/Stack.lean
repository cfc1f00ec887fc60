import Gittest.Queue

/-!
# The stack

`stack.c`: a list to which elements are added at the front and from which they are fetched at the front.
Its `always_match` is that of the queue.
-/

namespace Gittest

variable {α σ : Type}

def stackCreat (alloc : Allocator) (size : Int) : MemM α σ (Option Addr) := llistCreat alloc size

def stackPush (alloc : Allocator) (ptr : Addr) (data : α) : MemM α σ Int :=
  llistInsert alloc ptr data llistForward

def stackPop (ptr : Addr) : MemM α σ (Int × Option α) := llistFetch ptr alwaysMatch

end Gittest
