import Gittest.LinkList

/-!
# The queue

`queue.c`: a list to which elements are added at the back and from which they are fetched at the front.
-/

namespace Gittest

variable {α σ : Type}

def queueCreat (alloc : Allocator) (size : Int) : MemM α σ (Option Addr) := llistCreat alloc size

def queueDestroy (ptr : Option Addr) : MemM α σ Unit := llistDestroy ptr none

def queueEnq (alloc : Allocator) (ptr : Addr) (data : α) : MemM α σ Int :=
  llistInsert alloc ptr data llistBackward

def alwaysMatch : LlistCmp α σ := fun _ => return 0

def queueDeq (ptr : Addr) : MemM α σ (Int × Option α) := llistFetch ptr alwaysMatch

end Gittest
