import Gittest.Memory

/-!
# The linked list

`link_list.c`: circular doubly linked lists on the heap. A pointer to the payload of a node, which is
what the callbacks get, is the address of the node; a `cmp` comes with its `key`. A loop may go round
once for each block that is live when it starts; one that goes on has met a node twice.
-/

namespace Gittest

variable {α σ : Type}

def llistForward : Int := 1

def llistBackward : Int := 2

def llistTravelBreak : Int := 1

abbrev LlistCmp (α σ : Type) := Addr → MemM α σ Int

abbrev LlistOp (α σ : Type) := Addr → MemM α σ Int

abbrev LlistNodeCheck (α σ : Type) := Addr → MemM α σ Int

abbrev LlistNodeOp (α σ : Type) := Addr → MemM α σ Unit

def callNodeOp (nodeOp : Option (LlistNodeOp α σ)) (node : Addr) : MemM α σ Unit :=
  match nodeOp with
  | some op => op node
  | none => return

/-- How often a loop that starts now may go round. -/
def loopBound : MemM α σ Nat := fun m => .ok (m.live.card, m)

def llistCreat (alloc : Allocator) (size : Int) : MemM α σ (Option Addr) := do
  match ← mallocBlock alloc 24 with
  | none => return none
  | some newNode =>
      writeSize newNode size
      writeNext newNode newNode
      writePrev newNode newNode
      return some newNode

def destroyFrom (nodeOp : Option (LlistNodeOp α σ)) (ptr : Addr) : Nat → Addr → MemM α σ Unit
  | 0, _ => throw .diverges
  | rounds + 1, cur =>
      if cur = ptr then
        return
      else do
        let save ← readNext cur
        callNodeOp nodeOp cur
        freeBlock cur
        destroyFrom nodeOp ptr rounds save

def llistDestroy (ptr : Option Addr) (nodeOp : Option (LlistNodeOp α σ)) : MemM α σ Unit :=
  match ptr with
  | none => return
  | some ptr => do
      destroyFrom nodeOp ptr (← loopBound) (← readNext ptr)
      freeBlock ptr

def clearFrom (nodeOp : Option (LlistNodeOp α σ)) (ptr : Addr) : Nat → Addr → Int → MemM α σ Int
  | 0, _, _ => throw .diverges
  | rounds + 1, cur, n =>
      if cur = ptr then
        return n
      else do
        let save ← readNext cur
        callNodeOp nodeOp cur
        freeBlock cur
        let n ← incr n
        clearFrom nodeOp ptr rounds save n

def llistClear (ptr : Addr) (nodeOp : Option (LlistNodeOp α σ)) : MemM α σ Int := do
  let n ← clearFrom nodeOp ptr (← loopBound) (← readNext ptr) 0
  writeNext ptr ptr
  writePrev ptr ptr
  return n

/-- `memcpy(newnode->data, data, size)`. A negative `int` turns into a `size_t` that goes beyond every
block. -/
def copyIn (newnode : Addr) (data : α) (size : Int) : MemM α σ Unit := fun m =>
  if 0 ≤ size ∧ 16 + size ≤ (m.block newnode).extent then writeData newnode data m
  else .error .overrun

/-- `memcpy(data, node->data, size)`. -/
def copyOut (node : Addr) (size : Int) : MemM α σ α :=
  if 0 ≤ size then readData node else throw .overrun

def llistInsert (alloc : Allocator) (ptr : Addr) (data : α) (mode : Int) : MemM α σ Int := do
  match ← mallocBlock alloc (16 + (← readSize ptr)) with
  | none => return -1
  | some newnode =>
      copyIn newnode data (← readSize ptr)
      if mode = llistForward then
        writeNext newnode (← readNext ptr)
        writePrev newnode ptr
      else if mode = llistBackward then
        writeNext newnode ptr
        writePrev newnode (← readPrev ptr)
      writePrev (← readNext newnode) newnode
      writeNext (← readPrev newnode) newnode
      return 0

def findFrom (cmp : LlistCmp α σ) (ptr : Addr) : Nat → Addr → MemM α σ Addr
  | 0, _ => throw .diverges
  | rounds + 1, cur =>
      if cur = ptr then
        return cur
      else do
        if (← cmp cur) = 0 then
          return cur
        else
          findFrom cmp ptr rounds (← readNext cur)

def findNode (ptr : Addr) (cmp : LlistCmp α σ) : MemM α σ Addr := do
  findFrom cmp ptr (← loopBound) (← readNext ptr)

def llistDelet (ptr : Addr) (cmp : LlistCmp α σ) (nodeOp : Option (LlistNodeOp α σ)) :
    MemM α σ Int := do
  let node ← findNode ptr cmp
  if node = ptr then
    return -1
  else
    writePrev (← readNext node) (← readPrev node)
    writeNext (← readPrev node) (← readNext node)
    callNodeOp nodeOp node
    freeBlock node
    return 0

def llistFind (ptr : Addr) (cmp : LlistCmp α σ) : MemM α σ (Option Addr) := do
  let node ← findNode ptr cmp
  if node = ptr then
    return none
  else
    return some node

def travelFrom (op : LlistOp α σ) (ptr : Addr) : Nat → Addr → MemM α σ Unit
  | 0, _ => throw .diverges
  | rounds + 1, cur =>
      if cur = ptr then
        return
      else do
        if (← op cur) = llistTravelBreak then
          return
        else
          travelFrom op ptr rounds (← readNext cur)

def llistTravel (ptr : Addr) (op : LlistOp α σ) : MemM α σ Unit := do
  travelFrom op ptr (← loopBound) (← readNext ptr)

def getnumFrom (ptr : Addr) : Nat → Addr → Int → MemM α σ Int
  | 0, _, _ => throw .diverges
  | rounds + 1, cur, i =>
      if cur = ptr then
        return i
      else do
        let next ← readNext cur
        let i ← incr i
        getnumFrom ptr rounds next i

def llistGetnum (ptr : Addr) : MemM α σ Int := do
  getnumFrom ptr (← loopBound) (← readNext ptr) 0

/-- `cur->next->prev = cur->prev; cur->prev->next = cur->next;` -/
def unlinkNode (cur : Addr) : MemM α σ Unit := do
  writePrev (← readNext cur) (← readPrev cur)
  writeNext (← readPrev cur) (← readNext cur)

def checkNode (nodeCheck : Option (LlistNodeCheck α σ)) (cur : Addr) : MemM α σ Unit :=
  match nodeCheck with
  | none => return
  | some check => do
      if (← check cur) = 0 then
        unlinkNode cur
        freeBlock cur
      else
        return

def checkFrom (nodeCheck : Option (LlistNodeCheck α σ)) (ptr : Addr) :
    Nat → Addr → Int → MemM α σ Int
  | 0, _, _ => throw .diverges
  | rounds + 1, cur, size =>
      if cur = ptr then
        return size
      else do
        let save ← readNext cur
        checkNode nodeCheck cur
        let size ← incr size
        checkFrom nodeCheck ptr rounds save size

def llistCheck (ptr : Option Addr) (nodeCheck : Option (LlistNodeCheck α σ)) : MemM α σ Int :=
  match ptr with
  | none => return -1
  | some ptr => do checkFrom nodeCheck ptr (← loopBound) (← readNext ptr) 0

/-- The payload is delivered to `*data` only where a node is found. -/
def llistFetch (ptr : Addr) (cmp : LlistCmp α σ) : MemM α σ (Int × Option α) := do
  let node ← findNode ptr cmp
  if node = ptr then
    return (-1, none)
  else
    let data ← copyOut node (← readSize ptr)
    writeNext (← readPrev node) (← readNext node)
    writePrev (← readNext node) (← readPrev node)
    freeBlock node
    return (0, some data)

def deleteMatch (cmp : LlistCmp α σ) (nodeOp : Option (LlistNodeOp α σ)) (cur : Addr) :
    MemM α σ Unit := do
  if (← cmp cur) = 0 then
    unlinkNode cur
    callNodeOp nodeOp cur
    freeBlock cur
  else
    return

def travelDeleteFrom (op : LlistOp α σ) (cmp : LlistCmp α σ) (nodeOp : Option (LlistNodeOp α σ))
    (ptr : Addr) : Nat → Addr → MemM α σ Unit
  | 0, _ => throw .diverges
  | rounds + 1, cur =>
      if cur = ptr then
        return
      else do
        let flag ← op cur
        let save ← readNext cur
        deleteMatch cmp nodeOp cur
        if flag = llistTravelBreak then
          return
        else
          travelDeleteFrom op cmp nodeOp ptr rounds save

def llistTravelDelete (ptr : Option Addr) (op : LlistOp α σ) (cmp : LlistCmp α σ)
    (nodeOp : Option (LlistNodeOp α σ)) : MemM α σ Unit :=
  match ptr with
  | none => return
  | some ptr => do travelDeleteFrom op cmp nodeOp ptr (← loopBound) (← readNext ptr)

end Gittest
