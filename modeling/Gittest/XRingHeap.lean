import Gittest.Memory
import Gittest.XRing

/-!
# The ring on the heap

`x_ring.c` again, with the blocks it allocates: a ring is a block with the header and the entries in it,
and each entry points to another. `malloc` may return `NULL` at any call, which `x_ring_create` looks at
for the first block only. An entry without a block holds `NULL`.
-/

namespace Gittest

/-- `x_ring_entry_t`, as it lies in memory. -/
structure HeapEntry where
  size : Int
  contentLength : Int
  data : Option Addr
  deriving DecidableEq

/-- What lies in the block of an `x_ring_t`. -/
structure HeapRing where
  block : Addr
  prodHead : UInt32
  prodTail : UInt32
  consHead : UInt32
  consTail : UInt32
  size : UInt32
  mask : UInt32
  ring : List HeapEntry

variable {α σ : Type}

/-- `free`. -/
def freeData : Option Addr → MemM α σ Unit
  | some a => freeBlock a
  | none => return ()

/-- What reaches for the members of a ring finds them in its block. -/
def useBlock (a : Addr) : MemM α σ Unit := fun m =>
  if a ∈ m.live then .ok ((), m) else .error .deadBlock

/-! ### Creation and destruction -/

/-- `sizeof(x_ring_t)+sizeof(x_ring_entry_t)*count`. -/
def ringBytes (count : UInt32) : Int := 24 + 16 * count.toNat

/-- The loop of `x_ring_create`, from entry `i` on for `n` entries. -/
def createEntries (alloc : Allocator) (garbage : Nat → Int) (ringbufSize : Int) :
    Nat → Nat → MemM α σ (List HeapEntry)
  | _, 0 => return []
  | i, n + 1 => do
      let data ← mallocBlock alloc ringbufSize
      let rest ← createEntries alloc garbage ringbufSize (i + 1) n
      return { size := ringbufSize, contentLength := garbage i, data := data } :: rest

/-- `x_ring_create`; `none` is `NULL`. -/
def HeapRing.xRingCreate (alloc : Allocator) (garbage : Nat → Int) (count : UInt32) (ringbufSize : Int) :
    MemM α σ (Option HeapRing) := do
  let count ← roundedCount count
  match ← mallocBlock alloc (ringBytes count) with
  | none => return none
  | some block =>
      let ring ← createEntries alloc garbage ringbufSize 0 count.toNat
      return some {
        block := block, prodHead := 0, prodTail := 0, consHead := 0, consTail := 0
        size := count, mask := count - 1, ring := ring }

/-- `if (op)`. -/
def callOp (op : Option (Addr → MemM α σ Unit)) (a : Addr) : MemM α σ Unit :=
  match op with
  | some f => f a
  | none => return ()

/-- The body of the loop of `x_ring_destroy`. -/
def destroyEntry (op : Option (Addr → MemM α σ Unit)) (e : HeapEntry) : MemM α σ Unit :=
  match e.data with
  | none => return ()
  | some a => do
      callOp op a
      freeBlock a

/-- The loop, for the entries that are left. -/
def destroyEntries (op : Option (Addr → MemM α σ Unit)) : List HeapEntry → MemM α σ Unit
  | [] => return ()
  | e :: rest => do
      destroyEntry op e
      destroyEntries op rest

def HeapRing.xRingDestroy (op : Option (Addr → MemM α σ Unit)) (r : HeapRing) : MemM α σ Unit := do
  useBlock r.block
  destroyEntries op r.ring
  freeBlock r.block

/-- The `op` that the tests have for it. -/
def doWhenDestroyRing (a : Addr) : MemM α σ Unit := freeBlock a

/-! ### Slots -/

def HeapRing.entry (r : HeapRing) (i : UInt32) : MemM α σ HeapEntry :=
  match r.ring[i.toNat]? with
  | some e => return e
  | none => throw .outOfBounds

def HeapRing.modify (r : HeapRing) (i : UInt32) (f : HeapEntry → MemM α σ HeapEntry) : MemM α σ HeapRing := do
  let e ← r.entry i
  let e' ← f e
  return { r with ring := r.ring.set i.toNat e' }

def HeapEntry.grow (alloc : Allocator) (size : Int) (e : HeapEntry) : MemM α σ HeapEntry :=
  if e.size < size then do
    freeData e.data
    let data ← mallocBlock alloc size
    return { e with data := data, size := size }
  else
    return e

def HeapEntry.copyIn (data : Buffer) (size : Int) (e : HeapEntry) : MemM α σ HeapEntry := do
  let a ← deref e.data
  let bytes ← readBytes a
  let copied ← memcpy bytes data size
  writeBytes a copied
  return e

def HeapEntry.setContentLength (length : Int) (e : HeapEntry) : MemM α σ HeapEntry :=
  return { e with contentLength := length }

/-- The call of `copy`, which is the one the ring of buffers takes. -/
def HeapEntry.copyBy (copy : CopyFn) (data : Buffer) (size : Int) (e : HeapEntry) : MemM α σ HeapEntry := do
  let a ← deref e.data
  let bytes ← readBytes a
  if 0 ≤ size ∧ size ≤ bytes.length ∧ size ≤ data.length then
    let (copied, length) ← copy bytes data size
    writeBytes a copied
    return { e with contentLength := length }
  else
    throw .overrun

def HeapEntry.growOut (alloc : Allocator) (slot out : HeapEntry) : MemM α σ HeapEntry :=
  if out.size < slot.contentLength then do
    freeData out.data
    let data ← mallocBlock alloc slot.size
    return { out with data := data }
  else
    return out

def HeapEntry.copyOut (slot out : HeapEntry) : MemM α σ HeapEntry := do
  let dst ← deref out.data
  let src ← deref slot.data
  let copied ← memcpy (← readBytes dst) (← readBytes src) slot.contentLength
  writeBytes dst copied
  return out

def HeapEntry.setOutLength (slot out : HeapEntry) : MemM α σ HeapEntry :=
  return { out with contentLength := slot.contentLength }

/-! ### Enqueueing and dequeueing -/

def HeapRing.xRingSpEnqueue (alloc : Allocator) (r : HeapRing) (data : Buffer) (size : Int) :
    MemM α σ (Int × HeapRing) := do
  useBlock r.block
  let prodHead := r.prodHead
  let consTail := r.consTail
  let prodNext := (prodHead + 1) &&& r.mask
  if prodNext = consTail then
    return (-XRingRet.nospace.code, r)
  else
    let r := { r with prodHead := prodNext }
    let r ← r.modify prodHead (·.grow alloc size)
    let r ← r.modify prodHead (·.copyIn data size)
    let r ← r.modify prodHead (·.setContentLength size)
    let r := { r with prodTail := prodNext }
    return (XRingRet.success.code, r)

def HeapRing.xRingSpEnqueue2 (alloc : Allocator) (copy : CopyFn) (r : HeapRing) (data : Buffer) (size : Int) :
    MemM α σ (Int × HeapRing) := do
  useBlock r.block
  let prodHead := r.prodHead
  let consTail := r.consTail
  let prodNext := (prodHead + 1) &&& r.mask
  if prodNext = consTail then
    return (-XRingRet.nospace.code, r)
  else
    let r := { r with prodHead := prodNext }
    let r ← r.modify prodHead (·.grow alloc size)
    let r ← r.modify prodHead (·.copyBy copy data size)
    let r := { r with prodTail := prodNext }
    return (XRingRet.success.code, r)

/-- The `do` loop of `x_ring_mp_enqueue`, which reaches no entry. -/
def HeapRing.mpReserve (r : HeapRing) (patience : Nat) : Except Fault (Option (UInt32 × UInt32 × HeapRing)) :=
  let prodHead := r.prodHead
  let prodNext := (prodHead + 1) &&& r.mask
  if prodNext = r.consTail then
    .ok none
  else
    match atomic32Cmpset r.prodHead prodHead prodNext with
    | (true, head) => .ok (some (prodHead, prodNext, { r with prodHead := head }))
    | (false, head) =>
        match patience with
        | 0 => .error .diverges
        | patience + 1 => mpReserve { r with prodHead := head } patience

def HeapRing.xRingMpEnqueue (alloc : Allocator) (patience : Nat) (r : HeapRing) (data : Buffer) (size : Int) :
    MemM α σ (Int × HeapRing) := do
  useBlock r.block
  match ← mpReserve r patience with
  | none => return (-XRingRet.nospace.code, r)
  | some (prodHead, prodNext, r) =>
      let r ← r.modify prodHead (·.grow alloc size)
      let r ← r.modify prodHead (·.copyIn data size)
      let r ← r.modify prodHead (·.setContentLength size)
      awaitTail r.prodTail prodHead patience
      let r := { r with prodTail := prodNext }
      return (XRingRet.success.code, r)

def HeapRing.xRingScDequeue (alloc : Allocator) (r : HeapRing) (out : HeapEntry) :
    MemM α σ (Int × HeapRing × HeapEntry) := do
  useBlock r.block
  let consHead := r.consHead
  let prodTail := r.prodTail
  if consHead = prodTail then
    return (-XRingRet.noent.code, r, out)
  else
    let consNext := (consHead + 1) &&& r.mask
    let r := { r with consHead := consNext }
    let out ← (← r.entry consHead).growOut alloc out
    let out ← (← r.entry consHead).copyOut out
    let out ← (← r.entry consHead).setOutLength out
    let r := { r with consTail := consNext }
    return (XRingRet.success.code, r, out)

/-- The `do` loop of `x_ring_mc_dequeue`. -/
def HeapRing.mcReserve (r : HeapRing) (patience : Nat) : Except Fault (Option (UInt32 × UInt32 × HeapRing)) :=
  let consHead := r.consHead
  let prodTail := r.prodTail
  if consHead = prodTail then
    .ok none
  else
    let consNext := (consHead + 1) &&& r.mask
    match atomic32Cmpset r.consHead consHead consNext with
    | (true, head) => .ok (some (consHead, consNext, { r with consHead := head }))
    | (false, head) =>
        match patience with
        | 0 => .error .diverges
        | patience + 1 => mcReserve { r with consHead := head } patience

def HeapRing.xRingMcDequeue (alloc : Allocator) (patience : Nat) (r : HeapRing) (out : HeapEntry) :
    MemM α σ (Int × HeapRing × HeapEntry) := do
  useBlock r.block
  match ← mcReserve r patience with
  | none => return (-XRingRet.noent.code, r, out)
  | some (consHead, consNext, r) =>
      let out ← (← r.entry consHead).growOut alloc out
      let out ← (← r.entry consHead).copyOut out
      let out ← (← r.entry consHead).setOutLength out
      awaitTail r.consTail consHead patience
      let r := { r with consTail := consNext }
      return (XRingRet.success.code, r, out)

/-! ### Clients -/

/-- A ring and the entries its callers own. -/
structure HeapClient (ι : Type) where
  ring : HeapRing
  outs : ι → HeapEntry

variable {ι : Type} [DecidableEq ι]

/-- What the caller finds in its entry. -/
def HeapEntry.payload (e : HeapEntry) : MemM α σ (Int × Buffer) := do
  let bytes ← readBytes (← deref e.data)
  return (e.contentLength, bytes.take e.contentLength.toNat)

def HeapClient.enqueued (s : HeapClient ι) (result : Int × HeapRing) :
    MemM α σ (XRingOutcome × HeapClient ι) :=
  return (⟨result.1, none⟩, { s with ring := result.2 })

def HeapClient.dequeued (s : HeapClient ι) (o : ι) (result : Int × HeapRing × HeapEntry) :
    MemM α σ (XRingOutcome × HeapClient ι) := do
  let (ret, ring, out) := result
  let s := { s with ring := ring, outs := Function.update s.outs o out }
  if ret = XRingRet.success.code then
    let delivered ← out.payload
    return (⟨ret, some delivered⟩, s)
  else
    return (⟨ret, none⟩, s)

/-- A call, on the ring and the entries as they lie in memory. -/
def XRingCall.call (alloc : Allocator) (patience : Nat) (s : HeapClient ι) :
    XRingCall ι → MemM α σ (XRingOutcome × HeapClient ι)
  | .spEnqueue data size => do s.enqueued (← s.ring.xRingSpEnqueue alloc data size)
  | .spEnqueue2 copy data size => do s.enqueued (← s.ring.xRingSpEnqueue2 alloc copy data size)
  | .mpEnqueue data size => do s.enqueued (← s.ring.xRingMpEnqueue alloc patience data size)
  | .scDequeue o => do s.dequeued o (← s.ring.xRingScDequeue alloc (s.outs o))
  | .mcDequeue o => do s.dequeued o (← s.ring.xRingMcDequeue alloc patience (s.outs o))

def XRingCall.execHeap (alloc : Allocator) (patience : Nat) (s : HeapClient ι × Mem α σ)
    (call : XRingCall ι) : Except Fault (XRingOutcome × HeapClient ι × Mem α σ) := do
  let ((outcome, client), m) ← call.call alloc patience s.1 s.2
  return (outcome, client, m)

end Gittest
