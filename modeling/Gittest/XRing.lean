import Gittest.Basic

/-!
# The ring

`x_ring.c`: creation, the enqueue and dequeue entry points and the observers, each run from its
first line to its return with no other thread in between. The interleaved runs are in
`Gittest.XRingThreads`; both are built from the same slot operations.
-/

namespace Gittest

inductive XRingRet where
  | success
  | nospace
  | noent
  deriving DecidableEq, Repr

def XRingRet.code : XRingRet → Int
  | .success => 0
  | .nospace => 1
  | .noent => 2

structure XRingEntry where
  size : Int
  contentLength : Int
  data : Buffer
  deriving DecidableEq, Repr

/-- `x_ring_t`. The list has as many entries as were allocated behind the header. -/
structure XRing where
  prodHead : UInt32
  prodTail : UInt32
  consHead : UInt32
  consTail : UInt32
  size : UInt32
  mask : UInt32
  ring : List XRingEntry
  deriving DecidableEq, Repr

/-! ### Creation -/

def isPowerOf2 (n : UInt64) : Bool :=
  n != 0 && (n &&& (n - 1)) == 0

/-- The `while` loop of `roundup_power_of_two`. It has one round for each bit of an `unsigned long`;
past them `andv` is zero and the loop never ends. -/
def roundupSearch (n : UInt64) : Nat → UInt64 → Except Fault UInt64
  | 0, _ => .error .diverges
  | rounds + 1, andv =>
      if andv &&& n = 0 then roundupSearch n rounds (andv >>> 1) else .ok andv

def roundupPowerOfTwo (n : UInt64) : Except Fault UInt64 :=
  if n &&& (n - 1) = 0 then
    .ok n
  else do
    let maxulong : UInt64 := ~~~0
    let andv ← roundupSearch n 64 (~~~(maxulong &&& (maxulong >>> 1)))
    return andv <<< 1

/-- The first statement of `x_ring_create`, which rounds `count` up and cuts it back to 32 bits. -/
def roundedCount (count : UInt32) : Except Fault UInt32 :=
  if isPowerOf2 count.toUInt64 then
    .ok count
  else do
    let rounded ← roundupPowerOfTwo count.toUInt64
    return rounded.toUInt32

/-- `x_ring_create`, the allocations succeeding. `garbage i` is what `malloc` leaves in the
`content_length` of entry `i`, which nothing initialises. -/
def xRingCreate (garbage : Nat → Int) (count : UInt32) (ringbufSize : Int) :
    Except Fault XRing := do
  let count ← roundedCount count
  let ring ← (List.range count.toNat).mapM fun i => do
    let data ← malloc ringbufSize
    pure { size := ringbufSize, contentLength := garbage i, data := data : XRingEntry }
  return {
    prodHead := 0, prodTail := 0, consHead := 0, consTail := 0
    size := count, mask := count - 1, ring := ring }

/-! ### Slots -/

def XRing.entry (r : XRing) (i : UInt32) : Except Fault XRingEntry :=
  match r.ring[i.toNat]? with
  | some e => .ok e
  | none => .error .outOfBounds

def XRing.modify (r : XRing) (i : UInt32) (f : XRingEntry → Except Fault XRingEntry) :
    Except Fault XRing := do
  let e ← r.entry i
  let e' ← f e
  return { r with ring := r.ring.set i.toNat e' }

/-- An enqueue's `if (ring[prod_head].size < size)`: a larger buffer for the slot. -/
def XRingEntry.grow (size : Int) (e : XRingEntry) : Except Fault XRingEntry :=
  if e.size < size then do
    let data ← malloc size
    return { e with data := data, size := size }
  else
    return e

def XRingEntry.copyIn (data : Buffer) (size : Int) (e : XRingEntry) : Except Fault XRingEntry := do
  let copied ← memcpy e.data data size
  return { e with data := copied }

def XRingEntry.setContentLength (length : Int) (e : XRingEntry) : Except Fault XRingEntry :=
  return { e with contentLength := length }

/-- A dequeue's `if (out->size < content_length)`: a larger buffer for the caller. The new buffer has
the slot's size; `out->size` stays as it was. -/
def XRingEntry.growOut (slot out : XRingEntry) : Except Fault XRingEntry :=
  if out.size < slot.contentLength then do
    let data ← malloc slot.size
    return { out with data := data }
  else
    return out

def XRingEntry.copyOut (slot out : XRingEntry) : Except Fault XRingEntry := do
  let copied ← memcpy out.data slot.data slot.contentLength
  return { out with data := copied }

def XRingEntry.setOutLength (slot out : XRingEntry) : Except Fault XRingEntry :=
  return { out with contentLength := slot.contentLength }

/-! ### Enqueueing -/

def xRingSpEnqueue (r : XRing) (data : Buffer) (size : Int) : Except Fault (Int × XRing) :=
  let prodHead := r.prodHead
  let consTail := r.consTail
  let prodNext := (prodHead + 1) &&& r.mask
  if prodNext = consTail then
    return (-XRingRet.nospace.code, r)
  else do
    let r := { r with prodHead := prodNext }
    let r ← r.modify prodHead (·.grow size)
    let r ← r.modify prodHead (·.copyIn data size)
    let r ← r.modify prodHead (·.setContentLength size)
    let r := { r with prodTail := prodNext }
    return (XRingRet.success.code, r)

/-- The `copy` argument of `x_ring_sp_enqueue2` with its `arg` applied: from the slot's buffer, the
data and the size to what the buffer then holds and the value returned. -/
abbrev CopyFn := Buffer → Buffer → Int → Except Fault (Buffer × Int)

def xRingDataCopy : CopyFn := fun ringDataBuf data size => do
  let copied ← memcpy ringDataBuf data size
  return (copied, size)

/-- The call of `copy`. It hands over two pointers and says that `size` bytes lie behind each. -/
def XRingEntry.copyBy (copy : CopyFn) (data : Buffer) (size : Int) (e : XRingEntry) :
    Except Fault XRingEntry :=
  if 0 ≤ size ∧ size ≤ e.data.length ∧ size ≤ data.length then do
    let (copied, length) ← copy e.data data size
    return { e with data := copied, contentLength := length }
  else
    .error .overrun

def xRingSpEnqueue2 (copy : CopyFn) (r : XRing) (data : Buffer) (size : Int) :
    Except Fault (Int × XRing) :=
  let prodHead := r.prodHead
  let consTail := r.consTail
  let prodNext := (prodHead + 1) &&& r.mask
  if prodNext = consTail then
    return (-XRingRet.nospace.code, r)
  else do
    let r := { r with prodHead := prodNext }
    let r ← r.modify prodHead (·.grow size)
    let r ← r.modify prodHead (·.copyBy copy data size)
    let r := { r with prodTail := prodNext }
    return (XRingRet.success.code, r)

/-- It does not look at what the call it wraps returns. -/
def xRingSpEnqueue3 (r : XRing) (data : Buffer) (size : Int) : Except Fault (Int × XRing) := do
  let (_, r) ← xRingSpEnqueue2 xRingDataCopy r data size
  return (0, r)

/-- `atomic32_cmpset`: whether `*dst` was as expected, and what it holds afterwards. -/
def atomic32Cmpset (dst exp src : UInt32) : Bool × UInt32 :=
  if dst = exp then (true, src) else (false, dst)

/-- The `do` loop of `x_ring_mp_enqueue` with no other thread running: `none` where it returns for
want of space, else the index reserved and the one after it. It may go round `patience` more times
after its first. -/
def mpReserve (r : XRing) (patience : Nat) : Except Fault (Option (UInt32 × UInt32 × XRing)) :=
  let prodHead := r.prodHead
  let prodNext := (prodHead + 1) &&& r.mask
  if prodNext = r.consTail then
    .ok none
  else
    match atomic32Cmpset r.prodHead prodHead prodNext with
    | (true, head) => .ok (some (prodHead, prodNext, { r with prodHead := head }))
    | (false, head) =>
        match patience with
        | 0 => .error .diverges
        | patience + 1 => mpReserve { r with prodHead := head } patience

/-- The loops that wait for an index to come round, `while (tail != head)`, with no other thread
running: they may make `patience` rounds. Counting to `X_RING_PAUSE_REP_COUNT` and yielding the
processor leave the ring as it is. -/
def awaitTail (tail head : UInt32) : Nat → Except Fault Unit
  | 0 => if tail ≠ head then .error .diverges else .ok ()
  | patience + 1 => if tail ≠ head then awaitTail tail head patience else .ok ()

def xRingMpEnqueue (patience : Nat) (r : XRing) (data : Buffer) (size : Int) :
    Except Fault (Int × XRing) := do
  match ← mpReserve r patience with
  | none => return (-XRingRet.nospace.code, r)
  | some (prodHead, prodNext, r) =>
      let r ← r.modify prodHead (·.grow size)
      let r ← r.modify prodHead (·.copyIn data size)
      let r ← r.modify prodHead (·.setContentLength size)
      awaitTail r.prodTail prodHead patience
      let r := { r with prodTail := prodNext }
      return (XRingRet.success.code, r)

/-! ### Dequeueing -/

def xRingScDequeue (r : XRing) (out : XRingEntry) : Except Fault (Int × XRing × XRingEntry) :=
  let consHead := r.consHead
  let prodTail := r.prodTail
  if consHead = prodTail then
    return (-XRingRet.noent.code, r, out)
  else do
    let consNext := (consHead + 1) &&& r.mask
    let r := { r with consHead := consNext }
    let out ← (← r.entry consHead).growOut out
    let out ← (← r.entry consHead).copyOut out
    let out ← (← r.entry consHead).setOutLength out
    let r := { r with consTail := consNext }
    return (XRingRet.success.code, r, out)

/-- The `do` loop of `x_ring_mc_dequeue` with no other thread running. -/
def mcReserve (r : XRing) (patience : Nat) : Except Fault (Option (UInt32 × UInt32 × XRing)) :=
  let consHead := r.consHead
  let prodTail := r.prodTail
  if consHead = prodTail then
    .ok none
  else
    let consNext := (consHead + 1) &&& r.mask
    match atomic32Cmpset r.consHead consHead consNext with
    | (true, head) => .ok (some (consHead, consNext, { r with consHead := head }))
    | (false, head) =>
        match patience with
        | 0 => .error .diverges
        | patience + 1 => mcReserve { r with consHead := head } patience

def xRingMcDequeue (patience : Nat) (r : XRing) (out : XRingEntry) :
    Except Fault (Int × XRing × XRingEntry) := do
  match ← mcReserve r patience with
  | none => return (-XRingRet.noent.code, r, out)
  | some (consHead, consNext, r) =>
      let out ← (← r.entry consHead).growOut out
      let out ← (← r.entry consHead).copyOut out
      let out ← (← r.entry consHead).setOutLength out
      awaitTail r.consTail consHead patience
      let r := { r with consTail := consNext }
      return (XRingRet.success.code, r, out)

/-! ### Observers -/

def xRingFull (r : XRing) : Bool :=
  (r.consTail - r.prodTail - 1) &&& r.mask == 0

def xRingEmpty (r : XRing) : Bool :=
  r.consTail == r.prodTail

def xRingCount (r : XRing) : UInt32 :=
  (r.prodTail - r.consTail) &&& r.mask

def xRingFreeCount (r : XRing) : UInt32 :=
  (r.consTail - r.prodTail - 1) &&& r.mask

/-! ### Clients -/

/-- A ring and the entries its callers own, which they pass to dequeues again and again. -/
structure XRingClient (ι : Type) where
  ring : XRing
  outs : ι → XRingEntry

inductive XRingCall (ι : Type) where
  | spEnqueue (data : Buffer) (size : Int)
  | spEnqueue2 (copy : CopyFn) (data : Buffer) (size : Int)
  | mpEnqueue (data : Buffer) (size : Int)
  | scDequeue (out : ι)
  | mcDequeue (out : ι)

/-- What the caller sees of a call: the value returned, and after a successful dequeue the
`content_length` of its entry and the bytes that many bytes long. -/
structure XRingOutcome where
  ret : Int
  delivered : Option (Int × Buffer)
  deriving DecidableEq, Repr

variable {ι : Type} [DecidableEq ι]

def XRingClient.enqueued (c : XRingClient ι) (result : Int × XRing) :
    XRingOutcome × XRingClient ι :=
  (⟨result.1, none⟩, { c with ring := result.2 })

def XRingClient.dequeued (c : XRingClient ι) (o : ι) (result : Int × XRing × XRingEntry) :
    XRingOutcome × XRingClient ι :=
  let (ret, ring, out) := result
  let delivered :=
    if ret = XRingRet.success.code then
      some (out.contentLength, out.data.take out.contentLength.toNat)
    else
      none
  (⟨ret, delivered⟩, { ring := ring, outs := Function.update c.outs o out })

def XRingCall.exec (patience : Nat) (c : XRingClient ι) :
    XRingCall ι → Except Fault (XRingOutcome × XRingClient ι)
  | .spEnqueue data size => return c.enqueued (← xRingSpEnqueue c.ring data size)
  | .spEnqueue2 copy data size => return c.enqueued (← xRingSpEnqueue2 copy c.ring data size)
  | .mpEnqueue data size => return c.enqueued (← xRingMpEnqueue patience c.ring data size)
  | .scDequeue o => return c.dequeued o (← xRingScDequeue c.ring (c.outs o))
  | .mcDequeue o => return c.dequeued o (← xRingMcDequeue patience c.ring (c.outs o))

end Gittest
