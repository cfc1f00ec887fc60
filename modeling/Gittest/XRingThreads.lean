import Gittest.XRing
import Gittest.Lib.Transition

/-!
# The ring under interleaved threads

Any number of producers and consumers on one ring. A step is one access to the shared memory,
together with the local computation up to the next one: a read or a write of one of the four indices,
a compare-and-set, or one of the accesses to the slot. `XRingMode` says which of the two entry points
the threads of a side call: `x_ring_sp_enqueue` and `x_ring_sc_dequeue` write their head index,
`x_ring_mp_enqueue` and `x_ring_mc_dequeue` compare and set it, and wait for their tail index.

The reads that `X_RING_DEBUG` makes only to print are left out. `XRingLog` is not part of the
program: it records what has happened, and no step reads it except to keep its own numbers.
-/

namespace Gittest

inductive XRingMode where
  | single
  | multi
  deriving DecidableEq

/-- What an enqueue does between reserving its slot and returning. -/
inductive FillStep where
  | grow
  | copy
  | setLength
  | awaitTail
  | publish
  deriving DecidableEq

inductive DrainStep where
  | grow
  | copy
  | setLength
  | awaitTail
  | release
  deriving DecidableEq

/-- A producer: the access it makes next, with its local variables. -/
inductive ProdPc where
  | idle (ret : Option Int)
  | readHead (data : Buffer)
  | readTail (data : Buffer) (prodHead : UInt32)
  | reserve (data : Buffer) (prodHead prodNext : UInt32)
  | fill (step : FillStep) (data : Buffer) (prodHead prodNext : UInt32)
  | crashed (fault : Fault)
  deriving DecidableEq

/-- A consumer, with the entry of its caller. -/
inductive ConsPc where
  | idle (ret : Option Int)
  | readHead (out : XRingEntry)
  | readTail (out : XRingEntry) (consHead : UInt32)
  | reserve (out : XRingEntry) (consHead consNext : UInt32)
  | drain (step : DrainStep) (out : XRingEntry) (consHead consNext : UInt32)
  | crashed (fault : Fault)
  deriving DecidableEq

/-- A write to the slot: on to `next` with the ring it leaves, or to the fault it runs into. -/
def ProdPc.write (r : XRing) (next : ProdPc) : Except Fault XRing → XRing × ProdPc
  | .ok r' => (r', next)
  | .error fault => (r, .crashed fault)

def ProdPc.step (mode : XRingMode) (r : XRing) : ProdPc → Option (XRing × ProdPc)
  | .idle _ => none
  | .crashed _ => none
  | .readHead data => some (r, .readTail data r.prodHead)
  | .readTail data prodHead =>
      let prodNext := (prodHead + 1) &&& r.mask
      if prodNext = r.consTail then
        some (r, .idle (some (-XRingRet.nospace.code)))
      else
        some (r, .reserve data prodHead prodNext)
  | .reserve data prodHead prodNext =>
      match mode with
      | .single => some ({ r with prodHead := prodNext }, .fill .grow data prodHead prodNext)
      | .multi =>
          match atomic32Cmpset r.prodHead prodHead prodNext with
          | (true, head) => some ({ r with prodHead := head }, .fill .grow data prodHead prodNext)
          | (false, head) => some ({ r with prodHead := head }, .readHead data)
  | .fill .grow data prodHead prodNext =>
      some (write r (.fill .copy data prodHead prodNext) (r.modify prodHead (·.grow data.length)))
  | .fill .copy data prodHead prodNext =>
      some (write r (.fill .setLength data prodHead prodNext)
        (r.modify prodHead (·.copyIn data data.length)))
  | .fill .setLength data prodHead prodNext =>
      let next := match mode with
        | .single => FillStep.publish
        | .multi => FillStep.awaitTail
      some (write r (.fill next data prodHead prodNext)
        (r.modify prodHead (·.setContentLength data.length)))
  | .fill .awaitTail data prodHead prodNext =>
      if r.prodTail ≠ prodHead then
        some (r, .fill .awaitTail data prodHead prodNext)
      else
        some (r, .fill .publish data prodHead prodNext)
  | .fill .publish _ _ prodNext =>
      some ({ r with prodTail := prodNext }, .idle (some XRingRet.success.code))

/-- An access to the slot by a dequeue, which changes only the entry of its caller. -/
def ConsPc.read (next : XRingEntry → ConsPc) : Except Fault XRingEntry → ConsPc
  | .ok out => next out
  | .error fault => .crashed fault

def ConsPc.step (mode : XRingMode) (r : XRing) : ConsPc → Option (XRing × ConsPc)
  | .idle _ => none
  | .crashed _ => none
  | .readHead out => some (r, .readTail out r.consHead)
  | .readTail out consHead =>
      if consHead = r.prodTail then
        some (r, .idle (some (-XRingRet.noent.code)))
      else
        some (r, .reserve out consHead ((consHead + 1) &&& r.mask))
  | .reserve out consHead consNext =>
      match mode with
      | .single => some ({ r with consHead := consNext }, .drain .grow out consHead consNext)
      | .multi =>
          match atomic32Cmpset r.consHead consHead consNext with
          | (true, head) => some ({ r with consHead := head }, .drain .grow out consHead consNext)
          | (false, head) => some ({ r with consHead := head }, .readHead out)
  | .drain .grow out consHead consNext =>
      some (r, read (.drain .copy · consHead consNext) (r.entry consHead >>= (·.growOut out)))
  | .drain .copy out consHead consNext =>
      some (r, read (.drain .setLength · consHead consNext) (r.entry consHead >>= (·.copyOut out)))
  | .drain .setLength out consHead consNext =>
      let next := match mode with
        | .single => DrainStep.release
        | .multi => DrainStep.awaitTail
      some (r, read (.drain next · consHead consNext) (r.entry consHead >>= (·.setOutLength out)))
  | .drain .awaitTail out consHead consNext =>
      if r.consTail ≠ consHead then
        some (r, .drain .awaitTail out consHead consNext)
      else
        some (r, .drain .release out consHead consNext)
  | .drain .release _ _ consNext =>
      some ({ r with consTail := consNext }, .idle (some XRingRet.success.code))

/-- The entry that a dequeue works on. -/
def ConsPc.out? : ConsPc → Option XRingEntry
  | .readHead out => some out
  | .readTail out _ => some out
  | .reserve out _ _ => some out
  | .drain _ out _ _ => some out
  | .idle _ => none
  | .crashed _ => none

/-- A `content_length` and the bytes of that length. -/
abbrev Payload := Int × Buffer

def XRingEntry.payload (e : XRingEntry) : Payload :=
  (e.contentLength, e.data.take e.contentLength.toNat)

/-- What an enqueue of `data` is to deliver. -/
def payloadOf (data : Buffer) : Payload :=
  (data.length, data)

/-- The history of a run. -/
structure XRingLog (C : Type) where
  /-- The slot and the data of every enqueue that has reserved a slot, in the order in which they
  did. -/
  reserved : List (UInt32 × Buffer)
  /-- How many enqueues have written `prod.tail`, and so have succeeded. -/
  published : Nat
  /-- How many dequeues have reserved a slot, and how many have released it. -/
  claimed : Nat
  released : Nat
  /-- The number of the reservation each consumer made last. -/
  ticket : C → Nat
  /-- The successful dequeues in the order of their returns: the number of the reservation, and the
  payload delivered. -/
  returned : List (Nat × Payload)

structure XRingThreads (P C : Type) where
  ring : XRing
  prod : P → ProdPc
  cons : C → ConsPc
  log : XRingLog C

inductive XRingAct (P C : Type) where
  | enqueue (p : P) (data : Buffer)
  | dequeue (c : C) (out : XRingEntry)
  | prod (p : P)
  | cons (c : C)

variable {P C : Type} [DecidableEq P] [DecidableEq C]

def XRingLog.recordProd (log : XRingLog C) : ProdPc → ProdPc → XRingLog C
  | .reserve data prodHead _, .fill _ _ _ _ =>
      { log with reserved := log.reserved ++ [(prodHead, data)] }
  | .fill .publish _ _ _, .idle _ => { log with published := log.published + 1 }
  | _, _ => log

def XRingLog.recordCons (log : XRingLog C) (c : C) : ConsPc → ConsPc → XRingLog C
  | .reserve _ _ _, .drain _ _ _ _ =>
      { log with claimed := log.claimed + 1, ticket := Function.update log.ticket c log.claimed }
  | .drain .release out _ _, .idle _ =>
      { log with
        released := log.released + 1
        returned := log.returned ++ [(log.ticket c, out.payload)] }
  | _, _ => log

/-- The entry a caller passes to a dequeue has a buffer of at least its `size`. -/
def XRingEntry.Fits (out : XRingEntry) : Prop := out.size ≤ out.data.length

instance (out : XRingEntry) : Decidable out.Fits := inferInstanceAs (Decidable (_ ≤ _))

def XRingThreads.step (prodMode consMode : XRingMode) (s : XRingThreads P C) :
    XRingAct P C → Option (XRingThreads P C)
  | .enqueue p data =>
      match s.prod p with
      | .idle _ => some { s with prod := Function.update s.prod p (.readHead data) }
      | _ => none
  | .dequeue c out =>
      match s.cons c with
      | .idle _ =>
          if out.Fits then
            some { s with cons := Function.update s.cons c (.readHead out) }
          else
            none
      | _ => none
  | .prod p =>
      (s.prod p).step prodMode s.ring |>.map fun (ring, pc) =>
        { s with
          ring := ring
          prod := Function.update s.prod p pc
          log := s.log.recordProd (s.prod p) pc }
  | .cons c =>
      (s.cons c).step consMode s.ring |>.map fun (ring, pc) =>
        { s with
          ring := ring
          cons := Function.update s.cons c pc
          log := s.log.recordCons c (s.cons c) pc }

def XRingThreads.start (ring : XRing) : XRingThreads P C where
  ring := ring
  prod := fun _ => .idle none
  cons := fun _ => .idle none
  log := {
    reserved := [], published := 0, claimed := 0, released := 0
    ticket := fun _ => 0, returned := [] }

/-- The payloads of the enqueues that have succeeded, in the order of their reservations. -/
def XRingLog.accepted (log : XRingLog C) : List Payload :=
  (log.reserved.take log.published).map fun entry => payloadOf entry.2

def XRingLog.delivered (log : XRingLog C) : List Payload :=
  log.returned.map Prod.snd

def XRingLog.outstanding (log : XRingLog C) : List (UInt32 × Buffer) :=
  log.reserved.drop log.released

end Gittest
