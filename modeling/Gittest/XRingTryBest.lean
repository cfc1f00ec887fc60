import Gittest.Ipv6Add
import Gittest.Text
import Gittest.XRingThreads

/-!
# The test of the ring with two threads

`thread_enqueue_try_best` and `thread_dequeue_try_best` of `x_ring_test_multithread.cpp` on one ring. The
first enqueues the numbers from 0 up to `MAX_SEQ_NUM`, the second dequeues as many and calls `exit(1)` at
one that it does not expect; where a call finds the ring full or empty, they try again. The calls are
those of `Gittest.XRingThreads`. `main` makes the ring for 512 entries of 20 bytes and joins both threads.
The ring, `MAX_SEQ_NUM` and the order in which the machine stores a word are parameters.
-/

namespace Gittest

def tryNumber : Int := 1000

/-- The bytes of an `int`. -/
def intBytes (order : ByteOrder) (i : Int) : Buffer :=
  (order.bytes (UInt32.ofNat (unsignedInt i))).map some

/-- `*(int *)data`. -/
def readInt (order : ByteOrder) : Buffer → Except Fault Int
  | some a :: some b :: some c :: some d :: _ => .ok (toInt (order.word a b c d).toNat)
  | data => .error (if data.length < 4 then .overrun else .uninitialised)

/-- Where `thread_enqueue_try_best` is: at the top of its outer loop, at the top of its inner one, within
`x_ring_sp_enqueue`, or behind it. -/
inductive EnqueueTryPc where
  | store
  | call
  | enqueue
  | test (ret : Int)
  | returned
  | crashed (fault : Fault)
  deriving DecidableEq

structure EnqueueTry where
  i : Int
  tries : Int
  buf : Buffer
  pc : EnqueueTryPc

/-- Where `thread_dequeue_try_best` is. -/
inductive DequeueTryPc where
  | call
  | dequeue
  | test (ret : Int)
  | returned
  | exited
  | crashed (fault : Fault)
  deriving DecidableEq

/-- Within `x_ring_sc_dequeue` the consumer has the entry. `shown` is what has been printed as
"get value". -/
structure DequeueTry where
  expVal : Int
  tries : Int
  entry : XRingEntry
  shown : List Int
  pc : DequeueTryPc

structure TryBest where
  threads : XRingThreads Unit Unit
  enqueuer : EnqueueTry
  dequeuer : DequeueTry

inductive TryBestAct where
  | enqueuer
  | dequeuer

/-- Where a step of the enqueue leaves the thread. -/
def EnqueueTryPc.ofEnqueue : ProdPc → EnqueueTryPc
  | .idle (some ret) => .test ret
  | .crashed fault => .crashed fault
  | _ => .enqueue

/-- The same for a dequeue, from `pc` to `pc'`, with the entry that it returns. -/
def DequeueTry.ofDequeue (t : DequeueTry) (pc pc' : ConsPc) : DequeueTry :=
  match pc', pc.out? with
  | .idle (some ret), some out => { t with entry := out, pc := .test ret }
  | .crashed fault, _ => { t with pc := .crashed fault }
  | _, _ => t

/-- `tries ++`, and from `TRY_NUMBER` on a message, a rest and a new count. -/
def retry (tries : Int) : Int := if tries + 1 ≥ tryNumber then 0 else tries + 1

namespace TryBest

def start (ring : XRing) : TryBest where
  threads := .start ring
  enqueuer := { i := 0, tries := 0, buf := List.replicate 20 (some 0), pc := .store }
  dequeuer := {
    expVal := 0, tries := 0, shown := [], pc := .call
    entry := { size := 20, contentLength := 0, data := List.replicate 20 none } }

variable (order : ByteOrder) (maxSeqNum : Int)

/-- `thread_enqueue_try_best`. -/
def threadEnqueueTryBest (s : TryBest) : Option TryBest :=
  let t := s.enqueuer
  match t.pc with
  | .store =>
      match memcpy t.buf (intBytes order t.i) 4 with
      | .ok buf => some { s with enqueuer := { t with tries := 0, buf := buf, pc := .call } }
      | .error fault => some { s with enqueuer := { t with pc := .crashed fault } }
  | .call =>
      -- `buf_len` is `sizeof(int)`
      (s.threads.step .single .single (.enqueue () (t.buf.take 4))).map fun threads =>
        { s with threads := threads, enqueuer := { t with pc := .enqueue } }
  | .enqueue =>
      (s.threads.step .single .single (.prod ())).map fun threads =>
        { s with
          threads := threads
          enqueuer := { t with pc := .ofEnqueue (threads.prod ()) } }
  | .test ret =>
      if ret ≠ 0 then
        some { s with enqueuer := { t with tries := retry t.tries, pc := .call } }
      else if t.i + 1 ≥ maxSeqNum then
        some { s with enqueuer := { t with i := t.i + 1, pc := .returned } }
      else
        some { s with enqueuer := { t with i := t.i + 1, pc := .store } }
  | .returned => none
  | .crashed _ => none

/-- `thread_dequeue_try_best`. -/
def threadDequeueTryBest (s : TryBest) : Option TryBest :=
  let t := s.dequeuer
  match t.pc with
  | .call =>
      (s.threads.step .single .single (.dequeue () t.entry)).map fun threads =>
        { s with threads := threads, dequeuer := { t with pc := .dequeue } }
  | .dequeue =>
      (s.threads.step .single .single (.cons ())).map fun threads =>
        { s with
          threads := threads
          dequeuer := t.ofDequeue (s.threads.cons ()) (threads.cons ()) }
  | .test ret =>
      if ret ≠ 0 then
        some { s with dequeuer := { t with tries := retry t.tries, pc := .call } }
      else
        match readInt order t.entry.data with
        | .error fault => some { s with dequeuer := { t with pc := .crashed fault } }
        | .ok tmp =>
            if tmp ≠ t.expVal then
              some { s with dequeuer := { t with pc := .exited } }
            else if t.expVal + 1 ≥ maxSeqNum then
              some { s with dequeuer := { t with
                expVal := t.expVal + 1, shown := t.shown ++ [tmp], pc := .returned } }
            else
              some { s with dequeuer := { t with
                expVal := t.expVal + 1, tries := 0, shown := t.shown ++ [tmp], pc := .call } }
  | .returned => none
  | .exited => none
  | .crashed _ => none

/-- After `exit(1)` no thread goes on. -/
def step (s : TryBest) (a : TryBestAct) : Option TryBest :=
  if s.dequeuer.pc = .exited then
    none
  else
    match a with
    | .enqueuer => s.threadEnqueueTryBest order maxSeqNum
    | .dequeuer => s.threadDequeueTryBest order maxSeqNum

end TryBest

end Gittest
