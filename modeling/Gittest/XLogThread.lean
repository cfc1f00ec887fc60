import Gittest.XLog
import Gittest.XRingThreads

/-!
# The logger's thread

`x_log_thread` and `x_log_destroy` of `x_log.c` beside any number of threads in `x_log_write`. The ring
and the calls on it are those of `Gittest.XRingThreads`: the writers are its producers, which enqueue
with `x_ring_mp_enqueue`, and the logger's thread is its one consumer. Writing to the file succeeds.

A logger starts as `x_log_create` returns it. That calls `x_ring_create` without the size of the slots,
which is left open.
-/

namespace Gittest

inductive LogThrStatus where
  | init
  | running
  | stopping
  | stopped
  deriving DecidableEq, Repr

/-- Where `x_log_thread` is, with its `ring_entry`. Within `x_ring_sc_dequeue` the consumer has it. -/
inductive XLogThreadPc where
  | loop (ringEntry : XRingEntry)
  | dequeue
  | test (ret : Int) (ringEntry : XRingEntry)
  | noLog (ringEntry : XRingEntry)
  | write (ringEntry : XRingEntry)
  | count (ringEntry : XRingEntry)
  | freeEntry (ringEntry : XRingEntry)
  | returned
  | crashed (fault : Fault)
  deriving DecidableEq

inductive XLogDestroyPc where
  | notCalled
  | join
  | returned
  deriving DecidableEq

/-- `x_log_t` with its threads. `fp` is what has been written to the file, and `writing p` the text that
the writer `p` has not got into the ring yet. -/
structure XLogServer (P : Type) where
  threads : XRingThreads P Unit
  level : Int
  fp : Buffer
  logCount : UInt64
  threadStatus : LogThrStatus
  writing : P → Option Buffer
  thread : XLogThreadPc
  destroyer : XLogDestroyPc

inductive XLogAct (P : Type) where
  | write (p : P) (now : Tm) (level : Int) (message : Text)
  | retry (p : P)
  | prod (p : P)
  | thread
  | destroy

/-- `fwrite(data, 1, n, fp)`. A negative `int` turns into a `size_t` that no buffer has. -/
def fwrite (fp data : Buffer) (n : Int) : Except Fault Buffer :=
  if 0 ≤ n ∧ n ≤ data.length then .ok (fp ++ data.take n.toNat) else .error .overrun

/-- Where a step of the dequeue, from `pc` to `pc'`, leaves the thread. -/
def XLogThreadPc.ofDequeue (pc pc' : ConsPc) : XLogThreadPc :=
  match pc', pc.out? with
  | .idle (some ret), some out => .test ret out
  | .crashed fault, _ => .crashed fault
  | _, _ => .dequeue

namespace XLogServer

variable {P : Type} [DecidableEq P]

def start (ring : XRing) (level : Int) : XLogServer P where
  threads := .start ring
  level := level
  fp := []
  logCount := 0
  threadStatus := .running
  writing := fun _ => none
  thread := .loop {
    size := logBuffLen, contentLength := 0, data := List.replicate logBuffLen none }
  destroyer := .notCalled

/-- `x_ring_mp_enqueue` of a text is called. -/
def enqueue (s : XLogServer P) (p : P) (text : Buffer) : Option (XLogServer P) :=
  (s.threads.step .multi .single (.enqueue p text)).map fun threads =>
    { s with threads := threads, writing := Function.update s.writing p (some text) }

/-- `x_log_write` up to its last loop. Where it runs into undefined behaviour the run ends. -/
def writeStep (s : XLogServer P) (p : P) (now : Tm) (level : Int) (message : Text) :
    Option (XLogServer P) :=
  match s.writing p with
  | some _ => none
  | none =>
      if unsignedInt level > unsignedInt s.level then
        some s
      else
        match xLogFormat now level message with
        | .error _ => none
        | .ok (sbuf, ret) =>
            if 0 ≤ ret ∧ ret ≤ sbuf.length then s.enqueue p (sbuf.take ret.toNat) else none

/-- The last loop of `x_log_write` goes round again. -/
def retryStep (s : XLogServer P) (p : P) : Option (XLogServer P) :=
  match s.writing p with
  | some text => s.enqueue p text
  | none => none

/-- A step of `x_ring_mp_enqueue`, after which `x_log_write` may return. -/
def prodStep (s : XLogServer P) (p : P) : Option (XLogServer P) :=
  (s.threads.step .multi .single (.prod p)).map fun threads =>
    { s with
      threads := threads
      writing :=
        if threads.prod p = .idle (some XRingRet.success.code) then
          Function.update s.writing p none
        else
          s.writing }

def threadStep (s : XLogServer P) : Option (XLogServer P) :=
  match s.thread with
  | .loop ringEntry =>
      -- `while(1)`
      if (1 : Int) ≠ 0 then
        some { s with
          threads := { s.threads with
            cons := Function.update s.threads.cons () (.readHead ringEntry) }
          thread := .dequeue }
      else
        some { s with thread := .freeEntry ringEntry }
  | .dequeue =>
      (s.threads.step .multi .single (.cons ())).map fun threads =>
        { s with
          threads := threads
          thread := .ofDequeue (s.threads.cons ()) (threads.cons ()) }
  | .test ret ringEntry =>
      if ret ≠ XRingRet.success.code then
        some { s with thread := .noLog ringEntry }
      else
        some { s with thread := .write ringEntry }
  | .noLog ringEntry => some { s with thread := .loop ringEntry }
  | .write ringEntry =>
      match fwrite s.fp ringEntry.data ringEntry.contentLength with
      | .ok fp => some { s with fp := fp, thread := .count ringEntry }
      | .error fault => some { s with thread := .crashed fault }
  | .count ringEntry => some { s with logCount := s.logCount + 1, thread := .loop ringEntry }
  | .freeEntry _ => some { s with thread := .returned }
  | .returned => none
  | .crashed _ => none

/-- `x_log_destroy`. The join returns when the thread has; then the ring is destroyed and the file
closed. -/
def destroyStep (s : XLogServer P) : Option (XLogServer P) :=
  match s.destroyer with
  | .notCalled => some { s with threadStatus := .stopping, destroyer := .join }
  | .join => if s.thread = .returned then some { s with destroyer := .returned } else none
  | .returned => none

def step (s : XLogServer P) : XLogAct P → Option (XLogServer P)
  | .write p now level message => s.writeStep p now level message
  | .retry p => s.retryStep p
  | .prod p => s.prodStep p
  | .thread => s.threadStep
  | .destroy => s.destroyStep

end XLogServer

end Gittest
