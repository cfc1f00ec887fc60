import Gittest.Lib.Calls
import Gittest.Proof.XRingCalls

/-!
# The ring as a bounded queue

Without interleaving a ring is a FIFO queue of byte strings that holds one less than its size. Any
mixture of the five entry points has the results of that queue, and the four observers report on it.
-/

namespace Gittest

open Calls

def fifoPut (capacity : Nat) (q : List Buffer) (bytes : Buffer) : XRingOutcome × List Buffer :=
  if q.length < capacity then
    (⟨XRingRet.success.code, none⟩, q ++ [bytes])
  else
    (⟨-XRingRet.nospace.code, none⟩, q)

def fifoTake : List Buffer → XRingOutcome × List Buffer
  | [] => (⟨-XRingRet.noent.code, none⟩, [])
  | bytes :: q => (⟨XRingRet.success.code, some (payloadOf bytes)⟩, q)

variable {ι : Type}

/-- What each call does to the queue. -/
def XRingCall.spec (capacity : Nat) (q : List Buffer) : XRingCall ι → XRingOutcome × List Buffer
  | .spEnqueue data size => fifoPut capacity q (data.take size.toNat)
  | .spEnqueue2 _ data size => fifoPut capacity q (data.take size.toNat)
  | .mpEnqueue data size => fifoPut capacity q (data.take size.toNat)
  | .scDequeue _ => fifoTake q
  | .mcDequeue _ => fifoTake q

/-- What the observers say of a ring that holds `held` byte strings. -/
structure XRing.Observed (r : XRing) (capacity held : Nat) : Prop where
  count : (xRingCount r).toNat = held
  freeCount : (xRingFreeCount r).toNat = capacity - held
  empty : xRingEmpty r = true ↔ held = 0
  full : xRingFull r = true ↔ held = capacity

theorem XRing.Stores.observed {r : XRing} {size published released : Nat} {q : List Buffer}
    (hstores : r.Stores size published released q) : r.Observed (size - 1) q.length where
  count := hstores.count_toNat
  freeCount := hstores.freeCount_toNat
  empty := hstores.isEmpty_iff
  full := hstores.isFull_iff

theorem XRingCall.spec_single (capacity : Nat) (q : List Buffer) (call : XRingCall ι) :
    call.single.spec capacity q = call.spec capacity q := by
  cases call <;> rfl

variable [DecidableEq ι]

namespace XRingClient.Stores

variable {size : Nat} {c : XRingClient ι} {q : List Buffer}

theorem exec_put (hstores : c.Stores size q) {data : Buffer} {n : Int} (hpos : 0 ≤ n)
    (hdata : n ≤ data.length) (patience : Nat) :
    ∃ c', (XRingCall.spEnqueue2 xRingDataCopy data n).exec patience c
        = .ok ((fifoPut (size - 1) q (data.take n.toNat)).1, c') ∧
      c'.Stores size (fifoPut (size - 1) q (data.take n.toNat)).2 ∧
      ((fifoPut (size - 1) q (data.take n.toNat)).1.ret ≠ XRingRet.success.code → c' = c) := by
  by_cases hroom : q.length + 1 < size
  · obtain ⟨c', bytes, hexec, hstores', rfl⟩ :=
      hstores.exec_enqueue hpos (XRingEntry.copies_dataCopy hpos hdata) hroom patience
    rw [fifoPut, if_pos (by omega)]
    exact ⟨c', hexec, hstores', fun hfailed => absurd rfl hfailed⟩
  · rw [fifoPut, if_neg (by omega)]
    exact ⟨c, hstores.exec_nospace xRingDataCopy data n hroom patience, hstores, fun _ => rfl⟩

theorem exec_take (hstores : c.Stores size q) (o : ι) (patience : Nat) :
    ∃ c', (XRingCall.scDequeue o).exec patience c = .ok ((fifoTake q).1, c') ∧
      c'.Stores size (fifoTake q).2 ∧
      ((fifoTake q).1.ret ≠ XRingRet.success.code → c' = c) := by
  cases q with
  | nil => exact ⟨c, hstores.exec_noent o patience, hstores, fun _ => rfl⟩
  | cons bytes q =>
      obtain ⟨c', hexec, hstores'⟩ := hstores.exec_dequeue o patience
      exact ⟨c', hexec, hstores', fun hfailed => absurd rfl hfailed⟩

theorem exec_refines (hstores : c.Stores size q) {call : XRingCall ι}
    (hlegal : call.Legal (· = xRingDataCopy)) (patience : Nat) :
    ∃ c', call.exec patience c = .ok ((call.spec (size - 1) q).1, c') ∧
      c'.Stores size (call.spec (size - 1) q).2 ∧
      ((call.spec (size - 1) q).1.ret ≠ XRingRet.success.code → c' = c) := by
  obtain ⟨published, released, hring⟩ := hstores.ring
  rw [XRingCall.exec_single hring, ← call.spec_single]
  cases call with
  | spEnqueue data n => exact hstores.exec_put hlegal.1 hlegal.2 patience
  | spEnqueue2 copy data n =>
      obtain ⟨rfl, hpos, hdata⟩ := hlegal
      exact hstores.exec_put hpos hdata patience
  | mpEnqueue data n => exact hstores.exec_put hlegal.1 hlegal.2 patience
  | scDequeue o => exact hstores.exec_take o patience
  | mcDequeue o => exact hstores.exec_take o patience

end XRingClient.Stores

/-- **The ring refines the bounded queue.** After any sequence of calls the results are those of the
queue, the observers agree with it, and the next call has its result; a call that fails changes
nothing. The wait loops may be given no round at all. -/
theorem xRing_refines_fifo {garbage : Nat → Int} {count : UInt32} {ringbufSize : Int} {r : XRing}
    (hmade : xRingCreate garbage count ringbufSize = .ok r) (hpos : 1 ≤ count.toNat)
    (hle : count.toNat ≤ 2 ^ 31) {size : Nat}
    (hsize : IsLeast {p : Nat | (∃ k, p = 2 ^ k) ∧ count.toNat ≤ p} size) (patience : Nat)
    {outs : ι → XRingEntry} (houts : ∀ o, (outs o).Fits) (calls : List (XRingCall ι))
    (hlegal : ∀ call ∈ calls, call.Legal (· = xRingDataCopy)) :
    ∃ c, runCalls (XRingCall.exec patience) ⟨r, outs⟩ calls
        = .ok ((runSpec (XRingCall.spec (size - 1)) [] calls).1, c) ∧
      c.ring.Observed (size - 1) (runSpec (XRingCall.spec (size - 1)) [] calls).2.length ∧
      ∀ call : XRingCall ι, call.Legal (· = xRingDataCopy) →
        ∃ c', call.exec patience c = .ok
            ((call.spec (size - 1) (runSpec (XRingCall.spec (size - 1)) [] calls).2).1, c') ∧
          ((call.spec (size - 1) (runSpec (XRingCall.spec (size - 1)) [] calls).2).1.ret
            ≠ XRingRet.success.code → c' = c) := by
  cases hsize.unique (isLeast_ringSize count)
  have hinit : XRingClient.Stores (ringSize count) ⟨r, outs⟩ [] :=
    ⟨⟨0, 0, stores_of_made hmade hpos hle⟩, houts⟩
  have hstep : ∀ (c : XRingClient ι) q (call : XRingCall ι), c.Stores (ringSize count) q →
      call.Legal (· = xRingDataCopy) →
      ∃ c', call.exec patience c = .ok ((call.spec (ringSize count - 1) q).1, c') ∧
        c'.Stores (ringSize count) (call.spec (ringSize count - 1) q).2 := by
    intro c q call hstores hcall
    obtain ⟨c', hexec, hstores', _⟩ := hstores.exec_refines hcall patience
    exact ⟨c', hexec, hstores'⟩
  obtain ⟨c, hrun, hstores⟩ := runCalls_refines hstep hinit (admissible_of_forall_mem [] hlegal)
  obtain ⟨published, released, hring⟩ := hstores.ring
  refine ⟨c, hrun, hring.observed, fun call hcall => ?_⟩
  obtain ⟨c', hexec, _, hfailed⟩ := hstores.exec_refines hcall patience
  exact ⟨c', hexec, hfailed⟩

/-- A ring of size 2 takes one byte string, turns the next one away and gives the first one back. -/
theorem xRing_refines_fifo_two :
    ∃ c, runCalls (XRingCall.exec 0) ⟨ringOfTwo, fun _ => ⟨0, 0, []⟩⟩
        [.mpEnqueue [some 7] 1, .spEnqueue [some 8] 1, .mcDequeue ()]
          = .ok ([⟨0, none⟩, ⟨-1, none⟩, ⟨0, some (1, [some 7])⟩], c) ∧
      c.ring.Observed 1 0 := by
  have hsize : IsLeast {p : Nat | (∃ k, p = 2 ^ k) ∧ (2 : UInt32).toNat ≤ p} 2 :=
    ⟨⟨⟨1, rfl⟩, le_rfl⟩, fun _ hp => hp.2⟩
  have hlegal : ∀ call ∈ ([.mpEnqueue [some 7] 1, .spEnqueue [some 8] 1, .mcDequeue ()] :
      List (XRingCall Unit)), call.Legal (· = xRingDataCopy) := by
    simp [XRingCall.Legal]
  have houts : ∀ _ : Unit, (⟨0, 0, []⟩ : XRingEntry).Fits := fun _ => by decide
  obtain ⟨c, hrun, hobserved, _⟩ := xRing_refines_fifo xRingCreate_two (by decide) (by decide)
    hsize 0 houts _ hlegal
  exact ⟨c, hrun, hobserved⟩

end Gittest
