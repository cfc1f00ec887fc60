import Gittest.XRingBounds

/-!
# The four ways to enqueue

`x_ring_sp_enqueue`, the two built on the copy callback and `x_ring_mp_enqueue` come to the same as
long as there is room. Without room `x_ring_sp_enqueue3` reports a success that it has not had.
-/

namespace Gittest

open Calls

inductive XRingEnqueue where
  | sp
  | sp2
  | sp3
  | mp
  deriving DecidableEq, Repr

/-- The entry point run alone, `x_ring_sp_enqueue2` with `x_ring_data_copy`. -/
def XRingEnqueue.run (patience : Nat) (r : XRing) (data : Buffer) (size : Int) :
    XRingEnqueue → Except Fault (Int × XRing)
  | .sp => xRingSpEnqueue r data size
  | .sp2 => xRingSpEnqueue2 xRingDataCopy r data size
  | .sp3 => xRingSpEnqueue3 r data size
  | .mp => xRingMpEnqueue patience r data size

/-- The payload went into the slot that was next, and counts among those in the ring. -/
structure XRing.Took (r r' : XRing) (bytes : Buffer) : Prop where
  count : (xRingCount r').toNat = (xRingCount r).toNat + 1
  held : r'.Holds r.prodTail.toNat (payloadOf bytes)

/-- All four return one code and leave one ring, and the code is that of a success exactly where the
payload was stored. -/
def XRing.EntriesAgree (r : XRing) (data : Buffer) (size : Int) : Prop :=
  ∀ patience, ∃ ret r', (∀ entry : XRingEnqueue, entry.run patience r data size = .ok (ret, r')) ∧
    (ret = XRingRet.success.code ↔ r.Took r' (data.take size.toNat))

section Stored

variable {r : XRing} {size published released : Nat} {q : List Buffer} {data : Buffer} {n : Int}

theorem XRing.Stores.took (hstores : r.Stores size published released q) {r' : XRing} {bytes : Buffer}
    (hstores' : r'.Stores size (published + 1) released (q ++ [bytes])) : r.Took r' bytes := by
  constructor
  case count =>
    rw [hstores'.count_toNat, hstores.count_toNat, List.length_append, List.length_singleton]
  case held =>
    rw [hstores.at_log.prodTail, hstores.length]
    exact hstores'.held q.length bytes List.getElem?_concat_length

/-- `x_ring_sp_enqueue3` leaves the ring that the call it wraps leaves. -/
theorem xRingSpEnqueue3_ok {ret : Int} {r' : XRing}
    (henqueue : xRingSpEnqueue2 xRingDataCopy r data n = .ok (ret, r')) :
    xRingSpEnqueue3 r data n = .ok (0, r') := by
  rw [xRingSpEnqueue3, henqueue]
  rfl

theorem XRing.Stores.entriesAgree (hstores : r.Stores size published released q) (hpos : 0 ≤ n)
    (hdata : n ≤ data.length) (hroom : q.length + 1 < size) : r.EntriesAgree data n := by
  intro patience
  obtain ⟨r', bytes, henqueue, hstores', rfl⟩ :=
    hstores.enqueue hpos (XRingEntry.copies_dataCopy hpos hdata) hroom
  refine ⟨XRingRet.success.code, r', fun entry => ?_, fun _ => hstores.took hstores', fun _ => rfl⟩
  cases entry with
  | sp => rwa [XRingEnqueue.run, ← xRingSpEnqueue2_dataCopy]
  | sp2 => exact henqueue
  | sp3 => exact xRingSpEnqueue3_ok henqueue
  | mp => rwa [XRingEnqueue.run, xRingMpEnqueue_eq hstores.tails.1, ← xRingSpEnqueue2_dataCopy]

/-- Of a full ring the wrapper returns 0 and the others do not. -/
theorem XRing.Stores.not_entriesAgree (hstores : r.Stores size published released q)
    (hfull : ¬q.length + 1 < size) : ¬r.EntriesAgree data n := by
  intro hagree
  obtain ⟨ret, r', hrun, _⟩ := hagree 0
  have hnospace := hstores.nospace xRingDataCopy data n hfull
  have hsp2 := hrun .sp2
  have hsp3 := hrun .sp3
  rw [XRingEnqueue.run, hnospace] at hsp2
  rw [XRingEnqueue.run, xRingSpEnqueue3_ok hnospace] at hsp3
  cases hsp2
  cases hsp3

theorem XRing.Stores.entriesAgree_iff (hstores : r.Stores size published released q) (hpos : 0 ≤ n)
    (hdata : n ≤ data.length) : r.EntriesAgree data n ↔ xRingFull r = false := by
  have hlt := hstores.length_lt
  rw [Bool.eq_false_iff, Ne, hstores.isFull_iff]
  constructor
  · intro hagree hfull
    exact hstores.not_entriesAgree (by omega) hagree
  · intro hroom
    exact hstores.entriesAgree hpos hdata (by omega)

end Stored

/-! ### The rings that calls lead to -/

/-- Any of the calls, `x_ring_sp_enqueue3` among them. -/
inductive XRingUse (ι : Type) where
  | plain (call : XRingCall ι)
  | spEnqueue3 (data : Buffer) (size : Int)

variable {ι : Type}

def XRingUse.Legal : XRingUse ι → Prop
  | .plain call => call.Legal CopyFn.Bounded
  | .spEnqueue3 data size => 0 ≤ size ∧ size ≤ data.length

variable [DecidableEq ι]

def XRingUse.exec (patience : Nat) (c : XRingClient ι) :
    XRingUse ι → Except Fault (XRingOutcome × XRingClient ι)
  | .plain call => call.exec patience c
  | .spEnqueue3 data size => return c.enqueued (← xRingSpEnqueue3 c.ring data size)

theorem XRingClient.Stores.exec_use {size : Nat} {c : XRingClient ι} {q : List Buffer}
    (hstores : c.Stores size q) {use : XRingUse ι} (hlegal : use.Legal) (patience : Nat) :
    ∃ outcome c', use.exec patience c = .ok (outcome, c') ∧ ∃ q', c'.Stores size q' := by
  cases use with
  | plain call => exact hstores.exec_ok hlegal patience
  | spEnqueue3 data n =>
      obtain ⟨published, released, hring⟩ := hstores.ring
      by_cases hroom : q.length + 1 < size
      · obtain ⟨r', bytes, henqueue, hring', _⟩ :=
          hring.enqueue hlegal.1 (XRingEntry.copies_dataCopy hlegal.1 hlegal.2) hroom
        refine ⟨⟨0, none⟩, { c with ring := r' }, ?_, q ++ [bytes], ⟨_, _, hring'⟩, hstores.outs⟩
        rw [XRingUse.exec, xRingSpEnqueue3_ok henqueue]
        rfl
      · refine ⟨⟨0, none⟩, c, ?_, q, hstores⟩
        rw [XRingUse.exec, xRingSpEnqueue3_ok (hring.nospace xRingDataCopy data n hroom)]
        rfl

/-- **The entry points agree** on a ring that any calls have led to, if and only if it is not full. -/
theorem xRing_entries_agree {garbage : Nat → Int} {count : UInt32} {ringbufSize : Int} {r : XRing}
    (hmade : xRingCreate garbage count ringbufSize = .ok r) (hpos : 1 ≤ count.toNat)
    (hle : count.toNat ≤ 2 ^ 31) {patience : Nat} {outs : ι → XRingEntry}
    (houts : ∀ o, (outs o).Fits) {uses : List (XRingUse ι)} (hlegal : ∀ use ∈ uses, use.Legal)
    {outcomes : List XRingOutcome} {c : XRingClient ι}
    (hrun : runCalls (XRingUse.exec patience) ⟨r, outs⟩ uses = .ok (outcomes, c)) {data : Buffer}
    {n : Int} (hn : 0 ≤ n) (hdata : n ≤ data.length) :
    c.ring.EntriesAgree data n ↔ xRingFull c.ring = false := by
  have hinit : ∃ q, XRingClient.Stores (ringSize count) ⟨r, outs⟩ q :=
    ⟨[], ⟨0, 0, stores_of_made hmade hpos hle⟩, houts⟩
  have hstep : ∀ (c : XRingClient ι) (use : XRingUse ι), (∃ q, c.Stores (ringSize count) q) →
      use.Legal → ∃ outcome c', use.exec patience c = .ok (outcome, c') ∧
        ∃ q, c'.Stores (ringSize count) q :=
    fun c use ⟨_, hstores⟩ huse => hstores.exec_use huse patience
  obtain ⟨outcomes', c', hrun', q, hstores⟩ := runCalls_invariant hstep hinit hlegal
  rw [hrun] at hrun'
  cases hrun'
  obtain ⟨published, released, hring⟩ := hstores.ring
  exact hring.entriesAgree_iff hn hdata

/-- A ring of size 2 that one payload has gone into and come out of again. -/
theorem xRing_entries_agree_two : ∃ (outcomes : List XRingOutcome) (c : XRingClient Unit),
    runCalls (XRingUse.exec 0) ⟨ringOfTwo, fun _ => ⟨0, 0, []⟩⟩
        [.spEnqueue3 [some 7] 1, .plain (.scDequeue ())] = .ok (outcomes, c) ∧
      c.ring.EntriesAgree [some 8, some 9] 2 := by
  have houts : ∀ _ : Unit, (⟨0, 0, []⟩ : XRingEntry).Fits := fun _ => by decide
  have hlegal : ∀ use ∈ ([.spEnqueue3 [some 7] 1, .plain (.scDequeue ())] : List (XRingUse Unit)),
      use.Legal := by
    simp [XRingUse.Legal, XRingCall.Legal]
  obtain ⟨outcomes, c, hrun, hroom⟩ : ∃ (outcomes : List XRingOutcome) (c : XRingClient Unit),
      runCalls (XRingUse.exec 0) ⟨ringOfTwo, fun _ => ⟨0, 0, []⟩⟩
        [.spEnqueue3 [some 7] 1, .plain (.scDequeue ())] = .ok (outcomes, c) ∧
      xRingFull c.ring = false := ⟨_, _, rfl, rfl⟩
  exact ⟨outcomes, c, hrun, (xRing_entries_agree xRingCreate_two (by decide) (by decide) houts hlegal
    hrun (by decide) (by decide)).mpr hroom⟩

/-- A ring of size 2 with one payload. -/
def takenOfTwo : XRing :=
  { ringOfTwo with
    prodHead := 1, prodTail := 1
    ring := [⟨4, 1, [some 7, none, none, none]⟩, ⟨4, 0, List.replicate 4 none⟩] }

/-- A second payload finds no room in it: `x_ring_sp_enqueue3` returns 0 and leaves the ring as it was,
the others return -1. -/
theorem xRing_entries_differ :
    runCalls (XRingUse.exec 0) ⟨ringOfTwo, fun _ : Unit => ⟨0, 0, []⟩⟩ [.spEnqueue3 [some 7] 1]
        = .ok ([⟨0, none⟩], ⟨takenOfTwo, fun _ => ⟨0, 0, []⟩⟩) ∧
      xRingSpEnqueue3 takenOfTwo [some 8] 1 = .ok (0, takenOfTwo) ∧
      xRingSpEnqueue takenOfTwo [some 8] 1 = .ok (-1, takenOfTwo) ∧
      xRingSpEnqueue2 xRingDataCopy takenOfTwo [some 8] 1 = .ok (-1, takenOfTwo) ∧
      xRingMpEnqueue 0 takenOfTwo [some 8] 1 = .ok (-1, takenOfTwo) ∧
      ¬takenOfTwo.EntriesAgree [some 8] 1 := by
  refine ⟨rfl, rfl, rfl, rfl, by decide +kernel, fun hagree => ?_⟩
  obtain ⟨ret, r', hrun, _⟩ := hagree 0
  have hsp := hrun .sp
  have hsp3 := hrun .sp3
  cases hsp
  cases hsp3

end Gittest
