import Gittest.Lib.Calls
import Gittest.Lib.Outcome
import Gittest.Proof.XRingCalls

/-!
# Bounds on slots and buffers

A ring whose count is between 1 and 2^31 never reaches outside its entries, and no copy reaches
outside a buffer. Of the other counts `x_ring_create` makes a ring of size 0 whose mask has all bits
set; its first enqueue writes to an entry that was not allocated.
-/

namespace Gittest

open Calls Outcome

/-! ### Slots -/

/-- No index into the entries is out of their bounds, in the next call or a later one. -/
structure XRing.Inside (r : XRing) : Prop where
  prodTail : r.prodTail = r.prodHead
  consTail : r.consTail = r.consHead
  prodHead : r.prodHead.toNat < r.ring.length
  consHead : r.consHead.toNat < r.ring.length
  next : ∀ i : UInt32, (i &&& r.mask).toNat < r.ring.length

/-- Any failure but an access outside the entries. -/
def Tame (fault : Fault) : Prop := fault ≠ .outOfBounds

theorem malloc_tame (size : Int) : Meets (fun _ => True) Tame (malloc size) := by
  refine Meets.ite (fun _ => ?_) fun _ => trivial
  exact Fault.noConfusion

theorem memcpy_tame (dst src : Buffer) (n : Int) :
    Meets (fun _ => True) Tame (memcpy dst src n) := by
  refine Meets.ite (fun _ => trivial) fun _ => ?_
  exact Fault.noConfusion

theorem XRingEntry.grow_tame (size : Int) (e : XRingEntry) :
    Meets (fun _ => True) Tame (e.grow size) :=
  Meets.ite (fun _ => (malloc_tame size).bind fun _ _ => trivial) fun _ => trivial

theorem XRingEntry.copyIn_tame (data : Buffer) (size : Int) (e : XRingEntry) :
    Meets (fun _ => True) Tame (e.copyIn data size) :=
  (memcpy_tame e.data data size).bind fun _ _ => trivial

theorem XRingEntry.setContentLength_tame (length : Int) (e : XRingEntry) :
    Meets (fun _ => True) Tame (e.setContentLength length) := trivial

theorem XRingEntry.growOut_tame (slot out : XRingEntry) :
    Meets (fun _ => True) Tame (slot.growOut out) :=
  Meets.ite (fun _ => (malloc_tame slot.size).bind fun _ _ => trivial) fun _ => trivial

theorem XRingEntry.copyOut_tame (slot out : XRingEntry) :
    Meets (fun _ => True) Tame (slot.copyOut out) :=
  (memcpy_tame out.data slot.data slot.contentLength).bind fun _ _ => trivial

variable {r : XRing} {i : UInt32}

theorem XRing.entry_tame (hi : i.toNat < r.ring.length) :
    Meets (fun _ => True) Tame (r.entry i) := by
  obtain ⟨e, _, hentry⟩ := XRing.exists_entry hi
  rw [hentry]
  trivial

theorem XRing.modify_tame {f : XRingEntry → Except Fault XRingEntry} (hi : i.toNat < r.ring.length)
    (hf : ∀ e, Meets (fun _ => True) Tame (f e)) :
    Meets (fun r' => ∃ e, r' = r.put i e) Tame (r.modify i f) :=
  (XRing.entry_tame hi).bind fun e _ => (hf e).bind fun e' _ => ⟨e', rfl⟩

theorem XRing.Inside.spEnqueue (hinside : r.Inside) (data : Buffer) (size : Int) :
    Meets (fun result => result.2.Inside) Tame (xRingSpEnqueue r data size) := by
  refine Meets.ite (fun _ => hinside) fun _ => ?_
  let r₀ : XRing := { r with prodHead := (r.prodHead + 1) &&& r.mask }
  have hslot : r.prodHead.toNat < r₀.ring.length := hinside.prodHead
  apply (XRing.modify_tame hslot (XRingEntry.grow_tame size)).bind
  rintro _ ⟨e₁, rfl⟩
  apply (XRing.modify_tame (by rwa [XRing.put_length]) (XRingEntry.copyIn_tame data size)).bind
  rintro _ ⟨e₂, rfl⟩
  refine (XRing.modify_tame (by rwa [XRing.put_length, XRing.put_length])
    (XRingEntry.setContentLength_tame size)).bind ?_
  rintro _ ⟨e₃, rfl⟩
  have hlength : (((r₀.put r.prodHead e₁).put r.prodHead e₂).put r.prodHead e₃).ring.length
      = r.ring.length := by
    rw [XRing.put_length, XRing.put_length, XRing.put_length]
  constructor
  case prodTail => rfl
  case consTail => exact hinside.consTail
  case prodHead => exact (hinside.next _).trans_eq hlength.symm
  case consHead => exact hinside.consHead.trans_eq hlength.symm
  case next => exact fun i => (hinside.next i).trans_eq hlength.symm

theorem XRing.Inside.scDequeue (hinside : r.Inside) (out : XRingEntry) :
    Meets (fun result => result.2.1.Inside) Tame (xRingScDequeue r out) := by
  refine Meets.ite (fun _ => hinside) fun _ => ?_
  let r₀ : XRing := { r with consHead := (r.consHead + 1) &&& r.mask }
  have hslot : r.consHead.toNat < r₀.ring.length := hinside.consHead
  refine (XRing.entry_tame hslot).bind fun slot₁ _ => ?_
  refine (slot₁.growOut_tame out).bind fun out₁ _ => ?_
  refine (XRing.entry_tame hslot).bind fun slot₂ _ => ?_
  refine (slot₂.copyOut_tame out₁).bind fun out₂ _ => ?_
  refine (XRing.entry_tame hslot).bind fun slot₃ _ => ?_
  exact { hinside with consTail := rfl, consHead := hinside.next _ }

/-- Any call but the one that takes a callback. -/
def XRingCall.Plain {ι : Type} : XRingCall ι → Prop
  | .spEnqueue2 _ _ _ => False
  | _ => True

theorem XRing.Inside.exec {ι : Type} [DecidableEq ι] {c : XRingClient ι}
    (hinside : c.ring.Inside) (patience : Nat) {call : XRingCall ι} (hplain : call.Plain) :
    Meets (fun result => result.2.ring.Inside) Tame (call.exec patience c) := by
  cases call with
  | spEnqueue data size => exact (hinside.spEnqueue data size).bind fun _ h => h
  | spEnqueue2 copy data size => exact hplain.elim
  | mpEnqueue data size =>
      rw [XRingCall.exec, xRingMpEnqueue_eq hinside.prodTail]
      exact (hinside.spEnqueue data size).bind fun _ h => h
  | scDequeue o => exact (hinside.scDequeue (c.outs o)).bind fun _ h => h
  | mcDequeue o =>
      rw [XRingCall.exec, xRingMcDequeue_eq hinside.consTail]
      exact (hinside.scDequeue (c.outs o)).bind fun _ h => h

structure SlotsInside (count : UInt32) (r : XRing) : Prop where
  isPow : ∃ k, r.size.toNat = 2 ^ k
  count_le : count.toNat ≤ r.size.toNat
  pos : 1 ≤ r.size.toNat
  mask : r.mask.toNat = r.size.toNat - 1
  entries : r.ring.length = r.size.toNat
  inside : ∀ (patience : Nat) (outs : Nat → XRingEntry) (calls : List (XRingCall Nat)),
    (∀ call ∈ calls, call.Plain) →
      runCalls (XRingCall.exec patience) ⟨r, outs⟩ calls ≠ .error .outOfBounds

variable {garbage : Nat → Int} {count : UInt32} {ringbufSize : Int}

theorem XRing.At.inside {size published released : Nat}
    (hat : r.At size published published released released) : r.Inside where
  prodTail := UInt32.toNat_inj.mp (hat.prodTail.trans hat.prodHead.symm)
  consTail := UInt32.toNat_inj.mp (hat.consTail.trans hat.consHead.symm)
  prodHead := hat.prodHead ▸ hat.slot_lt published
  consHead := hat.consHead ▸ hat.slot_lt released
  next := fun i => hat.mask.and_toNat i ▸ hat.slot_lt i.toNat

theorem slotsInside_of_range (hmade : xRingCreate garbage count ringbufSize = .ok r)
    (hpos : 1 ≤ count.toNat) (hle : count.toNat ≤ 2 ^ 31) : SlotsInside count r := by
  obtain ⟨_, size, rfl, hval⟩ := made_in_range hmade hpos hle
  have hat : (newRing garbage ringbufSize size).At (ringSize count) 0 0 0 0 := at_newRing hle hval
  have hsize : (newRing garbage ringbufSize size).size.toNat = ringSize count := hval
  constructor
  case isPow => exact ⟨_, hsize⟩
  case count_le =>
    rw [hsize]
    exact (isLeast_ringSize count).1.2
  case pos =>
    rw [hsize]
    exact hat.mask.pos
  case mask => rw [hsize, hat.mask.toNat]
  case entries => rw [hsize, hat.length]
  case inside =>
    intro patience outs calls hplain
    have hstep : ∀ (c : XRingClient Nat) (call : XRingCall Nat), c.ring.Inside → call.Plain →
        Meets (fun result => result.2.ring.Inside) Tame (call.exec patience c) :=
      fun c call hinside hcall => hinside.exec patience hcall
    have hinit : (newRing garbage ringbufSize size).Inside := hat.inside
    exact (runCalls_meets hstep hinit hplain).ne_error fun htame => htame rfl

theorem xRingSpEnqueue_outside (data : Buffer) (size : Int) :
    xRingSpEnqueue (newRing garbage ringbufSize 0) data size = .error .outOfBounds := by
  have hspace : ¬((0 + 1) &&& (0 - 1) : UInt32) = 0 := by decide
  unfold xRingSpEnqueue
  simp only [newRing, hspace, if_false]
  rfl

/-- **Which counts are safe.** -/
theorem slotsInside_iff (hsize : 0 ≤ ringbufSize)
    (hmade : xRingCreate garbage count ringbufSize = .ok r) :
    SlotsInside count r ↔ 1 ≤ count.toNat ∧ count.toNat ≤ 2 ^ 31 := by
  constructor
  · intro hinside
    by_contra hrange
    rw [xRingCreate_of_not_inRange hsize hrange] at hmade
    cases hmade
    exact Nat.not_succ_le_zero 0 hinside.pos
  · exact fun hrange => slotsInside_of_range hmade hrange.1 hrange.2

theorem slotsInside_iff_two :
    SlotsInside 2 ringOfTwo ↔ 1 ≤ (2 : UInt32).toNat ∧ (2 : UInt32).toNat ≤ 2 ^ 31 :=
  slotsInside_iff (by decide) xRingCreate_two

/-- Count 0 and count 2^31 + 1 both make a ring whose first enqueue writes outside it. -/
theorem not_slotsInside : ∃ r, xRingCreate (fun _ => 0) 0 16 = .ok r ∧
    xRingCreate (fun _ => 0) 2147483649 16 = .ok r ∧
    xRingSpEnqueue r [some 1] 1 = .error .outOfBounds ∧ ¬SlotsInside 0 r := by
  refine ⟨newRing (fun _ => 0) 16 0, by decide +kernel, by decide +kernel,
    xRingSpEnqueue_outside _ _, fun hinside => ?_⟩
  exact Nat.not_succ_le_zero 0 hinside.pos

/-! ### Buffers -/

/-- A callback that keeps to its contract: given `size` bytes on either side it fills a buffer of the
same capacity and returns a length of at most `size`. -/
def CopyFn.Bounded (copy : CopyFn) : Prop :=
  ∀ (buf data : Buffer) (size : Int), 0 ≤ size → size ≤ buf.length → size ≤ data.length →
    ∃ buf' length, copy buf data size = .ok (buf', length) ∧ buf'.length = buf.length ∧
      0 ≤ length ∧ length ≤ size

theorem bounded_dataCopy : xRingDataCopy.Bounded := by
  intro buf data size hpos hbuf hdata
  have hcopy := memcpy_ok hpos hbuf hdata
  refine ⟨_, size, ?_, memcpy_length hcopy, hpos, le_rfl⟩
  rw [xRingDataCopy, hcopy]
  rfl

theorem XRingEntry.copies_of_bounded {copy : CopyFn} (hcopy : copy.Bounded) {data : Buffer}
    {size : Int} (hpos : 0 ≤ size) (hdata : size ≤ data.length) :
    XRingEntry.Copies copy data size fun _ => True := by
  intro e hsized hroom
  obtain ⟨buf', length, hcopied, hcapacity, hlength, hle⟩ := hcopy e.data data size hpos hroom hdata
  refine ⟨⟨e.size, length, buf'⟩, buf'.take length.toNat, ?_, ?_, ?_, trivial⟩
  · rw [XRingEntry.copyBy, if_pos ⟨hpos, hroom, hdata⟩, hcopied]
    rfl
  · rw [XRingEntry.Sized] at hsized ⊢
    rw [hsized, hcapacity]
  · rw [XRingEntry.payload, payloadOf, List.length_take]
    dsimp only
    congr 1
    omega

structure XRingClient.BuffersFit {ι : Type} (c : XRingClient ι) : Prop where
  slot_size : ∀ e ∈ c.ring.ring, e.size = e.data.length
  held : ∀ k < (xRingCount c.ring).toNat,
    ∃ e, c.ring.ring[(c.ring.consTail.toNat + k) % c.ring.ring.length]? = some e ∧
      0 ≤ e.contentLength ∧ e.contentLength ≤ e.data.length
  outs : ∀ o, (c.outs o).size ≤ (c.outs o).data.length

section Buffers

variable {ι : Type} {c : XRingClient ι} {size : Nat} {q : List Buffer}

theorem XRingClient.Stores.buffersFit (hstores : c.Stores size q) : c.BuffersFit := by
  obtain ⟨published, released, hring⟩ := hstores.ring
  refine ⟨hring.sized, fun k hk => ?_, hstores.outs⟩
  rw [hring.count_toNat] at hk
  obtain ⟨e, he, hpayload⟩ := hring.held k q[k] (List.getElem?_eq_getElem hk)
  obtain ⟨hpos, hle⟩ := XRingEntry.filled_of_payload hpayload
  refine ⟨e, ?_, hpos, hle⟩
  rw [hring.at_log.length, hring.at_log.consTail, Nat.mod_add_mod, he]

variable [DecidableEq ι]

theorem XRingClient.Stores.exec_enqueue_ok (hstores : c.Stores size q) {copy : CopyFn}
    (hcopy : copy.Bounded) {data : Buffer} {n : Int} (hpos : 0 ≤ n) (hdata : n ≤ data.length)
    (patience : Nat) :
    ∃ outcome c', (XRingCall.spEnqueue2 copy data n).exec patience c = .ok (outcome, c') ∧
      ∃ q', c'.Stores size q' := by
  by_cases hroom : q.length + 1 < size
  · obtain ⟨c', bytes, hexec, hstores', _⟩ :=
      hstores.exec_enqueue hpos (XRingEntry.copies_of_bounded hcopy hpos hdata) hroom patience
    exact ⟨_, c', hexec, _, hstores'⟩
  · exact ⟨_, c, hstores.exec_nospace copy data n hroom patience, q, hstores⟩

theorem XRingClient.Stores.exec_dequeue_ok (hstores : c.Stores size q) (o : ι) (patience : Nat) :
    ∃ outcome c', (XRingCall.scDequeue o).exec patience c = .ok (outcome, c') ∧
      ∃ q', c'.Stores size q' := by
  cases q with
  | nil => exact ⟨_, c, hstores.exec_noent o patience, [], hstores⟩
  | cons bytes q =>
      obtain ⟨c', hexec, hstores'⟩ := hstores.exec_dequeue o patience
      exact ⟨_, c', hexec, q, hstores'⟩

theorem XRingClient.Stores.exec_ok (hstores : c.Stores size q) {call : XRingCall ι}
    (hlegal : call.Legal CopyFn.Bounded) (patience : Nat) :
    ∃ outcome c', call.exec patience c = .ok (outcome, c') ∧ ∃ q', c'.Stores size q' := by
  obtain ⟨published, released, hring⟩ := hstores.ring
  rw [XRingCall.exec_single hring]
  cases call with
  | spEnqueue data n =>
      exact hstores.exec_enqueue_ok bounded_dataCopy hlegal.1 hlegal.2 patience
  | spEnqueue2 copy data n =>
      exact hstores.exec_enqueue_ok hlegal.1 hlegal.2.1 hlegal.2.2 patience
  | mpEnqueue data n =>
      exact hstores.exec_enqueue_ok bounded_dataCopy hlegal.1 hlegal.2 patience
  | scDequeue o => exact hstores.exec_dequeue_ok o patience
  | mcDequeue o => exact hstores.exec_dequeue_ok o patience

end Buffers

/-- **No copy exceeds a buffer.** A copy that did would end the run with a fault. -/
theorem buffers_fit {ι : Type} [DecidableEq ι]
    (hmade : xRingCreate garbage count ringbufSize = .ok r) (hpos : 1 ≤ count.toNat)
    (hle : count.toNat ≤ 2 ^ 31) (patience : Nat) {outs : ι → XRingEntry}
    (houts : ∀ o, (outs o).size ≤ (outs o).data.length) (calls : List (XRingCall ι))
    (hlegal : ∀ call ∈ calls, call.Legal CopyFn.Bounded) :
    ∃ outcomes c, runCalls (XRingCall.exec patience) ⟨r, outs⟩ calls = .ok (outcomes, c) ∧
      c.BuffersFit := by
  have hinit : ∃ q, XRingClient.Stores (ringSize count) ⟨r, outs⟩ q :=
    ⟨[], ⟨0, 0, stores_of_made hmade hpos hle⟩, houts⟩
  have hstep : ∀ (c : XRingClient ι) (call : XRingCall ι), (∃ q, c.Stores (ringSize count) q) →
      call.Legal CopyFn.Bounded → ∃ outcome c', call.exec patience c = .ok (outcome, c') ∧
        ∃ q, c'.Stores (ringSize count) q :=
    fun c call ⟨_, hstores⟩ hcall => hstores.exec_ok hcall patience
  obtain ⟨outcomes, c, hrun, q, hstores⟩ := runCalls_invariant hstep hinit hlegal
  exact ⟨outcomes, c, hrun, hstores.buffersFit⟩

theorem buffers_fit_grown : ∃ outcomes c,
    runCalls (XRingCall.exec 0) ⟨ringOfTwo, fun _ => ⟨0, 0, []⟩⟩
        [.spEnqueue2 xRingDataCopy (List.replicate 9 (some 1)) 9, .scDequeue (),
          .spEnqueue [some 1] 1, .mcDequeue ()] = .ok (outcomes, c) ∧ c.BuffersFit := by
  have houts : ∀ _ : Unit, (⟨0, 0, []⟩ : XRingEntry).Fits := fun _ => by decide
  apply buffers_fit xRingCreate_two (by decide) (by decide) 0 houts _
  simp [XRingCall.Legal, bounded_dataCopy]

end Gittest
