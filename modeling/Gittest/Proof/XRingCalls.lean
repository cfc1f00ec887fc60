import Gittest.Proof.XRingInvariant
import Mathlib.Data.List.Basic

/-!
# One call at a time

Between two calls nothing is in flight: both tails stand where their heads do. There the entry points
for several producers or consumers compute what the ones for a single one do, and what the ring
stores is a list of payloads, from the tail of the consumers to the tail of the producers.
-/

namespace Gittest

variable {r : XRing}

/-! ### The entry points compared -/

@[simp]
theorem awaitTail_self (i : UInt32) (patience : Nat) : awaitTail i i patience = .ok () := by
  cases patience with
  | zero => rw [awaitTail, if_neg (not_not.mpr rfl)]
  | succ patience => rw [awaitTail, if_neg (not_not.mpr rfl)]

theorem mpReserve_eq (r : XRing) (patience : Nat) :
    mpReserve r patience
      = if (r.prodHead + 1) &&& r.mask = r.consTail then .ok none
        else .ok (some (r.prodHead, (r.prodHead + 1) &&& r.mask,
          { r with prodHead := (r.prodHead + 1) &&& r.mask })) := by
  cases patience with
  | zero => rw [mpReserve, atomic32Cmpset, if_pos rfl]
  | succ patience => rw [mpReserve, atomic32Cmpset, if_pos rfl]

theorem mcReserve_eq (r : XRing) (patience : Nat) :
    mcReserve r patience
      = if r.consHead = r.prodTail then .ok none
        else .ok (some (r.consHead, (r.consHead + 1) &&& r.mask,
          { r with consHead := (r.consHead + 1) &&& r.mask })) := by
  cases patience with
  | zero => simp only [mcReserve, atomic32Cmpset, if_true]
  | succ patience => simp only [mcReserve, atomic32Cmpset, if_true]

theorem XRing.modify_eq_ok {r' : XRing} {i : UInt32} {f : XRingEntry → Except Fault XRingEntry}
    (hmodify : r.modify i f = .ok r') : ∃ e, r' = r.put i e := by
  unfold XRing.modify at hmodify
  cases hentry : r.entry i with
  | error fault => rw [hentry] at hmodify; cases hmodify
  | ok e =>
      rw [hentry] at hmodify
      change f e >>= _ = _ at hmodify
      cases hf : f e with
      | error fault => rw [hf] at hmodify; cases hmodify
      | ok e' =>
          rw [hf] at hmodify
          cases hmodify
          exact ⟨e', rfl⟩

/-- With nothing in flight, the producers' compare-and-set succeeds and their wait ends at once. -/
theorem xRingMpEnqueue_eq (hidle : r.prodTail = r.prodHead) (patience : Nat) (data : Buffer)
    (size : Int) : xRingMpEnqueue patience r data size = xRingSpEnqueue r data size := by
  rw [xRingMpEnqueue, xRingSpEnqueue, mpReserve_eq]
  by_cases hfull : (r.prodHead + 1) &&& r.mask = r.consTail
  · rw [if_pos hfull]
    simp only [hfull, if_true]
    rfl
  · simp only [hfull, if_false]
    change (XRing.modify _ _ _ >>= _) = (XRing.modify _ _ _ >>= _)
    cases hgrow : ({ r with prodHead := (r.prodHead + 1) &&& r.mask } : XRing).modify r.prodHead
        (·.grow size) with
    | error fault => rfl
    | ok r₁ =>
        obtain ⟨e₁, rfl⟩ := XRing.modify_eq_ok hgrow
        change (XRing.modify _ _ _ >>= _) = (XRing.modify _ _ _ >>= _)
        cases hcopy : XRing.modify _ r.prodHead (·.copyIn data size) with
        | error fault => rfl
        | ok r₂ =>
            obtain ⟨e₂, rfl⟩ := XRing.modify_eq_ok hcopy
            change (XRing.modify _ _ _ >>= _) = (XRing.modify _ _ _ >>= _)
            cases hlength : XRing.modify _ r.prodHead (·.setContentLength size) with
            | error fault => rfl
            | ok r₃ =>
                obtain ⟨e₃, rfl⟩ := XRing.modify_eq_ok hlength
                change (awaitTail r.prodTail r.prodHead patience >>= _) = _
                rw [hidle, awaitTail_self]
                rfl

/-- With nothing in flight, the consumers' compare-and-set succeeds and their wait ends at once. -/
theorem xRingMcDequeue_eq (hidle : r.consTail = r.consHead) (patience : Nat) (out : XRingEntry) :
    xRingMcDequeue patience r out = xRingScDequeue r out := by
  rw [xRingMcDequeue, xRingScDequeue, mcReserve_eq]
  by_cases hempty : r.consHead = r.prodTail
  · rw [if_pos hempty]
    simp only [hempty, if_true]
    rfl
  · simp only [hempty, if_false]
    change (r.entry r.consHead >>= _) = (r.entry r.consHead >>= _)
    cases hentry : r.entry r.consHead with
    | error fault => rfl
    | ok slot =>
        have hentry' : ∀ i, ({ r with consHead := i } : XRing).entry r.consHead = .ok slot :=
          fun _ => hentry
        change (slot.growOut out >>= _) = (slot.growOut out >>= _)
        cases hgrow : slot.growOut out with
        | error fault => rfl
        | ok out₁ =>
            change (r.entry r.consHead >>= _) = (r.entry r.consHead >>= _)
            rw [hentry]
            change (slot.copyOut out₁ >>= _) = (slot.copyOut out₁ >>= _)
            cases hcopy : slot.copyOut out₁ with
            | error fault => rfl
            | ok out₂ =>
                change (r.entry r.consHead >>= _) = (r.entry r.consHead >>= _)
                rw [hentry]
                change (awaitTail r.consTail r.consHead patience >>= _) = _
                rw [hidle, awaitTail_self]
                rfl

theorem XRing.modify_modify (r : XRing) (i : UInt32) (f g : XRingEntry → Except Fault XRingEntry) :
    (r.modify i f >>= fun r => r.modify i g) = r.modify i fun e => f e >>= g := by
  cases hslot : r.ring[i.toNat]? with
  | none =>
      have hentry : r.entry i = .error .outOfBounds := by rw [XRing.entry, hslot]
      simp only [XRing.modify, hentry]
      rfl
  | some e =>
      have hlt := (List.getElem?_eq_some_iff.mp hslot).1
      cases hf : f e with
      | error fault =>
          have hfg : (f e >>= g) = .error fault := by
            rw [hf]
            rfl
          rw [XRing.modify_error hslot hf, XRing.modify_error hslot hfg]
          rfl
      | ok e₁ =>
          rw [XRing.modify_eq hslot hf]
          change (r.put i e₁).modify i g = _
          have hput : (r.put i e₁).ring[i.toNat]? = some e₁ := XRing.put_self hlt
          cases hg : g e₁ with
          | error fault =>
              have hfg : (f e >>= g) = .error fault := by
                rw [hf]
                exact hg
              rw [XRing.modify_error hput hg, XRing.modify_error hslot hfg]
          | ok e₂ =>
              have hfg : (f e >>= g) = .ok e₂ := by
                rw [hf]
                exact hg
              rw [XRing.modify_eq hput hg, XRing.modify_eq hslot hfg]
              simp only [XRing.put, List.set_set]

theorem XRingEntry.copyBy_dataCopy (e : XRingEntry) (data : Buffer) (size : Int) :
    e.copyBy xRingDataCopy data size = e.copyIn data size >>= (·.setContentLength size) := by
  unfold XRingEntry.copyBy XRingEntry.copyIn
  by_cases hfits : 0 ≤ size ∧ size ≤ e.data.length ∧ size ≤ data.length
  · rw [if_pos hfits, xRingDataCopy, memcpy, if_pos hfits]
    rfl
  · rw [if_neg hfits, memcpy, if_neg hfits]
    rfl

/-- With `x_ring_data_copy` the callback version copies as the other one does. -/
theorem xRingSpEnqueue2_dataCopy (r : XRing) (data : Buffer) (size : Int) :
    xRingSpEnqueue2 xRingDataCopy r data size = xRingSpEnqueue r data size := by
  unfold xRingSpEnqueue2 xRingSpEnqueue
  by_cases hfull : (r.prodHead + 1) &&& r.mask = r.consTail
  · simp only [hfull, if_true]
  · simp only [hfull, if_false]
    congr 1
    funext r₁
    simp only [XRingEntry.copyBy_dataCopy, ← XRing.modify_modify, bind_assoc]

theorem xRingMpEnqueue_nospace (hfull : (r.prodHead + 1) &&& r.mask = r.consTail) (patience : Nat)
    (data : Buffer) (size : Int) :
    xRingMpEnqueue patience r data size = .ok (-XRingRet.nospace.code, r) := by
  rw [xRingMpEnqueue, mpReserve_eq, if_pos hfull]
  rfl

/-! ### The byte strings a ring stores -/

/-- The ring stores these byte strings, the oldest first: the last of them is the publication before
number `published`, the first is number `released`. -/
structure XRing.Stores (r : XRing) (size published released : Nat) (q : List Buffer) : Prop where
  at_log : r.At size published published released released
  sized : r.Sized
  length : published = released + q.length
  held : ∀ j bytes, q[j]? = some bytes → r.Holds ((released + j) % size) (payloadOf bytes)

/-- What the callback of an enqueue does to a slot that is large enough. -/
def XRingEntry.Copies (copy : CopyFn) (data : Buffer) (size : Int) (result : Buffer → Prop) : Prop :=
  ∀ e : XRingEntry, e.Sized → size ≤ e.data.length →
    ∃ e' bytes, e.copyBy copy data size = .ok e' ∧ e'.Sized ∧ e'.payload = payloadOf bytes ∧
      result bytes

theorem XRingEntry.copies_dataCopy {data : Buffer} {size : Int} (hpos : 0 ≤ size)
    (hdata : size ≤ data.length) :
    XRingEntry.Copies xRingDataCopy data size fun bytes => bytes = data.take size.toNat := by
  intro e hsized hroom
  obtain ⟨e', hcopy, hsized', _, htake⟩ := XRingEntry.copyIn_spec hsized hpos hroom hdata
  refine ⟨{ e' with contentLength := size }, data.take size.toNat, ?_, hsized', ?_, rfl⟩
  · rw [XRingEntry.copyBy_dataCopy, hcopy]
    rfl
  · rw [XRingEntry.payload, payloadOf, htake, List.length_take]
    congr 1
    dsimp only
    omega

namespace XRing.Stores

variable {size published released : Nat} {q : List Buffer}

theorem length_lt (hstores : r.Stores size published released q) : q.length < size := by
  have hlength := hstores.length
  have hlt := hstores.at_log.reserved_lt
  omega

theorem full_iff (hstores : r.Stores size published released q) :
    (r.prodHead + 1) &&& r.mask = r.consTail ↔ q.length + 1 = size := by
  have hlength := hstores.length
  rw [hstores.at_log.full_iff]
  omega

theorem empty_iff (hstores : r.Stores size published released q) :
    r.consHead = r.prodTail ↔ q = [] := by
  have hlength := hstores.length
  rw [hstores.at_log.empty_iff, ← List.length_eq_zero_iff]
  omega

theorem tails (hstores : r.Stores size published released q) :
    r.prodTail = r.prodHead ∧ r.consTail = r.consHead :=
  ⟨UInt32.toNat_inj.mp (hstores.at_log.prodTail.trans hstores.at_log.prodHead.symm),
    UInt32.toNat_inj.mp (hstores.at_log.consTail.trans hstores.at_log.consHead.symm)⟩

/-- With room the slot reserved is one of the ring's, and is made large enough. -/
theorem grow_slot (hstores : r.Stores size published released q) (hroom : q.length + 1 < size)
    {n : Int} (hpos : 0 ≤ n) :
    ¬((r.prodHead + 1) &&& r.mask = r.consTail) ∧ r.prodHead.toNat < r.ring.length ∧
      ∃ e : XRingEntry, e.Sized ∧ n ≤ e.data.length ∧
        ({ r with prodHead := (r.prodHead + 1) &&& r.mask } : XRing).modify r.prodHead (·.grow n)
          = .ok (({ r with prodHead := (r.prodHead + 1) &&& r.mask } : XRing).put r.prodHead e) := by
  have hspace : ¬((r.prodHead + 1) &&& r.mask = r.consTail) := by
    rw [hstores.full_iff]
    omega
  have hlt : r.prodHead.toNat < r.ring.length :=
    hstores.at_log.prodHead ▸ hstores.at_log.slot_lt published
  obtain ⟨e, he, _⟩ := XRing.exists_entry hlt
  obtain ⟨e', hgrow, hsized, hfits⟩ := XRingEntry.grow_spec (hstores.sized.of_getElem? he) hpos
  exact ⟨hspace, hlt, e', hsized, hfits, XRing.modify_eq he hgrow⟩

theorem enqueue (hstores : r.Stores size published released q) {copy : CopyFn} {data : Buffer}
    {n : Int} {result : Buffer → Prop} (hpos : 0 ≤ n)
    (hcopies : XRingEntry.Copies copy data n result) (hroom : q.length + 1 < size) :
    ∃ r' bytes, xRingSpEnqueue2 copy r data n = .ok (XRingRet.success.code, r') ∧
      r'.Stores size (published + 1) released (q ++ [bytes]) ∧ result bytes := by
  have hat := hstores.at_log
  have hlength := hstores.length
  obtain ⟨hspace, hlt, e₁, hsized₁, hroom₁, hput₁⟩ := hstores.grow_slot hroom hpos
  obtain ⟨e₂, bytes, hcopy, hsized₂, hpayload, hresult⟩ := hcopies e₁ hsized₁ hroom₁
  let r₀ : XRing := { r with prodHead := (r.prodHead + 1) &&& r.mask }
  have hput₂ : (r₀.put r.prodHead e₁).modify r.prodHead (·.copyBy copy data n)
      = .ok ((r₀.put r.prodHead e₁).put r.prodHead e₂) :=
    XRing.modify_eq (XRing.put_self hlt) hcopy
  refine ⟨{ (r₀.put r.prodHead e₁).put r.prodHead e₂ with
    prodTail := (r.prodHead + 1) &&& r.mask }, bytes, ?_, ?_, hresult⟩
  · unfold xRingSpEnqueue2
    simp only [hspace, if_false]
    change (r₀.modify r.prodHead _ >>= _) = _
    rw [hput₁]
    change (XRing.modify (r₀.put r.prodHead e₁) r.prodHead _ >>= _) = _
    rw [hput₂]
    rfl
  · constructor
    case at_log =>
      refine { hat.put.put with
        prodHead := ?_, prodTail := ?_, claimed_le := ?_, published_le := le_rfl
        reserved_lt := ?_ }
      · exact hat.next_toNat hat.prodHead
      · exact hat.next_toNat hat.prodHead
      · exact hat.claimed_le.trans (Nat.le_succ _)
      · omega
    case sized => exact (hstores.sized.put hsized₁).put hsized₂
    case length =>
      rw [List.length_append, List.length_singleton]
      omega
    case held =>
      intro j bytes' hget
      rw [List.getElem?_append] at hget
      split at hget
      · rename_i hj
        have hother : r.prodHead.toNat ≠ (released + j) % size := by
          rw [hat.prodHead]
          exact (Nat.mod_ne_mod_of_lap (by omega) (by omega)).symm
        exact ((hstores.held j bytes' hget).put_of_ne hother).put_of_ne hother
      · rw [List.getElem?_singleton] at hget
        split at hget
        · cases hget
          have hslot : (released + j) % size = r.prodHead.toNat := by
            rw [hat.prodHead]
            congr 1
            omega
          rw [hslot]
          exact XRing.holds_put (by rwa [XRing.put_length]) hpayload
        · cases hget

theorem nospace (hstores : r.Stores size published released q) (copy : CopyFn) (data : Buffer)
    (n : Int) (hfull : ¬q.length + 1 < size) :
    xRingSpEnqueue2 copy r data n = .ok (-XRingRet.nospace.code, r) := by
  have hlt := hstores.length_lt
  have hnone : (r.prodHead + 1) &&& r.mask = r.consTail := hstores.full_iff.mpr (by omega)
  unfold xRingSpEnqueue2
  simp only [hnone, if_true]
  rfl

theorem dequeue {bytes : Buffer} (hstores : r.Stores size published released (bytes :: q))
    {out : XRingEntry} (hfits : out.Fits) :
    ∃ r' out', xRingScDequeue r out = .ok (XRingRet.success.code, r', out') ∧
      r'.Stores size published (released + 1) q ∧ out'.Fits ∧ out'.payload = payloadOf bytes := by
  have hat := hstores.at_log
  have hlength : published = released + (q.length + 1) := hstores.length
  have hsome : ¬(r.consHead = r.prodTail) := by
    rw [hstores.empty_iff]
    exact List.cons_ne_nil _ _
  obtain ⟨slot, hslot, hpayload⟩ := hstores.held 0 bytes rfl
  rw [Nat.add_zero, ← hat.consHead] at hslot
  have hentry : ∀ i, ({ r with consHead := i } : XRing).entry r.consHead = .ok slot :=
    fun _ => XRing.entry_eq hslot
  have hfilled := XRingEntry.filled_of_payload hpayload
  obtain ⟨out₁, hgrow, hfits₁, hroom⟩ :=
    XRingEntry.growOut_spec (hstores.sized.of_getElem? hslot) hfilled hfits
  obtain ⟨out₂, hcopy, hfits₂, htake⟩ := XRingEntry.copyOut_spec hfilled hfits₁ hroom
  refine ⟨{ r with
      consHead := (r.consHead + 1) &&& r.mask, consTail := (r.consHead + 1) &&& r.mask },
    { out₂ with contentLength := slot.contentLength }, ?_, ?_, hfits₂, ?_⟩
  · unfold xRingScDequeue
    simp only [hsome, if_false, hentry]
    change (slot.growOut out >>= _) = _
    rw [hgrow]
    change (slot.copyOut out₁ >>= _) = _
    rw [hcopy]
    rfl
  · constructor
    case at_log =>
      refine { hat with
        consHead := ?_, consTail := ?_, released_le := le_rfl, claimed_le := ?_, reserved_lt := ?_ }
      · exact hat.next_toNat hat.consHead
      · exact hat.next_toNat hat.consHead
      · omega
      · have hlt := hat.reserved_lt
        omega
    case sized => exact hstores.sized
    case length => omega
    case held =>
      intro j bytes' hget
      have hnext := hstores.held (j + 1) bytes' hget
      rwa [← Nat.add_assoc, Nat.add_right_comm] at hnext
  · rw [XRingEntry.setOutLength_payload htake, hpayload]

theorem noent (hstores : r.Stores size published released []) (out : XRingEntry) :
    xRingScDequeue r out = .ok (-XRingRet.noent.code, r, out) := by
  have hnone : r.consHead = r.prodTail := hstores.empty_iff.mpr rfl
  unfold xRingScDequeue
  simp only [hnone, if_true]
  rfl

/-- What a ring stores is all there in its slots, so it stores one list of byte strings only. -/
theorem unique (hstores : r.Stores size published released q) {q' : List Buffer}
    (hstores' : r.Stores size published released q') : q = q' := by
  have hlength : q.length = q'.length := by
    have h := hstores.length
    have h' := hstores'.length
    omega
  apply List.ext_getElem hlength
  intro j hj hj'
  obtain ⟨e, hget, hpayload⟩ := hstores.held j q[j] (List.getElem?_eq_getElem hj)
  obtain ⟨e', hget', hpayload'⟩ := hstores'.held j q'[j] (List.getElem?_eq_getElem hj')
  have hsame : e = e' := Option.some.inj (hget.symm.trans hget')
  subst hsame
  exact payloadOf_injective (hpayload.symm.trans hpayload')

theorem mpEnqueue (hstores : r.Stores size published released q) (hroom : q.length + 1 < size)
    {data : Buffer} {n : Int} (hpos : 0 ≤ n) (hdata : n ≤ data.length) (patience : Nat) :
    ∃ r', xRingMpEnqueue patience r data n = .ok (XRingRet.success.code, r') ∧
      r'.Stores size (published + 1) released (q ++ [data.take n.toNat]) := by
  rw [xRingMpEnqueue_eq hstores.tails.1, ← xRingSpEnqueue2_dataCopy]
  obtain ⟨r', bytes, henqueue, hstores', rfl⟩ :=
    hstores.enqueue hpos (XRingEntry.copies_dataCopy hpos hdata) hroom
  exact ⟨r', henqueue, hstores'⟩

/-- Told of more bytes than there are, an enqueue makes the slot large enough for them and then reads
past the data. -/
theorem mpEnqueue_overrun (hstores : r.Stores size published released q)
    (hroom : q.length + 1 < size) {data : Buffer} {n : Int} (hdata : data.length < n)
    (patience : Nat) : xRingMpEnqueue patience r data n = .error .overrun := by
  obtain ⟨hspace, hlt, e', _, _, hput⟩ := hstores.grow_slot hroom (show 0 ≤ n by omega)
  have hcopy : e'.copyIn data n = .error .overrun := by
    rw [XRingEntry.copyIn, memcpy, if_neg (by omega)]
    rfl
  let r₀ : XRing := { r with prodHead := (r.prodHead + 1) &&& r.mask }
  have hfault : (r₀.put r.prodHead e').modify r.prodHead (·.copyIn data n) = .error .overrun :=
    XRing.modify_error (XRing.put_self hlt) hcopy
  rw [xRingMpEnqueue_eq hstores.tails.1, xRingSpEnqueue]
  simp only [hspace, if_false]
  change (r₀.modify r.prodHead _ >>= _) = _
  rw [hput]
  change (XRing.modify (r₀.put r.prodHead e') r.prodHead _ >>= _) = _
  rw [hfault]
  rfl

/-! The observers. -/

theorem count_toNat (hstores : r.Stores size published released q) :
    (xRingCount r).toNat = q.length := by
  have hat := hstores.at_log
  have hlength := hstores.length
  have hlt := hstores.length_lt
  rw [xRingCount, hat.mask.sub_toNat hat.prodTail hat.consTail (by omega) (by omega)]
  omega

theorem freeCount_toNat (hstores : r.Stores size published released q) :
    (xRingFreeCount r).toNat = size - 1 - q.length := by
  have hat := hstores.at_log
  have hlength := hstores.length
  have hlt := hstores.length_lt
  rw [xRingFreeCount, hat.mask.room_toNat hat.prodTail hat.consTail (by omega) (by omega)]
  omega

theorem isEmpty_iff (hstores : r.Stores size published released q) :
    xRingEmpty r = true ↔ q.length = 0 := by
  obtain ⟨_, hhead⟩ := hstores.tails
  rw [xRingEmpty, beq_iff_eq, hhead, hstores.empty_iff, List.length_eq_zero_iff]

theorem isFull_iff (hstores : r.Stores size published released q) :
    xRingFull r = true ↔ q.length = size - 1 := by
  have hfree := hstores.freeCount_toNat
  have hlt := hstores.length_lt
  rw [xRingFull, beq_iff_eq, ← UInt32.toNat_inj]
  change (xRingFreeCount r).toNat = 0 ↔ _
  omega

end XRing.Stores

theorem stores_of_made {garbage : Nat → Int} {count : UInt32} {ringbufSize : Int}
    (hmade : xRingCreate garbage count ringbufSize = .ok r) (hpos : 1 ≤ count.toNat)
    (hle : count.toNat ≤ 2 ^ 31) : r.Stores (ringSize count) 0 0 [] := by
  obtain ⟨hsize, size, rfl, hval⟩ := made_in_range hmade hpos hle
  constructor
  case at_log => exact at_newRing hle hval
  case sized => exact sized_newRing hsize size
  case length => rfl
  case held =>
    intro j bytes hget
    cases hget

/-! ### Clients -/

variable {ι : Type}

/-- A call as the entry point for a single producer or consumer would have it. -/
def XRingCall.single : XRingCall ι → XRingCall ι
  | .spEnqueue data size => .spEnqueue2 xRingDataCopy data size
  | .spEnqueue2 copy data size => .spEnqueue2 copy data size
  | .mpEnqueue data size => .spEnqueue2 xRingDataCopy data size
  | .scDequeue o => .scDequeue o
  | .mcDequeue o => .scDequeue o

/-- What a caller has to see to: sizes within the data, and a callback of which `copyOk` holds. -/
def XRingCall.Legal (copyOk : CopyFn → Prop) : XRingCall ι → Prop
  | .spEnqueue data size => 0 ≤ size ∧ size ≤ data.length
  | .spEnqueue2 copy data size => copyOk copy ∧ 0 ≤ size ∧ size ≤ data.length
  | .mpEnqueue data size => 0 ≤ size ∧ size ≤ data.length
  | .scDequeue _ => True
  | .mcDequeue _ => True

variable [DecidableEq ι]

theorem XRingCall.exec_single {c : XRingClient ι} {size published released : Nat} {q : List Buffer}
    (hstores : c.ring.Stores size published released q) (patience : Nat) (call : XRingCall ι) :
    call.exec patience c = call.single.exec patience c := by
  obtain ⟨hprod, hcons⟩ := hstores.tails
  cases call with
  | spEnqueue data n => rw [single, exec, exec, xRingSpEnqueue2_dataCopy]
  | spEnqueue2 copy data n => rfl
  | mpEnqueue data n => rw [single, exec, exec, xRingMpEnqueue_eq hprod, xRingSpEnqueue2_dataCopy]
  | scDequeue o => rfl
  | mcDequeue o => rw [single, exec, exec, xRingMcDequeue_eq hcons]

/-- The ring of the client stores `q`, and its entries have their buffers. -/
structure XRingClient.Stores (size : Nat) (c : XRingClient ι) (q : List Buffer) : Prop where
  ring : ∃ published released, c.ring.Stores size published released q
  outs : ∀ o, (c.outs o).Fits

namespace XRingClient.Stores

variable {size : Nat} {c : XRingClient ι} {q : List Buffer}

theorem exec_enqueue (hstores : c.Stores size q) {copy : CopyFn} {data : Buffer} {n : Int}
    {result : Buffer → Prop} (hpos : 0 ≤ n) (hcopies : XRingEntry.Copies copy data n result)
    (hroom : q.length + 1 < size) (patience : Nat) :
    ∃ c' bytes, (XRingCall.spEnqueue2 copy data n).exec patience c
        = .ok (⟨XRingRet.success.code, none⟩, c') ∧
      c'.Stores size (q ++ [bytes]) ∧ result bytes := by
  obtain ⟨published, released, hring⟩ := hstores.ring
  obtain ⟨r', bytes, henqueue, hring', hresult⟩ := hring.enqueue hpos hcopies hroom
  refine ⟨{ c with ring := r' }, bytes, ?_, ⟨⟨_, _, hring'⟩, hstores.outs⟩, hresult⟩
  rw [XRingCall.exec, henqueue]
  rfl

theorem exec_nospace (hstores : c.Stores size q) (copy : CopyFn) (data : Buffer) (n : Int)
    (hfull : ¬q.length + 1 < size) (patience : Nat) :
    (XRingCall.spEnqueue2 copy data n).exec patience c
      = .ok (⟨-XRingRet.nospace.code, none⟩, c) := by
  obtain ⟨published, released, hring⟩ := hstores.ring
  rw [XRingCall.exec, hring.nospace copy data n hfull]
  rfl

theorem exec_dequeue {bytes : Buffer} (hstores : c.Stores size (bytes :: q)) (o : ι)
    (patience : Nat) :
    ∃ c', (XRingCall.scDequeue o).exec patience c
        = .ok (⟨XRingRet.success.code, some (payloadOf bytes)⟩, c') ∧ c'.Stores size q := by
  obtain ⟨published, released, hring⟩ := hstores.ring
  obtain ⟨r', out', hdequeue, hring', hfits, hpayload⟩ := hring.dequeue (hstores.outs o)
  refine ⟨{ ring := r', outs := Function.update c.outs o out' }, ?_, ⟨⟨_, _, hring'⟩, ?_⟩⟩
  · rw [XRingCall.exec, hdequeue, ← hpayload]
    rfl
  · exact (Function.forall_update_iff c.outs fun _ out => out.Fits).mpr
      ⟨hfits, fun o' _ => hstores.outs o'⟩

theorem exec_noent (hstores : c.Stores size []) (o : ι) (patience : Nat) :
    (XRingCall.scDequeue o).exec patience c = .ok (⟨-XRingRet.noent.code, none⟩, c) := by
  obtain ⟨published, released, hring⟩ := hstores.ring
  rw [XRingCall.exec, hring.noent (c.outs o)]
  change Except.ok (XRingOutcome.mk _ none, XRingClient.mk c.ring
    (Function.update c.outs o (c.outs o))) = _
  rw [Function.update_eq_self]

end XRingClient.Stores

end Gittest
