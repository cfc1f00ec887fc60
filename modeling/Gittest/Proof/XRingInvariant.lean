import Gittest.Proof.XRingCreate
import Gittest.Proof.XRingSlots
import Mathlib.Logic.Function.Basic
import Mathlib.Tactic.ByCases

/-!
# The invariant of the interleaved ring

The four indices are the numbers of reservations, publications, claims and releases made so far,
modulo the size. Those numbers are ordered, and the first is less than one lap ahead of the last. A
producer between its reservation and its publication owns the slot of one of the reservations not yet
published, and a consumer between its claim and its release owns one of the claims not yet released;
everything in between is held by the slots.

A thread that writes its head index has seen at its own read of the opposite tail that the write is
safe, and the other side can only have made it safer since. A thread that compares and sets it knows
no more than that the index has come back to the value it read. So there the invariant is preserved
only where the compare-and-set is not stale: where the test still holds when it succeeds.
-/

namespace Gittest

/-- The indices of the ring stand at these numbers of reservations, publications, claims and
releases. -/
structure XRing.At (r : XRing) (size reserved published claimed released : Nat) : Prop where
  mask : Mask r.mask size
  length : r.ring.length = size
  prodHead : r.prodHead.toNat = reserved % size
  prodTail : r.prodTail.toNat = published % size
  consHead : r.consHead.toNat = claimed % size
  consTail : r.consTail.toNat = released % size
  released_le : released ≤ claimed
  claimed_le : claimed ≤ published
  published_le : published ≤ reserved
  reserved_lt : reserved < released + size

namespace XRing.At

variable {r : XRing} {size reserved published claimed released : Nat}

theorem next_toNat (hat : r.At size reserved published claimed released) {i : UInt32} {k : Nat}
    (hi : i.toNat = k % size) : ((i + 1) &&& r.mask).toNat = (k + 1) % size :=
  hat.mask.succ_toNat hi

theorem full_iff (hat : r.At size reserved published claimed released) :
    (r.prodHead + 1) &&& r.mask = r.consTail ↔ reserved + 1 = released + size := by
  have hle := hat.released_le.trans (hat.claimed_le.trans hat.published_le)
  have hlt := hat.reserved_lt
  rw [← UInt32.toNat_inj, hat.next_toNat hat.prodHead, hat.consTail,
    ← Nat.add_mod_right released size]
  constructor
  · intro heq
    exact ((Nat.mod_eq_mod_iff_of_lap (by omega) (by omega)).mp heq.symm).symm
  · exact fun heq => by rw [heq]

theorem empty_iff (hat : r.At size reserved published claimed released) :
    r.consHead = r.prodTail ↔ claimed = published := by
  have hreleased := hat.released_le
  have hclaimed := hat.claimed_le
  have hpublished := hat.published_le
  have hlt := hat.reserved_lt
  rw [← UInt32.toNat_inj, hat.consHead, hat.prodTail]
  constructor
  · intro heq
    exact ((Nat.mod_eq_mod_iff_of_lap hclaimed (by omega)).mp heq.symm).symm
  · exact fun heq => by rw [heq]

theorem slot_lt (hat : r.At size reserved published claimed released) (k : Nat) :
    k % size < r.ring.length := by
  rw [hat.length]
  exact Nat.mod_lt k hat.mask.pos

theorem put {i : UInt32} {e : XRingEntry} (hat : r.At size reserved published claimed released) :
    (r.put i e).At size reserved published claimed released :=
  { hat with length := by rw [XRing.put_length, hat.length] }

end XRing.At

section New

variable {garbage : Nat → Int} {count : UInt32} {ringbufSize : Int}

theorem sized_newRing (hsize : 0 ≤ ringbufSize) (size : UInt32) :
    (newRing garbage ringbufSize size).Sized := by
  intro e hmem
  obtain ⟨i, _, rfl⟩ := List.mem_map.mp hmem
  simp only [XRingEntry.Sized, List.length_replicate]
  omega

theorem at_newRing {size : UInt32} (hle : count.toNat ≤ 2 ^ 31)
    (hval : size.toNat = ringSize count) :
    (newRing garbage ringbufSize size).At (ringSize count) 0 0 0 0 where
  mask := mask_newRing hle hval
  length := by rw [newRing, newEntries, List.length_map, List.length_range, hval]
  prodHead := (Nat.zero_mod _).symm
  prodTail := (Nat.zero_mod _).symm
  consHead := (Nat.zero_mod _).symm
  consTail := (Nat.zero_mod _).symm
  released_le := le_rfl
  claimed_le := le_rfl
  published_le := le_rfl
  reserved_lt := by
    rw [Nat.zero_add]
    exact Nat.two_pow_pos _

end New

def ProdPc.slot? : ProdPc → Option UInt32
  | .fill _ _ prodHead _ => some prodHead
  | _ => none

theorem ProdPc.slot?_eq_some {pc : ProdPc} {i : UInt32} (hslot : pc.slot? = some i) :
    ∃ step data prodNext, pc = .fill step data i prodNext := by
  cases pc with
  | fill step data prodHead prodNext =>
      cases hslot
      exact ⟨step, data, prodNext, rfl⟩
  | idle => cases hslot
  | readHead => cases hslot
  | readTail => cases hslot
  | reserve => cases hslot
  | crashed => cases hslot

def ConsPc.Draining (pc : ConsPc) : Prop :=
  ∃ step out consHead consNext, pc = .drain step out consHead consNext

section Facts

variable {C : Type}

/-- How far an enqueue has brought slot `k` when it is about to take a step. -/
def FillOk (size : Nat) (r : XRing) (log : XRingLog C) (data : Buffer) (k : Nat) :
    FillStep → Prop
  | .grow => True
  | .copy => ∃ e, r.ring[k % size]? = some e ∧ data.length ≤ e.data.length
  | .setLength => ∃ e, r.ring[k % size]? = some e ∧ e.data.take data.length = data
  | .awaitTail => r.Holds (k % size) (payloadOf data)
  | .publish => r.Holds (k % size) (payloadOf data) ∧ k = log.published

/-- What a producer knows. -/
def ProdOk (mode : XRingMode) (size : Nat) (r : XRing) (log : XRingLog C) : ProdPc → Prop
  | .idle _ => mode = .single → log.published = log.reserved.length
  | .readHead _ => mode = .single → log.published = log.reserved.length
  | .readTail _ prodHead =>
      mode = .single → log.published = log.reserved.length ∧ prodHead = r.prodHead
  | .reserve _ prodHead prodNext =>
      prodNext = (prodHead + 1) &&& r.mask ∧
      (mode = .single → log.published = log.reserved.length ∧ prodHead = r.prodHead ∧
        log.reserved.length + 1 < log.released + size)
  | .fill step data prodHead prodNext =>
      prodNext = (prodHead + 1) &&& r.mask ∧
      (mode = .single → log.reserved.length = log.published + 1) ∧
      ∃ k, log.published ≤ k ∧ log.reserved[k]? = some (prodHead, data) ∧
        FillOk size r log data k step
  | .crashed _ => False

/-- How far a dequeue has brought the caller's entry when it is about to take a step. -/
def DrainOk (log : XRingLog C) (ticket : Nat) (data : Buffer) (out : XRingEntry) :
    DrainStep → Prop
  | .grow => True
  | .copy => data.length ≤ out.data.length
  | .setLength => out.data.take data.length = data
  | .awaitTail => out.payload = payloadOf data
  | .release => out.payload = payloadOf data ∧ ticket = log.released

/-- What a consumer knows; `ticket` is the number of its last claim. -/
def ConsOk (mode : XRingMode) (size : Nat) (r : XRing) (log : XRingLog C) (ticket : Nat) :
    ConsPc → Prop
  | .idle _ => mode = .single → log.claimed = log.released
  | .readHead out => out.Fits ∧ (mode = .single → log.claimed = log.released)
  | .readTail out consHead =>
      out.Fits ∧ (mode = .single → log.claimed = log.released ∧ consHead = r.consHead)
  | .reserve out consHead consNext =>
      out.Fits ∧ consNext = (consHead + 1) &&& r.mask ∧
      (mode = .single → log.claimed = log.released ∧ consHead = r.consHead ∧
        log.claimed < log.published)
  | .drain step out consHead consNext =>
      out.Fits ∧ consNext = (consHead + 1) &&& r.mask ∧
      (mode = .single → log.claimed = log.released + 1) ∧
      consHead.toNat = ticket % size ∧ log.released ≤ ticket ∧ ticket < log.claimed ∧
      ∃ i data, log.reserved[ticket]? = some (i, data) ∧ DrainOk log ticket data out step
  | .crashed _ => False

/-! What a thread knows survives the steps of the others. -/

variable {size : Nat} {r r' : XRing} {log log' : XRingLog C}

/-- The producers' steps move the consumers' numbers only in their favour. -/
theorem ConsOk.mono {mode : XRingMode} {ticket : Nat} {pc : ConsPc}
    (hok : ConsOk mode size r log ticket pc) (hmask : r'.mask = r.mask)
    (hhead : r'.consHead = r.consHead) (hclaimed : log'.claimed = log.claimed)
    (hreleased : log'.released = log.released) (hpublished : log.published ≤ log'.published)
    (hkeep : ∀ (k : Nat) (entry : UInt32 × Buffer),
      log.reserved[k]? = some entry → log'.reserved[k]? = some entry) :
    ConsOk mode size r' log' ticket pc := by
  cases pc with
  | idle => rwa [ConsOk, hclaimed, hreleased]
  | readHead => rwa [ConsOk, hclaimed, hreleased]
  | readTail => rwa [ConsOk, hclaimed, hreleased, hhead]
  | reserve =>
      rw [ConsOk, hclaimed, hreleased, hhead, hmask]
      refine ⟨hok.1, hok.2.1, fun hmode => ?_⟩
      obtain ⟨heq, hcur, hlt⟩ := hok.2.2 hmode
      exact ⟨heq, hcur, hlt.trans_le hpublished⟩
  | drain step =>
      obtain ⟨hfits, hnext, hone, htoNat, hle, hlt, i, data, hget, hdrain⟩ := hok
      rw [ConsOk, hclaimed, hreleased, hmask]
      refine ⟨hfits, hnext, hone, htoNat, hle, hlt, i, data, hkeep _ _ hget, ?_⟩
      cases step with
      | release => exact ⟨hdrain.1, by rw [hdrain.2, hreleased]⟩
      | grow => trivial
      | copy => exact hdrain
      | setLength => exact hdrain
      | awaitTail => exact hdrain
  | crashed => exact hok

/-- The consumers' steps leave the slots alone and only make room. -/
theorem ProdOk.mono {mode : XRingMode} {pc : ProdPc} (hok : ProdOk mode size r log pc)
    (hmask : r'.mask = r.mask) (hhead : r'.prodHead = r.prodHead) (hring : r'.ring = r.ring)
    (hreserved : log'.reserved = log.reserved) (hpublished : log'.published = log.published)
    (hreleased : log.released ≤ log'.released) : ProdOk mode size r' log' pc := by
  cases pc with
  | idle => rwa [ProdOk, hreserved, hpublished]
  | readHead => rwa [ProdOk, hreserved, hpublished]
  | readTail => rwa [ProdOk, hreserved, hpublished, hhead]
  | reserve =>
      rw [ProdOk, hreserved, hpublished, hhead, hmask]
      refine ⟨hok.1, fun hmode => ?_⟩
      obtain ⟨heq, hcur, hlt⟩ := hok.2 hmode
      exact ⟨heq, hcur, hlt.trans_le (Nat.add_le_add_right hreleased size)⟩
  | fill step data =>
      obtain ⟨hnext, hone, k, hle, hget, hfill⟩ := hok
      rw [ProdOk, hreserved, hpublished, hmask]
      refine ⟨hnext, hone, k, hle, hget, ?_⟩
      cases step with
      | publish => exact ⟨by rw [XRing.Holds, hring]; exact hfill.1, by rw [hfill.2, hpublished]⟩
      | grow => trivial
      | copy => rwa [FillOk, hring]
      | setLength => rwa [FillOk, hring]
      | awaitTail => rwa [FillOk, XRing.Holds, hring]
  | crashed => exact hok

/-- Among several producers, one that is not filling knows nothing that another could spoil. -/
theorem ProdOk.of_fill {mode : XRingMode} {pc : ProdPc} (hok : ProdOk mode size r log pc)
    (hmulti : mode ≠ .single) (hmask : r'.mask = r.mask)
    (hfill : ∀ step data prodHead prodNext k, pc = .fill step data prodHead prodNext →
      log.published ≤ k → log.reserved[k]? = some (prodHead, data) → FillOk size r log data k step →
      log'.published ≤ k ∧ log'.reserved[k]? = some (prodHead, data) ∧
        FillOk size r' log' data k step) :
    ProdOk mode size r' log' pc := by
  cases pc with
  | idle => exact fun hmode => absurd hmode hmulti
  | readHead => exact fun hmode => absurd hmode hmulti
  | readTail => exact fun hmode => absurd hmode hmulti
  | reserve => exact ⟨by rw [hmask]; exact hok.1, fun hmode => absurd hmode hmulti⟩
  | fill step data =>
      obtain ⟨hnext, _, k, hle, hget, hslot⟩ := hok
      obtain ⟨hle', hget', hslot'⟩ := hfill step data _ _ k rfl hle hget hslot
      exact ⟨by rw [hmask]; exact hnext, fun hmode => absurd hmode hmulti, k, hle', hget', hslot'⟩
  | crashed => exact hok

end Facts

variable {P C : Type}

/-- **The invariant.** -/
structure XRingInv (prodMode consMode : XRingMode) (size : Nat) (s : XRingThreads P C) :
    Prop where
  at_log : s.ring.At size s.log.reserved.length s.log.published s.log.claimed s.log.released
  sized : s.ring.Sized
  slots : ∀ k i data, s.log.reserved[k]? = some (i, data) → i.toNat = k % size
  held : ∀ k i data, s.log.released ≤ k → k < s.log.published →
    s.log.reserved[k]? = some (i, data) → s.ring.Holds (k % size) (payloadOf data)
  prods : ∀ p, ProdOk prodMode size s.ring s.log (s.prod p)
  conss : ∀ c, ConsOk consMode size s.ring s.log (s.log.ticket c) (s.cons c)
  prods_apart : ∀ p q i, (s.prod p).slot? = some i → (s.prod q).slot? = some i → p = q
  conss_apart : ∀ c d, (s.cons c).Draining → (s.cons d).Draining →
    s.log.ticket c = s.log.ticket d → c = d
  returned_length : s.log.returned.length = s.log.released
  returned : ∀ (j ticket : Nat) (payload : Payload), s.log.returned[j]? = some (ticket, payload) →
    ticket = j ∧ ∃ i data, s.log.reserved[j]? = some (i, data) ∧ payload = payloadOf data

/-- The condition on steps. A step is not stale: a compare-and-set that succeeds does so in a state in
which the test made before it still holds. -/
def XRingThreads.Fresh (prodMode consMode : XRingMode) (s : XRingThreads P C) :
    XRingAct P C → Prop
  | .prod p => prodMode = .multi → ∀ data prodHead prodNext,
      s.prod p = .reserve data prodHead prodNext → s.ring.prodHead = prodHead →
      prodNext ≠ s.ring.consTail
  | .cons c => consMode = .multi → ∀ out consHead consNext,
      s.cons c = .reserve out consHead consNext → s.ring.consHead = consHead →
      consHead ≠ s.ring.prodTail
  | _ => True

namespace XRingInv

variable {prodMode consMode : XRingMode} {size : Nat} {s : XRingThreads P C}

/-! ### Producers -/

section Producers

variable {p : P} {step : FillStep} {data : Buffer} {prodHead prodNext : UInt32}

theorem exists_fill (hinv : XRingInv prodMode consMode size s)
    (hpc : s.prod p = .fill step data prodHead prodNext) :
    prodNext = (prodHead + 1) &&& s.ring.mask ∧
      (prodMode = .single → s.log.reserved.length = s.log.published + 1) ∧
      ∃ k, s.log.published ≤ k ∧ k < s.log.reserved.length ∧ prodHead.toNat = k % size ∧
        s.log.reserved[k]? = some (prodHead, data) ∧ FillOk size s.ring s.log data k step := by
  have hok := hinv.prods p
  rw [hpc] at hok
  obtain ⟨hnext, hsingle, k, hle, hget, hfill⟩ := hok
  exact ⟨hnext, hsingle, k, hle, (List.getElem?_eq_some_iff.mp hget).1, hinv.slots k _ _ hget,
    hget, hfill⟩

theorem eq_of_slot (hinv : XRingInv prodMode consMode size s) {q : P} {step' : FillStep}
    {data' : Buffer} {prodHead' prodNext' : UInt32}
    (hp : s.prod p = .fill step data prodHead prodNext)
    (hq : s.prod q = .fill step' data' prodHead' prodNext') (heq : prodHead = prodHead') :
    p = q :=
  hinv.prods_apart p q prodHead (by rw [hp]; rfl) (by rw [hq, heq]; rfl)

variable [DecidableEq P]

theorem prods_apart_update (hinv : XRingInv prodMode consMode size s) {pc : ProdPc}
    (hslot : ∀ i, pc.slot? = some i → ∀ q, q ≠ p → (s.prod q).slot? ≠ some i) :
    ∀ q q' i, (Function.update s.prod p pc q).slot? = some i →
      (Function.update s.prod p pc q').slot? = some i → q = q' := by
  intro q q' i hq hq'
  by_cases hqp : q = p
  · subst hqp
    rw [Function.update_self] at hq
    by_contra hne
    rw [Function.update_of_ne (Ne.symm hne)] at hq'
    exact hslot i hq q' (Ne.symm hne) hq'
  · rw [Function.update_of_ne hqp] at hq
    by_cases hqp' : q' = p
    · subst hqp'
      rw [Function.update_self] at hq'
      exact absurd hq (hslot i hq' q hqp)
    · rw [Function.update_of_ne hqp'] at hq'
      exact hinv.prods_apart q q' i hq hq'

theorem prod_local (hinv : XRingInv prodMode consMode size s) {pc : ProdPc}
    (hok : ProdOk prodMode size s.ring s.log pc)
    (hslot : pc.slot? = none ∨ pc.slot? = (s.prod p).slot?) :
    XRingInv prodMode consMode size { s with prod := Function.update s.prod p pc } := by
  refine { hinv with prods := ?_, prods_apart := ?_ }
  · exact (Function.forall_update_iff s.prod _).mpr ⟨hok, fun q _ => hinv.prods q⟩
  · apply prods_apart_update hinv
    intro i hi q hq hqi
    rcases hslot with hnone | hsame
    · rw [hnone] at hi
      cases hi
    · exact hq (hinv.prods_apart q p i hqi (hsame ▸ hi))

theorem reserve (hinv : XRingInv prodMode consMode size s)
    (hsub : prodMode = .single → Subsingleton P)
    (hhead : s.ring.prodHead = prodHead) (hnext : prodNext = (prodHead + 1) &&& s.ring.mask)
    (hroom : s.log.reserved.length + 1 < s.log.released + size)
    (hsingle : prodMode = .single → s.log.published = s.log.reserved.length) :
    XRingInv prodMode consMode size
      { s with
        ring := { s.ring with prodHead := prodNext }
        prod := Function.update s.prod p (.fill .grow data prodHead prodNext)
        log := { s.log with reserved := s.log.reserved ++ [(prodHead, data)] } } := by
  have hat := hinv.at_log
  have hslot : prodHead.toNat = s.log.reserved.length % size := by rw [← hhead, hat.prodHead]
  have hkeep : ∀ (k : Nat) (entry : UInt32 × Buffer), s.log.reserved[k]? = some entry →
      (s.log.reserved ++ [(prodHead, data)])[k]? = some entry := by
    intro k entry hget
    rw [List.getElem?_append_left (List.getElem?_eq_some_iff.mp hget).1, hget]
  constructor
  case at_log =>
    refine { hat with prodHead := ?_, published_le := ?_, reserved_lt := ?_ }
    · rw [List.length_append, List.length_singleton, hnext]
      exact hat.next_toNat hslot
    · rw [List.length_append]
      exact hat.published_le.trans (Nat.le_add_right _ _)
    · rwa [List.length_append]
  case sized => exact hinv.sized
  case slots =>
    intro k i entry hget
    rw [List.getElem?_append] at hget
    split at hget
    · exact hinv.slots k i entry hget
    · rw [List.getElem?_singleton] at hget
      split at hget
      · cases hget
        rw [hslot]
        congr 1
        omega
      · cases hget
  case held =>
    intro k i entry hle hlt hget
    have hold : k < s.log.reserved.length := hlt.trans_le hat.published_le
    rw [List.getElem?_append_left hold] at hget
    exact hinv.held k i entry hle hlt hget
  case prods =>
    refine (Function.forall_update_iff s.prod _).mpr ⟨⟨hnext, ?_, ?_⟩, fun q hq => ?_⟩
    · intro hmode
      rw [List.length_append, List.length_singleton, hsingle hmode]
    · exact ⟨s.log.reserved.length, hat.published_le, List.getElem?_concat_length, trivial⟩
    · have hmulti : prodMode ≠ .single := fun hmode =>
        hq ((hsub hmode).elim q p)
      refine (hinv.prods q).of_fill hmulti rfl fun step data' prodHead' prodNext' k _ hle hget hfill => ?_
      exact ⟨hle, hkeep k _ hget, by cases step <;> exact hfill⟩
  case conss =>
    exact fun c => (hinv.conss c).mono rfl rfl rfl rfl le_rfl hkeep
  case prods_apart =>
    refine prods_apart_update hinv fun i hi q _ hqi => ?_
    obtain ⟨step, data', prodNext', hpc⟩ := ProdPc.slot?_eq_some hqi
    obtain ⟨_, _, k, hle, hlt, htoNat, _⟩ := hinv.exists_fill hpc
    have hreleased := hat.released_le
    have hclaimed := hat.claimed_le
    cases hi
    exact Nat.mod_ne_mod_of_lap hlt (by omega) (htoNat.symm.trans hslot)
  case conss_apart => exact hinv.conss_apart
  case returned_length => exact hinv.returned_length
  case returned =>
    intro j ticket payload hget
    obtain ⟨hticket, i, entry, hget', hpayload⟩ := hinv.returned j ticket payload hget
    exact ⟨hticket, i, entry, hkeep j _ hget', hpayload⟩

theorem write (hinv : XRingInv prodMode consMode size s)
    (hsub : prodMode = .single → Subsingleton P)
    (hpc : s.prod p = .fill step data prodHead prodNext) {step' : FillStep} {e : XRingEntry}
    (hsized : e.Sized)
    (hfill : ∀ k, k % size = prodHead.toNat → k < s.log.reserved.length → s.log.published ≤ k →
      FillOk size (s.ring.put prodHead e) s.log data k step') :
    XRingInv prodMode consMode size
      { s with
        ring := s.ring.put prodHead e
        prod := Function.update s.prod p (.fill step' data prodHead prodNext) } := by
  have hat := hinv.at_log
  have hreleased := hat.released_le
  have hclaimed := hat.claimed_le
  have hreserved := hat.reserved_lt
  obtain ⟨hnext, hone, k, hle, hlt, hslot, hget, _⟩ := hinv.exists_fill hpc
  refine { hinv with
    at_log := hat.put, sized := hinv.sized.put hsized, held := ?_, prods := ?_, conss := ?_
    prods_apart := ?_ }
  · intro j i entry (hj : s.log.released ≤ j) (hjlt : j < s.log.published) hjget
    apply (hinv.held j i entry hj hjlt hjget).put_of_ne
    rw [hslot]
    exact (Nat.mod_ne_mod_of_lap (by omega) (by omega)).symm
  · refine (Function.forall_update_iff s.prod _).mpr
      ⟨⟨hnext, hone, k, hle, hget, hfill k hslot.symm hlt hle⟩, fun q hq => ?_⟩
    have hmulti : prodMode ≠ .single := fun hmode => hq ((hsub hmode).elim q p)
    refine (hinv.prods q).of_fill hmulti rfl
      fun step'' data' prodHead' prodNext' k' hqpc hle' hget' hfill' => ?_
    have hother : prodHead.toNat ≠ k' % size := by
      rw [← hinv.slots k' _ _ hget']
      exact fun heq => hq (hinv.eq_of_slot hqpc hpc (UInt32.toNat_inj.mp heq.symm))
    refine ⟨hle', hget', ?_⟩
    cases step'' with
    | grow => trivial
    | copy => rwa [FillOk, XRing.put_of_ne hother]
    | setLength => rwa [FillOk, XRing.put_of_ne hother]
    | awaitTail => exact hfill'.put_of_ne hother
    | publish => exact ⟨hfill'.1.put_of_ne hother, hfill'.2⟩
  · exact fun c => (hinv.conss c).mono rfl rfl rfl rfl le_rfl fun _ _ hkeep => hkeep
  · apply prods_apart_update hinv
    intro i hi q hq hqi
    refine hq (hinv.prods_apart q p i hqi ?_)
    rw [hpc]
    exact hi

theorem publish (hinv : XRingInv prodMode consMode size s)
    (hsub : prodMode = .single → Subsingleton P)
    (hpc : s.prod p = .fill .publish data prodHead prodNext) (ret : Option Int) :
    XRingInv prodMode consMode size
      { s with
        ring := { s.ring with prodTail := prodNext }
        prod := Function.update s.prod p (.idle ret)
        log := { s.log with published := s.log.published + 1 } } := by
  have hat := hinv.at_log
  obtain ⟨hnext, hone, k, hle, hlt, hslot, hget, hholds, rfl⟩ := hinv.exists_fill hpc
  refine { hinv with
    at_log := ?_, held := ?_, prods := ?_, conss := ?_, prods_apart := ?_ }
  · refine { hat with prodTail := ?_, claimed_le := ?_, published_le := hlt }
    · rw [hnext]
      exact hat.next_toNat hslot
    · exact hat.claimed_le.trans (Nat.le_succ _)
  · intro j i entry hj hjlt hjget
    rcases Nat.lt_succ_iff_lt_or_eq.mp hjlt with hold | rfl
    · exact hinv.held j i entry hj hold hjget
    · rw [hget] at hjget
      cases hjget
      exact hholds
  · refine (Function.forall_update_iff s.prod _).mpr ⟨fun hmode => (hone hmode).symm, fun q hq => ?_⟩
    have hmulti : prodMode ≠ .single := fun hmode => hq ((hsub hmode).elim q p)
    apply (hinv.prods q).of_fill hmulti rfl
    intro step' data' prodHead' prodNext' k' hqpc hle' hget' hfill'
    have hother : k' ≠ s.log.published := by
      rintro rfl
      rw [hget] at hget'
      cases hget'
      exact hq (hinv.eq_of_slot hqpc hpc rfl)
    refine ⟨by change s.log.published + 1 ≤ k'; omega, hget', ?_⟩
    cases step' with
    | publish => exact absurd hfill'.2 hother
    | grow => trivial
    | copy => exact hfill'
    | setLength => exact hfill'
    | awaitTail => exact hfill'
  · exact fun c => (hinv.conss c).mono rfl rfl rfl rfl (Nat.le_succ _) fun _ _ hkeep => hkeep
  · apply prods_apart_update hinv
    intro i hi
    cases hi

end Producers

/-! ### Consumers -/

section Consumers

variable {c : C} {step : DrainStep} {out : XRingEntry} {consHead consNext : UInt32}

theorem exists_drain (hinv : XRingInv prodMode consMode size s)
    (hpc : s.cons c = .drain step out consHead consNext) :
    ∃ i data slot, s.log.reserved[s.log.ticket c]? = some (i, data) ∧
      s.ring.entry consHead = .ok slot ∧ slot.Sized ∧ slot.payload = payloadOf data := by
  have hok := hinv.conss c
  rw [hpc] at hok
  obtain ⟨_, _, _, htoNat, hle, hlt, i, data, hget, _⟩ := hok
  obtain ⟨slot, hslot, hpayload⟩ :=
    hinv.held _ i data hle (hlt.trans_le hinv.at_log.claimed_le) hget
  rw [← htoNat] at hslot
  exact ⟨i, data, slot, hget, XRing.entry_eq hslot, hinv.sized.of_getElem? hslot, hpayload⟩

theorem ticket_bounds (hinv : XRingInv prodMode consMode size s) (hdrain : (s.cons c).Draining) :
    s.log.released ≤ s.log.ticket c ∧ s.log.ticket c < s.log.claimed := by
  obtain ⟨_, _, _, _, hpc⟩ := hdrain
  have hok := hinv.conss c
  rw [hpc] at hok
  obtain ⟨_, _, _, _, hle, hlt, _⟩ := hok
  exact ⟨hle, hlt⟩

/-- Among several consumers, one that is not draining knows nothing that another could spoil. -/
theorem cons_other (hinv : XRingInv prodMode consMode size s) {d : C} {r : XRing} {log : XRingLog C}
    (hmulti : consMode ≠ .single) (hmask : r.mask = s.ring.mask)
    (hreserved : log.reserved = s.log.reserved) (hclaimed : s.log.claimed ≤ log.claimed)
    (hreleased : (s.cons d).Draining → log.released ≤ s.log.ticket d)
    (hrelease : (s.cons d).Draining → s.log.ticket d = s.log.released →
      log.released = s.log.released) :
    ConsOk consMode size r log (s.log.ticket d) (s.cons d) := by
  have hok := hinv.conss d
  cases hpc : s.cons d with
  | idle => exact fun hmode => absurd hmode hmulti
  | readHead => rw [hpc] at hok; exact ⟨hok.1, fun hmode => absurd hmode hmulti⟩
  | readTail => rw [hpc] at hok; exact ⟨hok.1, fun hmode => absurd hmode hmulti⟩
  | reserve =>
      rw [hpc] at hok
      exact ⟨hok.1, by rw [hmask]; exact hok.2.1, fun hmode => absurd hmode hmulti⟩
  | drain step =>
      have hdraining : (s.cons d).Draining := ⟨_, _, _, _, hpc⟩
      rw [hpc] at hok
      obtain ⟨hfits, hnext, _, htoNat, _, hlt, i, data, hget, hdrain⟩ := hok
      rw [ConsOk, hmask, hreserved]
      refine ⟨hfits, hnext, fun hmode => absurd hmode hmulti, htoNat, hreleased hdraining,
        hlt.trans_le hclaimed, i, data, hget, ?_⟩
      cases step with
      | release => exact ⟨hdrain.1, by rw [hdrain.2, hrelease hdraining hdrain.2]⟩
      | grow => trivial
      | copy => exact hdrain
      | setLength => exact hdrain
      | awaitTail => exact hdrain
  | crashed => rw [hpc] at hok; exact hok

variable [DecidableEq C]

theorem conss_apart_update (hinv : XRingInv prodMode consMode size s) {pc : ConsPc}
    {ticket : C → Nat} (hticket : ∀ d, d ≠ c → ticket d = s.log.ticket d)
    (hother : pc.Draining → ∀ d, d ≠ c → (s.cons d).Draining → s.log.ticket d ≠ ticket c) :
    ∀ d d', (Function.update s.cons c pc d).Draining → (Function.update s.cons c pc d').Draining →
      ticket d = ticket d' → d = d' := by
  intro d d' hd hd' heq
  by_cases hdc : d = c
  · subst hdc
    rw [Function.update_self] at hd
    by_contra hne
    rw [Function.update_of_ne (Ne.symm hne)] at hd'
    exact hother hd d' (Ne.symm hne) hd' (by rw [heq, hticket d' (Ne.symm hne)])
  · rw [Function.update_of_ne hdc] at hd
    by_cases hdc' : d' = c
    · subst hdc'
      rw [Function.update_self] at hd'
      exact absurd (by rw [← hticket d hdc, heq]) (hother hd' d hdc hd)
    · rw [Function.update_of_ne hdc'] at hd'
      rw [hticket d hdc, hticket d' hdc'] at heq
      exact hinv.conss_apart d d' hd hd' heq

theorem cons_local (hinv : XRingInv prodMode consMode size s) {pc : ConsPc}
    (hok : ConsOk consMode size s.ring s.log (s.log.ticket c) pc)
    (hdraining : pc.Draining → (s.cons c).Draining) :
    XRingInv prodMode consMode size { s with cons := Function.update s.cons c pc } := by
  refine { hinv with conss := ?_, conss_apart := ?_ }
  · exact (Function.forall_update_iff s.cons
      (fun d pc => ConsOk consMode size s.ring s.log (s.log.ticket d) pc)).mpr
      ⟨hok, fun d _ => hinv.conss d⟩
  · refine conss_apart_update hinv (fun _ _ => rfl) fun hnew d hd hdrain heq => ?_
    exact hd (hinv.conss_apart d c hdrain (hdraining hnew) heq)

theorem claim (hinv : XRingInv prodMode consMode size s)
    (hsub : consMode = .single → Subsingleton C) (hfits : out.Fits)
    (hhead : s.ring.consHead = consHead) (hnext : consNext = (consHead + 1) &&& s.ring.mask)
    (hsome : s.log.claimed < s.log.published)
    (hsingle : consMode = .single → s.log.claimed = s.log.released) :
    XRingInv prodMode consMode size
      { s with
        ring := { s.ring with consHead := consNext }
        cons := Function.update s.cons c (.drain .grow out consHead consNext)
        log := { s.log with
          claimed := s.log.claimed + 1
          ticket := Function.update s.log.ticket c s.log.claimed } } := by
  have hat := hinv.at_log
  have hslot : consHead.toNat = s.log.claimed % size := by rw [← hhead, hat.consHead]
  refine { hinv with at_log := ?_, prods := ?_, conss := ?_, conss_apart := ?_ }
  · refine { hat with consHead := ?_, released_le := ?_, claimed_le := hsome }
    · rw [hnext]
      exact hat.next_toNat hslot
    · exact hat.released_le.trans (Nat.le_succ _)
  · exact fun p => (hinv.prods p).mono rfl rfl rfl rfl rfl le_rfl
  · intro d
    dsimp only
    by_cases hdc : d = c
    · subst hdc
      rw [Function.update_self, Function.update_self]
      have hbound : s.log.claimed < s.log.reserved.length := hsome.trans_le hat.published_le
      exact ⟨hfits, hnext, fun hmode => by rw [hsingle hmode], hslot, hat.released_le,
        Nat.lt_succ_self _, s.log.reserved[s.log.claimed].1, s.log.reserved[s.log.claimed].2,
        List.getElem?_eq_getElem hbound, trivial⟩
    · have hmulti : consMode ≠ .single := fun hmode => hdc ((hsub hmode).elim d c)
      rw [Function.update_of_ne hdc, Function.update_of_ne hdc]
      exact hinv.cons_other hmulti rfl rfl (Nat.le_succ _)
        (fun hdrain => (hinv.ticket_bounds hdrain).1) fun _ _ => rfl
  · refine conss_apart_update hinv (fun d hd => Function.update_of_ne hd _ _) ?_
    intro _ d _ hdrain
    dsimp only
    rw [Function.update_self]
    exact (hinv.ticket_bounds hdrain).2.ne

theorem release (hinv : XRingInv prodMode consMode size s)
    (hsub : consMode = .single → Subsingleton C)
    (hpc : s.cons c = .drain .release out consHead consNext) (ret : Option Int) :
    XRingInv prodMode consMode size
      { s with
        ring := { s.ring with consTail := consNext }
        cons := Function.update s.cons c (.idle ret)
        log := { s.log with
          released := s.log.released + 1
          returned := s.log.returned ++ [(s.log.ticket c, out.payload)] } } := by
  have hat := hinv.at_log
  have hdraining : (s.cons c).Draining := ⟨_, _, _, _, hpc⟩
  have hok := hinv.conss c
  rw [hpc] at hok
  obtain ⟨_, hnext, hone, htoNat, _, hlt, i, data, hget, hpayload, hticket⟩ := hok
  have hother : ∀ d, d ≠ c → (s.cons d).Draining → s.log.ticket d ≠ s.log.released := by
    intro d hd hdrain heq
    exact hd (hinv.conss_apart d c hdrain hdraining (heq.trans hticket.symm))
  refine { hinv with
    at_log := ?_, held := ?_, prods := ?_, conss := ?_, conss_apart := ?_
    returned_length := ?_, returned := ?_ }
  · refine { hat with consTail := ?_, released_le := ?_, reserved_lt := ?_ }
    · rw [hnext, ← hticket]
      exact hat.next_toNat htoNat
    · rw [← hticket]
      exact hlt
    · have hroom := hat.reserved_lt
      dsimp only
      omega
  · intro k j entry hle
    exact hinv.held k j entry (Nat.le_of_succ_le hle)
  · exact fun p => (hinv.prods p).mono rfl rfl rfl rfl rfl (Nat.le_succ _)
  · intro d
    dsimp only
    by_cases hdc : d = c
    · subst hdc
      rw [Function.update_self]
      exact hone
    · have hmulti : consMode ≠ .single := fun hmode => hdc ((hsub hmode).elim d c)
      rw [Function.update_of_ne hdc]
      refine hinv.cons_other hmulti rfl rfl le_rfl (fun hdrain => ?_) fun hdrain heq => ?_
      · exact lt_of_le_of_ne (hinv.ticket_bounds hdrain).1 (hother d hdc hdrain).symm
      · exact absurd heq (hother d hdc hdrain)
  · refine conss_apart_update hinv (fun _ _ => rfl) fun hnew => ?_
    obtain ⟨_, _, _, _, hidle⟩ := hnew
    cases hidle
  · rw [List.length_append, hinv.returned_length]
    rfl
  · intro j ticket payload hgot
    rw [List.getElem?_append] at hgot
    split at hgot
    · exact hinv.returned j ticket payload hgot
    · rename_i hge
      rw [hinv.returned_length] at hge hgot
      rw [List.getElem?_singleton] at hgot
      split at hgot
      · cases hgot
        have hj : j = s.log.released := by omega
        rw [hj, ← hticket]
        exact ⟨rfl, i, data, hget, hpayload⟩
      · cases hgot

end Consumers

end XRingInv

end Gittest
