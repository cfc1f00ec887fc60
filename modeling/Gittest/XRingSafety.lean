import Gittest.Proof.XRingCreate
import Gittest.Proof.XRingHistory
import Mathlib.Data.List.Nodup

/-!
# Safety of the interleaved ring

One producer and one consumer are safe under every interleaving. Several producers, or several
consumers, are safe in exactly the runs in which no compare-and-set is stale. The indices run modulo
the size and not freely, as the comment on `x_ring_t` has it, so a thread that is delayed between its
test and its compare-and-set while the ring makes a full lap finds its index unchanged.
-/

namespace Gittest

open Transition

variable {garbage : Nat → Int} {count : UInt32} {ringbufSize : Int} {r : XRing}

theorem xRingInv_start {P C : Type} (prodMode consMode : XRingMode)
    (hmade : xRingCreate garbage count ringbufSize = .ok r)
    (hpos : 1 ≤ count.toNat) (hle : count.toNat ≤ 2 ^ 31) :
    XRingInv prodMode consMode r.size.toNat (XRingThreads.start r : XRingThreads P C) := by
  obtain ⟨hsize, size, rfl, hval⟩ := made_in_range hmade hpos hle
  have hat : (newRing garbage ringbufSize size).At (ringSize count) 0 0 0 0 := at_newRing hle hval
  rw [← hval] at hat
  constructor
  case at_log => exact hat
  case sized => exact sized_newRing hsize size
  case slots =>
    intro k i data hget
    cases hget
  case held =>
    intro k i data _ hlt
    exact absurd hlt (Nat.not_lt_zero k)
  case prods => exact fun _ _ => rfl
  case conss => exact fun _ _ => rfl
  case prods_apart =>
    intro p q i hp
    cases hp
  case conss_apart =>
    rintro c d ⟨_, _, _, _, hpc⟩
    cases hpc
  case returned_length => rfl
  case returned =>
    intro j ticket payload hget
    cases hget

/-! ### What the invariant says of the log -/

theorem XRingLog.accepted_prefix_reserved {C : Type} (log : XRingLog C) :
    log.accepted <+: log.reserved.map fun entry => payloadOf entry.2 :=
  (List.take_prefix _ _).map _

section Log

variable {P C : Type} {prodMode consMode : XRingMode} {size : Nat} {s : XRingThreads P C}

theorem XRingInv.delivered_getElem? (hinv : XRingInv prodMode consMode size s) {j : Nat}
    (hj : j < s.log.released) :
    s.log.delivered[j]? = (s.log.reserved[j]?).map fun entry => payloadOf entry.2 := by
  have hlt : j < s.log.returned.length := by rwa [hinv.returned_length]
  have hget : s.log.returned[j]? = some (s.log.returned[j].1, s.log.returned[j].2) :=
    List.getElem?_eq_getElem hlt
  obtain ⟨_, i, data, hreserved, hpayload⟩ := hinv.returned j _ _ hget
  rw [XRingLog.delivered, List.getElem?_map, hget, hreserved]
  exact congrArg some hpayload

theorem XRingInv.delivered_eq (hinv : XRingInv prodMode consMode size s) :
    s.log.delivered
      = (s.log.reserved.take s.log.released).map fun entry => payloadOf entry.2 := by
  apply List.ext_getElem?
  intro j
  rw [List.getElem?_map, List.getElem?_take]
  split
  · rename_i hj
    exact hinv.delivered_getElem? hj
  · rename_i hj
    rw [List.getElem?_eq_none_iff.mpr]
    · rfl
    · rw [XRingLog.delivered, List.length_map, hinv.returned_length]
      omega

theorem XRingInv.delivered_prefix_accepted (hinv : XRingInv prodMode consMode size s) :
    s.log.delivered <+: s.log.accepted := by
  rw [hinv.delivered_eq, XRingLog.accepted]
  exact (List.take_prefix_take_left
    (hinv.at_log.released_le.trans hinv.at_log.claimed_le)).map _

/-- The reservations come back in the order in which they were made. -/
theorem XRingInv.tickets_eq (hinv : XRingInv prodMode consMode size s) :
    s.log.returned.map Prod.fst = List.range s.log.released := by
  apply List.ext_getElem
  · rw [List.length_map, List.length_range, hinv.returned_length]
  · intro j hj _
    rw [List.length_map] at hj
    rw [List.getElem_map, List.getElem_range]
    exact (hinv.returned j _ _ (List.getElem?_eq_getElem hj)).1

theorem XRingInv.outstanding_nodup (hinv : XRingInv prodMode consMode size s) :
    (s.log.outstanding.map Prod.fst).Nodup := by
  have hroom := hinv.at_log.reserved_lt
  rw [List.nodup_iff_getElem?_ne_getElem?]
  intro i j hij hj heq
  rw [XRingLog.outstanding, List.length_map, List.length_drop] at hj
  have hget : ∀ n, n < s.log.reserved.length - s.log.released →
      ∃ slot data, s.log.reserved[s.log.released + n]? = some (slot, data) ∧
        (s.log.outstanding.map Prod.fst)[n]? = some slot := by
    intro n hn
    have hlt : s.log.released + n < s.log.reserved.length := by omega
    refine ⟨_, _, List.getElem?_eq_getElem hlt, ?_⟩
    rw [List.getElem?_map, XRingLog.outstanding, List.getElem?_drop, List.getElem?_eq_getElem hlt]
    rfl
  obtain ⟨slot, data, hreserved, hslot⟩ := hget i (by omega)
  obtain ⟨slot', data', hreserved', hslot'⟩ := hget j hj
  rw [hslot, hslot'] at heq
  cases heq
  have hi := hinv.slots _ _ _ hreserved
  have hj' := hinv.slots _ _ _ hreserved'
  exact Nat.mod_ne_mod_of_lap (show s.log.released + i < s.log.released + j by omega) (by omega)
    (hi.symm.trans hj')

theorem XRingInv.outstanding_length (hinv : XRingInv prodMode consMode size s) :
    s.log.outstanding.length ≤ size - 1 := by
  have hroom := hinv.at_log.reserved_lt
  rw [XRingLog.outstanding, List.length_drop]
  omega

/-- What is published and not released lies in its slot as it was enqueued. -/
theorem XRingInv.held_slot (hinv : XRingInv prodMode consMode size s) {k : Nat} {i : UInt32}
    {data : Buffer} (hle : s.log.released ≤ k) (hlt : k < s.log.published)
    (hget : s.log.reserved[k]? = some (i, data)) : s.ring.Holds i.toNat (payloadOf data) := by
  rw [hinv.slots k i data hget]
  exact hinv.held k i data hle hlt hget

theorem XRingInv.fill_ne_drain (hinv : XRingInv prodMode consMode size s) {p : P} {c : C}
    {fillStep : FillStep} {data : Buffer} {prodHead prodNext : UInt32} {drainStep : DrainStep}
    {out : XRingEntry} {consHead consNext : UInt32}
    (hprod : s.prod p = .fill fillStep data prodHead prodNext)
    (hcons : s.cons c = .drain drainStep out consHead consNext) : prodHead ≠ consHead := by
  intro heq
  obtain ⟨_, _, k, hle, hlt, hslot, _⟩ := hinv.exists_fill hprod
  have hok := hinv.conss c
  rw [hcons] at hok
  obtain ⟨_, _, _, hslot', hreleased, hclaimed, _⟩ := hok
  have hat := hinv.at_log
  have hpublished := hat.claimed_le
  have hreserved := hat.reserved_lt
  have hmod : s.log.ticket c % size = k % size := by rw [← hslot', ← hslot, heq]
  exact Nat.mod_ne_mod_of_lap (show s.log.ticket c < k by omega) (by omega) hmod

theorem XRingInv.not_crashed (hinv : XRingInv prodMode consMode size s) (fault : Fault) :
    (∀ p, s.prod p ≠ .crashed fault) ∧ ∀ c, s.cons c ≠ .crashed fault := by
  constructor
  · intro p hpc
    have hok := hinv.prods p
    rw [hpc] at hok
    exact hok
  · intro c hpc
    have hok := hinv.conss c
    rw [hpc] at hok
    exact hok

end Log

/-! ### What a call answers -/

section Answers

variable {P C : Type} {prodMode consMode : XRingMode} {size : Nat} {s s' : XRingThreads P C}

/-- An enqueue goes on, or it returns, and `X_RING_RET_SUCCESS` stands for an accepted payload. -/
inductive EnqueueAnswer (s s' : XRingThreads P C) (p : P) (data : Buffer) : Prop
  | goesOn (hprod : (s'.prod p).data? = some data) (haccepted : s'.log.accepted = s.log.accepted)
  | nospace (hprod : s'.prod p = .idle (some (-XRingRet.nospace.code)))
      (haccepted : s'.log.accepted = s.log.accepted)
  | success (hprod : s'.prod p = .idle (some XRingRet.success.code))
      (haccepted : s'.log.accepted = s.log.accepted ++ [payloadOf data])

/-- A dequeue goes on, or it returns, and `X_RING_RET_SUCCESS` stands for the payload in the entry of its
caller. -/
inductive DequeueAnswer (s s' : XRingThreads P C) (c : C) (out : XRingEntry) : Prop
  | goesOn (hcons : (s'.cons c).out?.isSome) (hdelivered : s'.log.delivered = s.log.delivered)
  | noent (hcons : s'.cons c = .idle (some (-XRingRet.noent.code)))
      (hdelivered : s'.log.delivered = s.log.delivered)
  | success (hcons : s'.cons c = .idle (some XRingRet.success.code))
      (hdelivered : s'.log.delivered = s.log.delivered ++ [out.payload])

variable [DecidableEq P] [DecidableEq C]

theorem XRingInv.enqueue_answer (hinv : XRingInv prodMode consMode size s)
    (hinv' : XRingInv prodMode consMode size s') {p : P}
    (hstep : s.step prodMode consMode (.prod p) = some s') :
    ∃ data, (s.prod p).data? = some data ∧ EnqueueAnswer s s' p data := by
  obtain ⟨⟨ring, pc⟩, hlocal, hs'⟩ := Option.map_eq_some_iff.mp hstep
  have hprod : s'.prod p = pc := by rw [← hs']; exact Function.update_self _ _ _
  have hrecord : s'.log = s.log.recordProd (s.prod p) pc := by rw [← hs']
  have hfault : ∀ fault, pc ≠ .crashed fault := fun fault hcrash =>
    (hinv'.not_crashed fault).1 p (hprod.trans hcrash)
  obtain ⟨data, hdata⟩ := ProdPc.data?_of_step hlocal
  refine ⟨data, hdata, ?_⟩
  rcases ProdPc.step_cases hlocal hfault s.log with ⟨hlog, -, hkept | hnospace⟩ |
    ⟨i, data', -, hdata', -, hkept, hlog⟩ | ⟨data', i, next, hpc, hret, hlog⟩
  · exact .goesOn (by rw [hprod, hkept, hdata]) (by rw [hrecord, hlog])
  · exact .nospace (by rw [hprod, hnospace]) (by rw [hrecord, hlog])
  · rw [hdata] at hdata'
    cases hdata'
    have hpublished : s.log.published ≤ s.log.reserved.length := hinv.at_log.published_le
    refine .goesOn (by rw [hprod, hkept]) ?_
    rw [hrecord, hlog, XRingLog.accepted, List.take_append_of_le_length hpublished]
    rfl
  · rw [hpc] at hdata
    cases hdata
    -- The slot published is that of the oldest reservation.
    obtain ⟨-, -, k, -, -, -, hget, -, holdest⟩ := hinv.exists_fill hpc
    rw [holdest] at hget
    refine .success (by rw [hprod, hret]) ?_
    rw [hrecord, hlog, XRingLog.accepted, List.take_add_one, hget, List.map_append]
    rfl

theorem XRingInv.dequeue_answer (hinv' : XRingInv prodMode consMode size s') {c : C}
    (hstep : s.step prodMode consMode (.cons c) = some s') :
    ∃ out, (s.cons c).out? = some out ∧ DequeueAnswer s s' c out := by
  obtain ⟨⟨ring, pc⟩, hlocal, hs'⟩ := Option.map_eq_some_iff.mp hstep
  have hcons : s'.cons c = pc := by rw [← hs']; exact Function.update_self _ _ _
  have hrecord : s'.log = s.log.recordCons c (s.cons c) pc := by rw [← hs']
  have hfault : ∀ fault, pc ≠ .crashed fault := fun fault hcrash =>
    (hinv'.not_crashed fault).2 c (hcons.trans hcrash)
  obtain ⟨out, hout⟩ := ConsPc.out?_of_step hlocal
  refine ⟨out, hout, ?_⟩
  rcases ConsPc.step_cases hlocal hfault s.log c with ⟨hlog, -, hsome | hnoent⟩ |
    ⟨-, hdraining, hlog⟩ | ⟨out', i, next, hpc, hret, hlog⟩
  · exact .goesOn (by rw [hcons]; exact hsome) (by rw [hrecord, hlog])
  · exact .noent (by rw [hcons, hnoent]) (by rw [hrecord, hlog])
  · obtain ⟨drainStep, out', consHead, consNext, rfl⟩ := hdraining
    exact .goesOn (by rw [hcons]; rfl) (by rw [hrecord, hlog]; rfl)
  · rw [hpc] at hout
    cases hout
    refine .success (by rw [hcons, hret]) ?_
    rw [hrecord, hlog]
    exact List.map_append

end Answers

/-! ### One producer and one consumer -/

/-- What one producer and one consumer can rely on in a state. -/
structure SpscSafe (size : Nat) (s : XRingThreads Unit Unit) : Prop where
  fifo : s.log.delivered <+: s.log.accepted
  enqueue : ∀ s', s.step .single .single (.prod ()) = some s' →
    ∃ data, (s.prod ()).data? = some data ∧ EnqueueAnswer s s' () data
  dequeue : ∀ s', s.step .single .single (.cons ()) = some s' →
    ∃ out, (s.cons ()).out? = some out ∧ DequeueAnswer s s' () out
  slots_apart : ∀ fillStep data prodHead prodNext drainStep out consHead consNext,
    s.prod () = .fill fillStep data prodHead prodNext →
    s.cons () = .drain drainStep out consHead consNext → prodHead ≠ consHead
  nospace : ∀ data prodHead s', s.prod () = .readTail data prodHead →
    s.step .single .single (.prod ()) = some s' →
    s'.prod () = .idle (some (-XRingRet.nospace.code)) →
    s.log.published = s.log.released + (size - 1)
  noent : ∀ out consHead s', s.cons () = .readTail out consHead →
    s.step .single .single (.cons ()) = some s' →
    s'.cons () = .idle (some (-XRingRet.noent.code)) →
    s.log.published = s.log.released
  no_crash : ∀ fault, s.prod () ≠ .crashed fault ∧ s.cons () ≠ .crashed fault

/-- A producer turned away for want of space has read the consumers' tail in a full ring. -/
theorem XRingInv.full_of_nospace {C : Type} [DecidableEq C] {consMode : XRingMode} {size : Nat}
    {s s' : XRingThreads Unit C} (hinv : XRingInv .single consMode size s) {data : Buffer}
    {prodHead : UInt32} (hpc : s.prod () = .readTail data prodHead)
    (hstep : s.step .single consMode (.prod ()) = some s')
    (hret : s'.prod () = .idle (some (-XRingRet.nospace.code))) :
    s.log.published = s.log.released + (size - 1) := by
  have hok := hinv.prods ()
  rw [hpc] at hok
  obtain ⟨hpublished, hhead⟩ : s.log.published = s.log.reserved.length ∧
      prodHead = s.ring.prodHead := hok rfl
  obtain ⟨⟨ring, pc⟩, hlocal, rfl⟩ := Option.map_eq_some_iff.mp hstep
  rw [hpc, ProdPc.step] at hlocal
  by_cases hfull : (prodHead + 1) &&& s.ring.mask = s.ring.consTail
  · have hlap := hinv.at_log.full_iff.mp (hhead ▸ hfull)
    have hpos := hinv.at_log.mask.pos
    omega
  · rw [if_neg hfull] at hlocal
    cases hlocal
    dsimp only at hret
    rw [Function.update_self] at hret
    cases hret

/-- A consumer turned away for want of entries has read the producers' tail in an empty ring. -/
theorem XRingInv.empty_of_noent {P : Type} [DecidableEq P] {prodMode : XRingMode} {size : Nat}
    {s s' : XRingThreads P Unit} (hinv : XRingInv prodMode .single size s) {out : XRingEntry}
    {consHead : UInt32} (hpc : s.cons () = .readTail out consHead)
    (hstep : s.step prodMode .single (.cons ()) = some s')
    (hret : s'.cons () = .idle (some (-XRingRet.noent.code))) :
    s.log.published = s.log.released := by
  have hok := hinv.conss ()
  rw [hpc] at hok
  obtain ⟨hclaimed, hhead⟩ : s.log.claimed = s.log.released ∧ consHead = s.ring.consHead :=
    hok.2 rfl
  obtain ⟨⟨ring, pc⟩, hlocal, rfl⟩ := Option.map_eq_some_iff.mp hstep
  rw [hpc, ConsPc.step] at hlocal
  by_cases hempty : consHead = s.ring.prodTail
  · have hnone := hinv.at_log.empty_iff.mp (hhead ▸ hempty)
    omega
  · rw [if_neg hempty] at hlocal
    cases hlocal
    dsimp only at hret
    rw [Function.update_self] at hret
    cases hret

/-- With one entry point on each side there is no compare-and-set that could be stale. -/
theorem XRingInv.spsc_step {size : Nat} {s s' : XRingThreads Unit Unit} {a : XRingAct Unit Unit}
    (hinv : XRingInv .single .single size s) (hstep : s.step .single .single a = some s') :
    XRingInv .single .single size s' := by
  refine hinv.step (fun _ => inferInstance) (fun _ => inferInstance) ?_ hstep
  cases a with
  | prod p => exact fun hmode => nomatch hmode
  | cons c => exact fun hmode => nomatch hmode
  | enqueue p data => trivial
  | dequeue c out => trivial

theorem XRingInv.spscSafe {size : Nat} {s : XRingThreads Unit Unit}
    (hinv : XRingInv .single .single size s) : SpscSafe size s where
  fifo := hinv.delivered_prefix_accepted
  enqueue := fun _ hstep => hinv.enqueue_answer (hinv.spsc_step hstep) hstep
  dequeue := fun _ hstep => (hinv.spsc_step hstep).dequeue_answer hstep
  slots_apart := fun _ _ _ _ _ _ _ _ hprod hcons => hinv.fill_ne_drain hprod hcons
  nospace := fun _ _ _ hpc hstep hret => hinv.full_of_nospace hpc hstep hret
  noent := fun _ _ _ hpc hstep hret => hinv.empty_of_noent hpc hstep hret
  no_crash := fun fault => ⟨(hinv.not_crashed fault).1 (), (hinv.not_crashed fault).2 ()⟩

/-- **One producer, one consumer.** Every state that any interleaving reaches is safe. -/
theorem spsc_safe (hmade : xRingCreate garbage count ringbufSize = .ok r)
    (hpos : 1 ≤ count.toNat) (hle : count.toNat ≤ 2 ^ 31)
    (as : List (XRingAct Unit Unit)) (s : XRingThreads Unit Unit)
    (hrun : run (XRingThreads.step .single .single) (.start r) as = some s) :
    SpscSafe r.size.toNat s :=
  (run_invariant (fun _ _ _ => XRingInv.spsc_step) (xRingInv_start _ _ hmade hpos hle) hrun).spscSafe

def enqueueAlone {P C : Type} (p : P) (data : Buffer) (steps : Nat) : List (XRingAct P C) :=
  .enqueue p data :: List.replicate steps (.prod p)

def dequeueAlone {P C : Type} (c : C) (out : XRingEntry) (steps : Nat) : List (XRingAct P C) :=
  .dequeue c out :: List.replicate steps (.cons c)

theorem spsc_safe_round : ∃ s : XRingThreads Unit Unit,
    run (XRingThreads.step .single .single) (.start ringOfTwo)
      (enqueueAlone () [some 7] 7 ++ dequeueAlone () ⟨0, 0, []⟩ 7) = some s ∧
    s.log.delivered = [(1, [some 7])] ∧ SpscSafe 2 s := by
  have hrun : ∃ s ∈ run (XRingThreads.step .single .single) (.start ringOfTwo)
      (enqueueAlone () [some 7] 7 ++ dequeueAlone () ⟨0, 0, []⟩ 7),
        (s : XRingThreads Unit Unit).log.delivered = [(1, [some 7])] := by
    decide +kernel
  obtain ⟨s, hs, hdelivered⟩ := hrun
  exact ⟨s, hs, hdelivered, spsc_safe xRingCreate_two (by decide) (by decide) _ s hs⟩

/-! ### Several producers -/

section Mpsc

variable {P : Type}

/-- What several producers and one consumer can rely on in a state. -/
structure MpscSafe (size : Nat) (s : XRingThreads P Unit) : Prop where
  room : s.log.outstanding.length ≤ size - 1
  slots_apart : (s.log.outstanding.map Prod.fst).Nodup
  fifo : s.log.delivered <+: s.log.reserved.map fun entry => payloadOf entry.2
  once : s.log.returned.map Prod.fst = List.range s.log.released
  kept : ∀ (k : Nat) (i : UInt32) (data : Buffer), s.log.released ≤ k → k < s.log.published →
    s.log.reserved[k]? = some (i, data) → s.ring.Holds i.toNat (payloadOf data)
  no_crash : ∀ fault, (∀ p, s.prod p ≠ .crashed fault) ∧ s.cons () ≠ .crashed fault

theorem XRingInv.mpscSafe {prodMode consMode : XRingMode} {size : Nat} {s : XRingThreads P Unit}
    (hinv : XRingInv prodMode consMode size s) : MpscSafe size s where
  room := hinv.outstanding_length
  slots_apart := hinv.outstanding_nodup
  fifo := hinv.delivered_prefix_accepted.trans s.log.accepted_prefix_reserved
  once := hinv.tickets_eq
  kept := fun _ _ _ hle hlt hget => hinv.held_slot hle hlt hget
  no_crash := fun fault => ⟨(hinv.not_crashed fault).1, (hinv.not_crashed fault).2 ()⟩

variable [DecidableEq P]

/-- A stale compare-and-set of the producers' head leaves no slot empty. -/
theorem XRingInv.full_of_stale {C : Type} [DecidableEq C] {consMode : XRingMode} {size : Nat}
    {s s' : XRingThreads P C} (hinv : XRingInv .multi consMode size s) {p : P} {data : Buffer}
    {prodHead prodNext : UInt32} (hpc : s.prod p = .reserve data prodHead prodNext)
    (hhead : s.ring.prodHead = prodHead) (hstale : prodNext = s.ring.consTail)
    (hstep : s.step .multi consMode (.prod p) = some s') :
    s'.log.outstanding.length = size := by
  have hok := hinv.prods p
  rw [hpc] at hok
  have hnext : prodNext = (prodHead + 1) &&& s.ring.mask := hok.1
  have hfull : s.log.reserved.length + 1 = s.log.released + size :=
    hinv.at_log.full_iff.mp (by rw [hhead, ← hnext, hstale])
  obtain ⟨⟨ring, pc⟩, hlocal, rfl⟩ := Option.map_eq_some_iff.mp hstep
  rw [hpc, ProdPc.step, atomic32Cmpset, if_pos hhead] at hlocal
  cases hlocal
  rw [hpc]
  simp only [XRingLog.outstanding, XRingLog.recordProd, List.length_drop, List.length_append,
    List.length_singleton]
  omega

/-- **Several producers, one consumer.** A run stays safe exactly if none of its compare-and-sets of
the producers' head is stale. -/
theorem mpsc_safe_iff_fresh (hmade : xRingCreate garbage count ringbufSize = .ok r)
    (hpos : 1 ≤ count.toNat) (hle : count.toNat ≤ 2 ^ 31) (as : List (XRingAct P Unit)) :
    Throughout (XRingThreads.step .multi .single) (MpscSafe r.size.toNat) (.start r) as ↔
      Along (XRingThreads.step .multi .single)
        (fun s : XRingThreads P Unit => s.Fresh .multi .single) (.start r) as := by
  have hinit : XRingInv .multi .single r.size.toNat (XRingThreads.start r : XRingThreads P Unit) :=
    xRingInv_start _ _ hmade hpos hle
  have hstep : ∀ (s : XRingThreads P Unit) a s', XRingInv .multi .single r.size.toNat s →
      s.Fresh .multi .single a → s.step .multi .single a = some s' →
      XRingInv .multi .single r.size.toNat s' := by
    intro s a s' hinv hfresh hstep
    exact hinv.step (fun hmode => nomatch hmode) (fun _ => inferInstance) hfresh hstep
  constructor
  · refine along_of_throughout hstep ?_ hinit
    intro s a s' hinv hstale hstep hsafe
    have hroom := hsafe.room
    cases a with
    | enqueue p data => exact hstale trivial
    | dequeue c out => exact hstale trivial
    | cons c => exact hstale fun hmode => nomatch hmode
    | prod p =>
        refine hstale fun _ data prodHead prodNext hpc hhead htail => ?_
        have hfull := hinv.full_of_stale hpc hhead htail hstep
        have hsize := hinv.at_log.mask.pos
        omega
  · exact throughout_of_along hstep (fun _ hinv => hinv.mpscSafe) hinit

theorem mpsc_safe_iff_fresh_two :
    Throughout (XRingThreads.step .multi .single) (MpscSafe 2) (.start ringOfTwo)
        (enqueueAlone (0 : Fin 2) [some 7] 8) ↔
      Along (XRingThreads.step .multi .single)
        (fun s : XRingThreads (Fin 2) Unit => s.Fresh .multi .single) (.start ringOfTwo)
        (enqueueAlone (0 : Fin 2) [some 7] 8) :=
  mpsc_safe_iff_fresh xRingCreate_two (by decide) (by decide) _

/-- Producer 0 makes its test in the empty ring and is delayed; one full lap later its
compare-and-set succeeds in the full ring. Its publication makes the ring look empty. -/
def staleEnqueue : List (XRingAct (Fin 2) Unit) :=
  enqueueAlone 0 [some 1] 2 ++ enqueueAlone 1 [some 2] 8 ++ dequeueAlone () ⟨0, 0, []⟩ 7
    ++ enqueueAlone 1 [some 3] 8 ++ List.replicate 6 (.prod 0) ++ dequeueAlone () ⟨0, 0, []⟩ 2

theorem mpsc_not_safe : xRingCreate (fun _ => 0) 2 4 = .ok ringOfTwo ∧
    ∃ s, run (XRingThreads.step .multi .single) (.start ringOfTwo) staleEnqueue = some s ∧
      s.log.outstanding.length = 2 ∧
      s.log.accepted = [(1, [some 2]), (1, [some 3]), (1, [some 1])] ∧
      s.log.delivered = [(1, [some 2])] ∧ s.cons () = .idle (some (-XRingRet.noent.code)) ∧
      ¬MpscSafe 2 s := by
  have hrun : ∃ s ∈ run (XRingThreads.step .multi .single) (.start ringOfTwo) staleEnqueue,
      s.log.outstanding.length = 2 ∧
      s.log.accepted = [(1, [some 2]), (1, [some 3]), (1, [some 1])] ∧
      s.log.delivered = [(1, [some 2])] ∧ s.cons () = .idle (some (-XRingRet.noent.code)) := by
    decide +kernel
  obtain ⟨s, hs, houtstanding, haccepted, hdelivered, hcons⟩ := hrun
  refine ⟨xRingCreate_two, s, hs, houtstanding, haccepted, hdelivered, hcons, fun hsafe => ?_⟩
  have hroom := hsafe.room
  omega

end Mpsc

/-! ### Several consumers -/

section Spmc

variable {C : Type}

/-- What one producer and several consumers can rely on in a state. -/
structure SpmcSafe (s : XRingThreads Unit C) : Prop where
  no_phantom : s.log.claimed ≤ s.log.published
  accepted : ∀ (ticket : Nat) (payload : Payload), (ticket, payload) ∈ s.log.returned →
    s.log.accepted[ticket]? = some payload
  once : (s.log.returned.map Prod.fst).Nodup
  fifo : s.log.delivered <+: s.log.accepted
  no_crash : ∀ fault, s.prod () ≠ .crashed fault ∧ ∀ c, s.cons c ≠ .crashed fault

theorem XRingInv.accepted_of_returned {P : Type} {prodMode consMode : XRingMode} {size : Nat}
    {s : XRingThreads P C} (hinv : XRingInv prodMode consMode size s) {ticket : Nat}
    {payload : Payload} (hmem : (ticket, payload) ∈ s.log.returned) :
    s.log.accepted[ticket]? = some payload := by
  obtain ⟨j, hget⟩ := List.mem_iff_getElem?.mp hmem
  obtain ⟨rfl, i, data, hreserved, rfl⟩ := hinv.returned j ticket payload hget
  have hlt : ticket < s.log.returned.length := (List.getElem?_eq_some_iff.mp hget).1
  rw [hinv.returned_length] at hlt
  have hle := hinv.at_log.released_le.trans hinv.at_log.claimed_le
  rw [XRingLog.accepted, List.getElem?_map, List.getElem?_take_of_lt (by omega), hreserved]
  rfl

theorem XRingInv.spmcSafe {prodMode consMode : XRingMode} {size : Nat} {s : XRingThreads Unit C}
    (hinv : XRingInv prodMode consMode size s) : SpmcSafe s where
  no_phantom := hinv.at_log.claimed_le
  accepted := fun _ _ hmem => hinv.accepted_of_returned hmem
  once := by
    rw [hinv.tickets_eq]
    exact List.nodup_range
  fifo := hinv.delivered_prefix_accepted
  no_crash := fun fault => ⟨(hinv.not_crashed fault).1 (), (hinv.not_crashed fault).2⟩

variable [DecidableEq C]

/-- A stale compare-and-set of the consumers' head claims an entry that nothing has published. -/
theorem XRingInv.phantom_of_stale {P : Type} [DecidableEq P] {prodMode : XRingMode} {size : Nat}
    {s s' : XRingThreads P C} (hinv : XRingInv prodMode .multi size s) {c : C} {out : XRingEntry}
    {consHead consNext : UInt32} (hpc : s.cons c = .reserve out consHead consNext)
    (hhead : s.ring.consHead = consHead) (hstale : consHead = s.ring.prodTail)
    (hstep : s.step prodMode .multi (.cons c) = some s') :
    s'.log.claimed = s'.log.published + 1 := by
  have hempty : s.log.claimed = s.log.published :=
    hinv.at_log.empty_iff.mp (hhead.trans hstale)
  obtain ⟨⟨ring, pc⟩, hlocal, rfl⟩ := Option.map_eq_some_iff.mp hstep
  rw [hpc, ConsPc.step, atomic32Cmpset, if_pos hhead] at hlocal
  cases hlocal
  rw [hpc]
  exact congrArg (· + 1) hempty

/-- **One producer, several consumers.** A run stays safe exactly if none of its compare-and-sets of
the consumers' head is stale. -/
theorem spmc_safe_iff_fresh (hmade : xRingCreate garbage count ringbufSize = .ok r)
    (hpos : 1 ≤ count.toNat) (hle : count.toNat ≤ 2 ^ 31) (as : List (XRingAct Unit C)) :
    Throughout (XRingThreads.step .single .multi) SpmcSafe (.start r) as ↔
      Along (XRingThreads.step .single .multi)
        (fun s : XRingThreads Unit C => s.Fresh .single .multi) (.start r) as := by
  have hinit : XRingInv .single .multi r.size.toNat (XRingThreads.start r : XRingThreads Unit C) :=
    xRingInv_start _ _ hmade hpos hle
  have hstep : ∀ (s : XRingThreads Unit C) a s', XRingInv .single .multi r.size.toNat s →
      s.Fresh .single .multi a → s.step .single .multi a = some s' →
      XRingInv .single .multi r.size.toNat s' := by
    intro s a s' hinv hfresh hstep
    exact hinv.step (fun _ => inferInstance) (fun hmode => nomatch hmode) hfresh hstep
  constructor
  · refine along_of_throughout hstep ?_ hinit
    intro s a s' hinv hstale hstep hsafe
    have hnone := hsafe.no_phantom
    cases a with
    | enqueue p data => exact hstale trivial
    | dequeue c out => exact hstale trivial
    | prod p => exact hstale fun hmode => nomatch hmode
    | cons c =>
        refine hstale fun _ out consHead consNext hpc hhead htail => ?_
        have hphantom := hinv.phantom_of_stale hpc hhead htail hstep
        omega
  · exact throughout_of_along hstep (fun _ hinv => hinv.spmcSafe) hinit

theorem spmc_safe_iff_fresh_two :
    Throughout (XRingThreads.step .single .multi) SpmcSafe (.start ringOfTwo)
        (enqueueAlone () [some 7] 7 ++ dequeueAlone (1 : Fin 2) ⟨0, 0, []⟩ 8) ↔
      Along (XRingThreads.step .single .multi)
        (fun s : XRingThreads Unit (Fin 2) => s.Fresh .single .multi) (.start ringOfTwo)
        (enqueueAlone () [some 7] 7 ++ dequeueAlone (1 : Fin 2) ⟨0, 0, []⟩ 8) :=
  spmc_safe_iff_fresh xRingCreate_two (by decide) (by decide) _

/-- Consumer 0 makes its test while the first entry is in the ring and is delayed; one full lap
later its compare-and-set succeeds in the empty ring. -/
def staleDequeue : List (XRingAct Unit (Fin 2)) :=
  enqueueAlone () [some 1] 7 ++ dequeueAlone 0 ⟨0, 0, []⟩ 2 ++ dequeueAlone 1 ⟨0, 0, []⟩ 8
    ++ enqueueAlone () [some 2] 7 ++ dequeueAlone 1 ⟨0, 0, []⟩ 8 ++ List.replicate 6 (.cons 0)

theorem spmc_not_safe : xRingCreate (fun _ => 0) 2 4 = .ok ringOfTwo ∧
    ∃ s, run (XRingThreads.step .single .multi) (.start ringOfTwo) staleDequeue = some s ∧
      s.log.accepted = [(1, [some 1]), (1, [some 2])] ∧
      s.log.delivered = [(1, [some 1]), (1, [some 2]), (1, [some 1])] ∧
      s.cons 0 = .idle (some XRingRet.success.code) ∧ ¬SpmcSafe s := by
  have hrun : ∃ s ∈ run (XRingThreads.step .single .multi) (.start ringOfTwo) staleDequeue,
      s.log.accepted = [(1, [some 1]), (1, [some 2])] ∧
      s.log.delivered = [(1, [some 1]), (1, [some 2]), (1, [some 1])] ∧
      s.cons 0 = .idle (some XRingRet.success.code) := by
    decide +kernel
  obtain ⟨s, hs, haccepted, hdelivered, hcons⟩ := hrun
  refine ⟨xRingCreate_two, s, hs, haccepted, hdelivered, hcons, fun hsafe => ?_⟩
  have hlength := hsafe.fifo.length_le
  rw [hdelivered, haccepted] at hlength
  exact absurd hlength (by decide)

end Spmc

end Gittest
