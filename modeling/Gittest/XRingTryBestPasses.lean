import Gittest.Proof.XRingCallSteps
import Gittest.XRingTryBest

/-!
# The test passes

Whatever the order of the steps, `thread_dequeue_try_best` reads 0, 1, 2 and so on, and `exit(1)` is never
called. The test can always be brought to its end, unless its ring has a single slot: then it never
comes to one.
-/

namespace Gittest

open Transition

variable {order : ByteOrder} {maxSeqNum : Int}

/-! ### An `int` in a buffer -/

theorem intBytes_length (i : Int) : (intBytes order i).length = 4 := by
  cases order <;> rfl

theorem word_bytes (order : ByteOrder) (w : UInt32) :
    ∃ a b c d, order.bytes w = [a, b, c, d] ∧ order.word a b c d = w := by
  have hlt := w.toNat_lt
  cases order
  · refine ⟨_, _, _, _, rfl, ?_⟩
    apply UInt32.toNat_inj.mp
    rw [ByteOrder.word, UInt32.toNat_ofNat']
    simp only [UInt8.toNat_ofNat']
    omega
  · refine ⟨_, _, _, _, rfl, ?_⟩
    apply UInt32.toNat_inj.mp
    rw [ByteOrder.word, UInt32.toNat_ofNat']
    simp only [UInt8.toNat_ofNat']
    omega

theorem readInt_intBytes {i : Int} (hi : 0 ≤ i ∧ i ≤ intMax) (rest : Buffer) :
    readInt order (intBytes order i ++ rest) = .ok i := by
  obtain ⟨a, b, c, d, hbytes, hword⟩ := word_bytes order (UInt32.ofNat (unsignedInt i))
  have hmax := hi.2
  simp only [intMax] at hmax
  have hvalue : ((UInt32.ofNat (unsignedInt i)).toNat : Int) = i := by
    rw [UInt32.toNat_ofNat', unsignedInt]
    omega
  rw [intBytes, hbytes]
  change Except.ok (toInt (order.word a b c d).toNat) = _
  rw [hword, hvalue, toInt_eq ⟨by simp only [intMin]; omega, hi.2⟩]

namespace TryBest

/-! ### What the threads have done -/

/-- Between two enqueues, `n` of which have succeeded. -/
structure EnqueuerRests (threads : XRingThreads Unit Unit) (n : Int) : Prop where
  idle : ∃ ret, threads.prod () = .idle ret
  published : threads.log.published = n

structure DequeuerRests (threads : XRingThreads Unit Unit) (n : Int) : Prop where
  idle : ∃ ret, threads.cons () = .idle ret
  released : threads.log.released = n

/-- `i` is in `buf`, and has not been enqueued. -/
structure Holds (order : ByteOrder) (maxSeqNum : Int) (t : EnqueueTry) : Prop where
  stored : t.buf.take 4 = intBytes order t.i
  more : t.i < maxSeqNum

def EnqueuerOk (order : ByteOrder) (maxSeqNum : Int) (s : TryBest) : Prop :=
  match s.enqueuer.pc with
  | .store => EnqueuerRests s.threads s.enqueuer.i ∧ s.enqueuer.i < maxSeqNum
  | .call => EnqueuerRests s.threads s.enqueuer.i ∧ Holds order maxSeqNum s.enqueuer
  | .enqueue => (s.threads.prod ()).data? = some (intBytes order s.enqueuer.i) ∧
      s.threads.log.published = s.enqueuer.i ∧ Holds order maxSeqNum s.enqueuer
  | .test ret => EnqueuerRests s.threads (if ret = 0 then s.enqueuer.i + 1 else s.enqueuer.i) ∧
      Holds order maxSeqNum s.enqueuer
  | .returned => EnqueuerRests s.threads maxSeqNum ∧ s.enqueuer.i = maxSeqNum
  | .crashed _ => False

def DequeuerOk (order : ByteOrder) (maxSeqNum : Int) (s : TryBest) : Prop :=
  match s.dequeuer.pc with
  | .call => DequeuerRests s.threads s.dequeuer.expVal ∧ s.dequeuer.expVal < maxSeqNum ∧
      s.dequeuer.entry.Fits
  | .dequeue => (s.threads.cons ()).out?.isSome ∧ s.threads.log.released = s.dequeuer.expVal ∧
      s.dequeuer.expVal < maxSeqNum
  | .test ret => DequeuerRests s.threads (if ret = 0 then s.dequeuer.expVal + 1 else s.dequeuer.expVal) ∧
      s.dequeuer.expVal < maxSeqNum ∧ s.dequeuer.entry.Fits ∧
      (ret = 0 → ∃ rest, s.dequeuer.entry.data = intBytes order s.dequeuer.expVal ++ rest)
  | .returned => DequeuerRests s.threads maxSeqNum ∧ s.dequeuer.expVal = maxSeqNum
  | .exited => False
  | .crashed _ => False

structure Inv (order : ByteOrder) (maxSeqNum : Int) (size : Nat) (s : TryBest) : Prop where
  ring : XRingInv .single .single size s.threads
  sent : ∀ (k : Nat) (i : UInt32) (data : Buffer),
    s.threads.log.reserved[k]? = some (i, data) → data = intBytes order k
  room : s.enqueuer.buf.length = 20
  enqueuer : s.EnqueuerOk order maxSeqNum
  dequeuer : s.DequeuerOk order maxSeqNum
  expVal : s.dequeuer.expVal = s.dequeuer.shown.length
  shown : s.dequeuer.shown = (List.range s.dequeuer.shown.length).map Int.ofNat

/-! ### How far they have to go -/

def enqueuerToGo (maxSeqNum : Int) (s : TryBest) : Nat :=
  16 * (maxSeqNum - 1 - s.enqueuer.i).toNat +
    match s.enqueuer.pc with
    | .store => 13
    | .call => 12
    | .enqueue => 2 + (s.threads.prod ()).stepsLeft
    | .test ret => if ret = 0 then 1 else 13
    | _ => 0

def dequeuerToGo (maxSeqNum : Int) (s : TryBest) : Nat :=
  16 * (maxSeqNum - 1 - s.dequeuer.expVal).toNat +
    match s.dequeuer.pc with
    | .call => 12
    | .dequeue => 2 + (s.threads.cons ()).stepsLeft
    | .test ret => if ret = 0 then 1 else 13
    | _ => 0

def toGo (maxSeqNum : Int) (s : TryBest) : Nat :=
  s.enqueuerToGo maxSeqNum + s.dequeuerToGo maxSeqNum

/-! ### One step -/

section Steps

variable {size : Nat} {s : TryBest} {threads : XRingThreads Unit Unit}

theorem DequeuerOk.congr {e : EnqueueTry} (hok : s.DequeuerOk order maxSeqNum)
    (hcons : threads.cons = s.threads.cons)
    (hreleased : threads.log.released = s.threads.log.released) :
    DequeuerOk order maxSeqNum { s with threads := threads, enqueuer := e } := by
  have hrests {n : Int} (hrest : DequeuerRests s.threads n) : DequeuerRests threads n :=
    ⟨hcons ▸ hrest.idle, hreleased ▸ hrest.released⟩
  unfold DequeuerOk at hok ⊢
  cases hpc : s.dequeuer.pc with
  | call => rw [hpc] at hok; exact ⟨hrests hok.1, hok.2⟩
  | dequeue => rw [hpc] at hok; exact ⟨hcons ▸ hok.1, hreleased ▸ hok.2.1, hok.2.2⟩
  | test ret => rw [hpc] at hok; exact ⟨hrests hok.1, hok.2⟩
  | returned => rw [hpc] at hok; exact ⟨hrests hok.1, hok.2⟩
  | exited => rw [hpc] at hok; exact hok
  | crashed fault => rw [hpc] at hok; exact hok

theorem EnqueuerOk.congr {d : DequeueTry} (hok : s.EnqueuerOk order maxSeqNum)
    (hprod : threads.prod = s.threads.prod)
    (hpublished : threads.log.published = s.threads.log.published) :
    EnqueuerOk order maxSeqNum { s with threads := threads, dequeuer := d } := by
  have hrests {n : Int} (hrest : EnqueuerRests s.threads n) : EnqueuerRests threads n :=
    ⟨hprod ▸ hrest.idle, hpublished ▸ hrest.published⟩
  unfold EnqueuerOk at hok ⊢
  cases hpc : s.enqueuer.pc with
  | store => rw [hpc] at hok; exact ⟨hrests hok.1, hok.2⟩
  | call => rw [hpc] at hok; exact ⟨hrests hok.1, hok.2⟩
  | enqueue => rw [hpc] at hok; exact ⟨hprod ▸ hok.1, hpublished ▸ hok.2.1, hok.2.2⟩
  | test ret => rw [hpc] at hok; exact ⟨hrests hok.1, hok.2⟩
  | returned => rw [hpc] at hok; exact ⟨hrests hok.1, hok.2⟩
  | crashed fault => rw [hpc] at hok; exact hok

/-- What a step of `thread_enqueue_try_best` preserves, and what it brings nearer. -/
structure EnqueuerStep (order : ByteOrder) (maxSeqNum : Int) (size : Nat) (s t : TryBest) : Prop where
  inv : t.Inv order maxSeqNum size
  released : t.threads.log.released = s.threads.log.released
  less : t.toGo maxSeqNum < s.toGo maxSeqNum ∨ s.enqueuer.pc = .enqueue ∧
    s.threads.log.published + 1 = s.threads.log.released + size

theorem ofEnqueue_of_data {pc : ProdPc} {data : Buffer} (hdata : pc.data? = some data) :
    EnqueueTryPc.ofEnqueue pc = .enqueue := by
  cases pc with
  | idle => cases hdata
  | crashed => cases hdata
  | readHead => rfl
  | readTail => rfl
  | reserve => rfl
  | fill => rfl

/-- A reservation is numbered as the data are. -/
theorem Inv.sent_step (hinv : s.Inv order maxSeqNum size)
    (hpublished : s.threads.log.published = s.enqueuer.i)
    (henqueue : EnqueueStep size s.threads threads (intBytes order s.enqueuer.i)) (k : Nat)
    (i : UInt32) (data : Buffer) (hget : threads.log.reserved[k]? = some (i, data)) :
    data = intBytes order k := by
  have hsame (hreserved : threads.log.reserved = s.threads.log.reserved) :
      data = intBytes order k := hinv.sent k i data (hreserved ▸ hget)
  cases henqueue with
  | nospace _ _ hreserved _ => exact hsame hreserved
  | success _ _ hreserved _ => exact hsame hreserved
  | goesOn _ _ hreserved _ =>
      rcases hreserved with hreserved | ⟨j, hreserved, hlast⟩
      · exact hsame hreserved
      · rw [hreserved, List.getElem?_append] at hget
        split at hget
        · exact hinv.sent k i data hget
        · rename_i hlt
          obtain ⟨hk, hget⟩ := List.getElem?_eq_some_iff.mp hget
          rw [List.length_singleton] at hk
          have hnumber : (k : Int) = s.enqueuer.i := by omega
          rw [List.getElem_singleton, Prod.mk.injEq] at hget
          rw [hnumber, hget.2]

theorem Inv.enqueue_step (hinv : s.Inv order maxSeqNum size) (hpc : s.enqueuer.pc = .enqueue) :
    ∃ t, s.threadEnqueueTryBest order maxSeqNum = some t ∧
      EnqueuerStep order maxSeqNum size s t := by
  have hok := hinv.enqueuer
  rw [EnqueuerOk, hpc] at hok
  obtain ⟨hdata, hpublished, hholds⟩ := hok
  obtain ⟨threads', hprod, hring, hcons, hreleased, henqueue⟩ := hinv.ring.enqueue_step hdata
  have hstep : s.threadEnqueueTryBest order maxSeqNum = some { s with
      threads := threads'
      enqueuer := { s.enqueuer with pc := .ofEnqueue (threads'.prod ()) } } := by
    rw [threadEnqueueTryBest, hpc]
    dsimp only
    rw [hprod]
    rfl
  have hsent := hinv.sent_step hpublished henqueue
  have hdequeuer := hinv.dequeuer.congr (e := { s.enqueuer with pc := .ofEnqueue (threads'.prod ()) })
    hcons hreleased
  refine ⟨_, hstep, ⟨hring, hsent, hinv.room, ?_, hdequeuer, hinv.expVal, hinv.shown⟩, hreleased, ?_⟩
  · cases henqueue with
    | goesOn hdata' hpublished' _ _ =>
        simp only [EnqueuerOk, ofEnqueue_of_data hdata']
        exact ⟨hdata', hpublished' ▸ hpublished, hholds.stored, hholds.more⟩
    | nospace hidle hpublished' _ _ =>
        simp only [EnqueuerOk, hidle, EnqueueTryPc.ofEnqueue]
        exact ⟨⟨⟨_, hidle⟩, hpublished' ▸ hpublished⟩, hholds.stored, hholds.more⟩
    | success hidle hpublished' _ _ =>
        simp only [EnqueuerOk, hidle, EnqueueTryPc.ofEnqueue]
        refine ⟨⟨⟨_, hidle⟩, ?_⟩, hholds.stored, hholds.more⟩
        rw [hpublished', Nat.cast_succ, hpublished]
        rfl
  · cases henqueue with
    | goesOn hdata' _ _ hleft =>
        refine Or.inl ?_
        simp only [toGo, enqueuerToGo, dequeuerToGo, hpc, ofEnqueue_of_data hdata', hcons]
        omega
    | nospace _ _ _ hfull => exact Or.inr ⟨hpc, hfull⟩
    | success hidle _ _ hlast =>
        refine Or.inl ?_
        simp only [toGo, enqueuerToGo, dequeuerToGo, hpc, hidle, EnqueueTryPc.ofEnqueue, hcons, hlast]
        have hzero : XRingRet.success.code = 0 := rfl
        rw [if_pos hzero]
        omega

/-- `thread_enqueue_try_best` is stuck only when it has returned, and comes nearer to its end unless it
finds the ring full. -/
theorem Inv.enqueuer_step (hinv : s.Inv order maxSeqNum size) (hpc : s.enqueuer.pc ≠ .returned) :
    ∃ t, s.threadEnqueueTryBest order maxSeqNum = some t ∧
      EnqueuerStep order maxSeqNum size s t := by
  have hok := hinv.enqueuer
  unfold EnqueuerOk at hok
  cases hthread : s.enqueuer.pc with
  | enqueue => exact hinv.enqueue_step hthread
  | returned => exact absurd hthread hpc
  | crashed => rw [hthread] at hok; exact hok.elim
  | store =>
      rw [hthread] at hok
      obtain ⟨hrests, hmore⟩ := hok
      have hroom := hinv.room
      have hlength : (intBytes order s.enqueuer.i).length = 4 := intBytes_length _
      have hcopy : memcpy s.enqueuer.buf (intBytes order s.enqueuer.i) 4
          = .ok ((intBytes order s.enqueuer.i).take 4 ++ s.enqueuer.buf.drop 4) :=
        memcpy_ok (by omega) (by omega) (by omega)
      have hstored : ((intBytes order s.enqueuer.i).take 4 ++ s.enqueuer.buf.drop 4).take 4
          = intBytes order s.enqueuer.i := by
        rw [List.take_of_length_le hlength.le, List.take_left' hlength]
      have hstep : s.threadEnqueueTryBest order maxSeqNum = some { s with
          enqueuer := { s.enqueuer with
            tries := 0
            buf := (intBytes order s.enqueuer.i).take 4 ++ s.enqueuer.buf.drop 4
            pc := .call } } := by
        rw [threadEnqueueTryBest, hthread]
        dsimp only
        rw [hcopy]
      refine ⟨_, hstep, { hinv with room := ?_, enqueuer := ⟨hrests, hstored, hmore⟩ }, rfl, Or.inl ?_⟩
      · rw [List.length_append, List.length_take, List.length_drop]
        omega
      · simp only [toGo, enqueuerToGo, dequeuerToGo, hthread]
        omega
  | call =>
      rw [hthread] at hok
      obtain ⟨⟨⟨ret, hidle⟩, hpublished⟩, hholds⟩ := hok
      have hcall : s.threads.step .single .single (.enqueue () (s.enqueuer.buf.take 4))
          = some { s.threads with
              prod := Function.update s.threads.prod () (.readHead (s.enqueuer.buf.take 4)) } := by
        rw [XRingThreads.step, hidle]
      have hring := hinv.ring.step (fun _ => inferInstance) (fun _ => inferInstance)
        (a := .enqueue () (s.enqueuer.buf.take 4)) trivial hcall
      have hstep : s.threadEnqueueTryBest order maxSeqNum = some { s with
          threads := { s.threads with
            prod := Function.update s.threads.prod () (.readHead (s.enqueuer.buf.take 4)) }
          enqueuer := { s.enqueuer with pc := .enqueue } } := by
        rw [threadEnqueueTryBest, hthread]
        dsimp only
        rw [hcall]
        rfl
      refine ⟨_, hstep, ⟨hring, hinv.sent, hinv.room, ⟨?_, hpublished, hholds.stored, hholds.more⟩,
        hinv.dequeuer.congr rfl rfl, hinv.expVal, hinv.shown⟩, rfl, Or.inl ?_⟩
      · dsimp only
        rw [Function.update_self, hholds.stored]
        rfl
      · simp only [toGo, enqueuerToGo, dequeuerToGo, hthread, Function.update_self,
          ProdPc.stepsLeft]
        omega
  | test ret =>
      rw [hthread] at hok
      obtain ⟨hrests, hholds⟩ := hok
      have hmore := hholds.more
      by_cases hret : ret = 0
      · rw [if_pos hret] at hrests
        by_cases hlast : s.enqueuer.i + 1 ≥ maxSeqNum
        · have hi : s.enqueuer.i + 1 = maxSeqNum := by omega
          have hstep : s.threadEnqueueTryBest order maxSeqNum = some { s with
              enqueuer := { s.enqueuer with i := s.enqueuer.i + 1, pc := .returned } } := by
            rw [threadEnqueueTryBest, hthread]
            dsimp only
            rw [if_neg (not_not.mpr hret), if_pos hlast]
          refine ⟨_, hstep, { hinv with enqueuer := ⟨hi ▸ hrests, hi⟩ }, rfl, Or.inl ?_⟩
          simp only [toGo, enqueuerToGo, dequeuerToGo, hthread, if_pos hret]
          omega
        · have hstep : s.threadEnqueueTryBest order maxSeqNum = some { s with
              enqueuer := { s.enqueuer with i := s.enqueuer.i + 1, pc := .store } } := by
            rw [threadEnqueueTryBest, hthread]
            dsimp only
            rw [if_neg (not_not.mpr hret), if_neg hlast]
          refine ⟨_, hstep, { hinv with enqueuer := ⟨hrests, not_le.mp hlast⟩ }, rfl, Or.inl ?_⟩
          simp only [toGo, enqueuerToGo, dequeuerToGo, hthread, if_pos hret]
          omega
      · rw [if_neg hret] at hrests
        have hstep : s.threadEnqueueTryBest order maxSeqNum = some { s with
            enqueuer := { s.enqueuer with tries := retry s.enqueuer.tries, pc := .call } } := by
          rw [threadEnqueueTryBest, hthread]
          exact if_pos hret
        refine ⟨_, hstep, { hinv with enqueuer := ⟨hrests, hholds.stored, hholds.more⟩ }, rfl,
          Or.inl ?_⟩
        simp only [toGo, enqueuerToGo, dequeuerToGo, hthread, if_neg hret]
        omega

/-- The same of `thread_dequeue_try_best`. -/
structure DequeuerStep (order : ByteOrder) (maxSeqNum : Int) (size : Nat) (s t : TryBest) : Prop where
  inv : t.Inv order maxSeqNum size
  released : t.threads.log.released = s.threads.log.released ∨
    s.threads.log.released < s.threads.log.published
  less : t.toGo maxSeqNum < s.toGo maxSeqNum ∨ s.dequeuer.pc = .dequeue ∧
    s.threads.log.published = s.threads.log.released

theorem ofDequeue_of_out {t : DequeueTry} {pc pc' : ConsPc} (hout : pc'.out?.isSome) :
    t.ofDequeue pc pc' = t := by
  cases pc' with
  | idle => cases hout
  | crashed => cases hout
  | readHead => rfl
  | readTail => rfl
  | reserve => rfl
  | drain => rfl

theorem ofDequeue_idle {t : DequeueTry} {pc : ConsPc} {out : XRingEntry} (hout : pc.out? = some out)
    (ret : Int) : t.ofDequeue pc (.idle (some ret)) = { t with entry := out, pc := .test ret } := by
  simp only [DequeueTry.ofDequeue, hout]

/-- What a dequeue returns is the number that it was sent as. -/
theorem Inv.returned_step (hinv : s.Inv order maxSeqNum size) {out : XRingEntry}
    (hring : XRingInv .single .single size threads)
    (hreserved : threads.log.reserved = s.threads.log.reserved)
    (hreleased : threads.log.released = s.threads.log.released + 1)
    (hlog : threads.log.delivered = s.threads.log.delivered ++ [out.payload]) :
    ∃ rest, out.data = intBytes order s.threads.log.released ++ rest := by
  have hdelivered := hring.delivered_getElem? (j := s.threads.log.released) (by omega)
  have hlength : s.threads.log.delivered.length = s.threads.log.released := by
    rw [XRingLog.delivered, List.length_map, hinv.ring.returned_length]
  rw [hlog, ← hlength, List.getElem?_concat_length, hlength] at hdelivered
  obtain ⟨⟨i, data⟩, hget, hpayload⟩ := Option.map_eq_some_iff.mp hdelivered.symm
  have hdata := hinv.sent _ i data (hreserved ▸ hget)
  have htake : out.data.take out.contentLength.toNat = data := (congrArg Prod.snd hpayload).symm
  refine ⟨out.data.drop out.contentLength.toNat, ?_⟩
  rw [← hdata, ← htake, List.take_append_drop]

theorem Inv.dequeue_step (hinv : s.Inv order maxSeqNum size) (hpc : s.dequeuer.pc = .dequeue) :
    ∃ t, s.threadDequeueTryBest order maxSeqNum = some t ∧
      DequeuerStep order maxSeqNum size s t := by
  have hok := hinv.dequeuer
  rw [DequeuerOk, hpc] at hok
  obtain ⟨hsome, hreleased, hmore⟩ := hok
  obtain ⟨out, hout⟩ := Option.isSome_iff_exists.mp hsome
  obtain ⟨threads', hcons, hring, hreserved, hpublished, hdequeue⟩ := hinv.ring.dequeue_step hout
  have hstep : s.threadDequeueTryBest order maxSeqNum = some { s with
      threads := threads'
      dequeuer := s.dequeuer.ofDequeue (s.threads.cons ()) (threads'.cons ()) } := by
    rw [threadDequeueTryBest, hpc]
    dsimp only
    rw [hcons]
    rfl
  have hprod := XRingThreads.prod_of_cons hcons
  have hsent : ∀ (k : Nat) (i : UInt32) (data : Buffer),
      threads'.log.reserved[k]? = some (i, data) → data = intBytes order k := by
    rw [hreserved]
    exact hinv.sent
  refine ⟨_, hstep, ?_⟩
  cases hdequeue with
  | goesOn hsome' _ hreleased' hleft =>
      rw [ofDequeue_of_out hsome']
      refine ⟨⟨hring, hsent, hinv.room, hinv.enqueuer.congr hprod hpublished, ?_, hinv.expVal,
        hinv.shown⟩, Or.inl hreleased', Or.inl ?_⟩
      · rw [DequeuerOk, hpc]
        exact ⟨hsome', hreleased' ▸ hreleased, hmore⟩
      · simp only [toGo, enqueuerToGo, dequeuerToGo, hpc, hprod]
        omega
  | noent hidle _ hreleased' hempty =>
      rw [hidle, ofDequeue_idle hout]
      refine ⟨⟨hring, hsent, hinv.room, hinv.enqueuer.congr hprod hpublished, ?_, hinv.expVal,
        hinv.shown⟩, Or.inl hreleased', Or.inr ⟨hpc, hempty⟩⟩
      exact ⟨⟨⟨_, hidle⟩, hreleased' ▸ hreleased⟩, hmore, hinv.ring.out_fits hout, nofun⟩
  | success hidle hlog hreleased' hlt _ hlast =>
      rw [hidle, ofDequeue_idle hout]
      refine ⟨⟨hring, hsent, hinv.room, hinv.enqueuer.congr hprod hpublished, ?_, hinv.expVal,
        hinv.shown⟩, Or.inr hlt, Or.inl ?_⟩
      · refine ⟨⟨⟨_, hidle⟩, ?_⟩, hmore, hinv.ring.out_fits hout, fun _ => ?_⟩
        · rw [hreleased', Nat.cast_succ, hreleased]
          rfl
        · rw [← hreleased]
          exact hinv.returned_step hring hreserved hreleased' hlog
      · simp only [toGo, enqueuerToGo, dequeuerToGo, hpc, hprod, hlast]
        have hzero : XRingRet.success.code = 0 := rfl
        rw [if_pos hzero]
        omega

/-- `thread_dequeue_try_best` comes nearer to its end unless it finds the ring empty. -/
theorem Inv.dequeuer_step (hinv : s.Inv order maxSeqNum size) (hmax : maxSeqNum ≤ intMax)
    (hpc : s.dequeuer.pc ≠ .returned) :
    ∃ t, s.threadDequeueTryBest order maxSeqNum = some t ∧
      DequeuerStep order maxSeqNum size s t := by
  have hok := hinv.dequeuer
  unfold DequeuerOk at hok
  cases hthread : s.dequeuer.pc with
  | dequeue => exact hinv.dequeue_step hthread
  | returned => exact absurd hthread hpc
  | exited => rw [hthread] at hok; exact hok.elim
  | crashed => rw [hthread] at hok; exact hok.elim
  | call =>
      rw [hthread] at hok
      obtain ⟨⟨⟨ret, hidle⟩, hreleased⟩, hmore, hfits⟩ := hok
      have hcall : s.threads.step .single .single (.dequeue () s.dequeuer.entry)
          = some { s.threads with
              cons := Function.update s.threads.cons () (.readHead s.dequeuer.entry) } := by
        rw [XRingThreads.step, hidle]
        exact if_pos hfits
      have hring := hinv.ring.step (fun _ => inferInstance) (fun _ => inferInstance)
        (a := .dequeue () s.dequeuer.entry) trivial hcall
      have hstep : s.threadDequeueTryBest order maxSeqNum = some { s with
          threads := { s.threads with
            cons := Function.update s.threads.cons () (.readHead s.dequeuer.entry) }
          dequeuer := { s.dequeuer with pc := .dequeue } } := by
        rw [threadDequeueTryBest, hthread]
        dsimp only
        rw [hcall]
        rfl
      refine ⟨_, hstep, ⟨hring, hinv.sent, hinv.room, hinv.enqueuer.congr rfl rfl, ⟨?_, hreleased,
        hmore⟩, hinv.expVal, hinv.shown⟩, Or.inl rfl, Or.inl ?_⟩
      · dsimp only
        rw [Function.update_self]
        rfl
      · simp only [toGo, enqueuerToGo, dequeuerToGo, hthread, Function.update_self,
          ConsPc.stepsLeft]
        omega
  | test ret =>
      rw [hthread] at hok
      obtain ⟨hrests, hmore, hfits, hread⟩ := hok
      by_cases hret : ret = 0
      · rw [if_pos hret] at hrests
        obtain ⟨rest, hdata⟩ := hread hret
        have hexp := hinv.expVal
        have htmp : readInt order s.dequeuer.entry.data = .ok s.dequeuer.expVal := by
          rw [hdata]
          exact readInt_intBytes ⟨by omega, by omega⟩ rest
        have hlength : s.dequeuer.expVal + 1
            = (s.dequeuer.shown ++ [s.dequeuer.expVal]).length := by
          rw [List.length_append, List.length_singleton, hexp]
          rfl
        have hshown : s.dequeuer.shown ++ [s.dequeuer.expVal]
            = (List.range (s.dequeuer.shown ++ [s.dequeuer.expVal]).length).map Int.ofNat := by
          rw [List.length_append, List.length_singleton, List.range_succ, List.map_append, hexp,
            ← hinv.shown]
          rfl
        by_cases hlast : s.dequeuer.expVal + 1 ≥ maxSeqNum
        · have hend : s.dequeuer.expVal + 1 = maxSeqNum := by omega
          have hstep : s.threadDequeueTryBest order maxSeqNum = some { s with
              dequeuer := { s.dequeuer with
                expVal := s.dequeuer.expVal + 1
                shown := s.dequeuer.shown ++ [s.dequeuer.expVal]
                pc := .returned } } := by
            rw [threadDequeueTryBest, hthread]
            dsimp only
            rw [if_neg (not_not.mpr hret), htmp]
            dsimp only
            rw [if_neg (not_not.mpr rfl), if_pos hlast]
          refine ⟨_, hstep, { hinv with
            dequeuer := ⟨hend ▸ hrests, hend⟩, expVal := hlength, shown := hshown }, Or.inl rfl,
            Or.inl ?_⟩
          simp only [toGo, enqueuerToGo, dequeuerToGo, hthread, if_pos hret]
          omega
        · have hstep : s.threadDequeueTryBest order maxSeqNum = some { s with
              dequeuer := { s.dequeuer with
                expVal := s.dequeuer.expVal + 1
                tries := 0
                shown := s.dequeuer.shown ++ [s.dequeuer.expVal]
                pc := .call } } := by
            rw [threadDequeueTryBest, hthread]
            dsimp only
            rw [if_neg (not_not.mpr hret), htmp]
            dsimp only
            rw [if_neg (not_not.mpr rfl), if_neg hlast]
          refine ⟨_, hstep, { hinv with
            dequeuer := ⟨hrests, not_le.mp hlast, hfits⟩, expVal := hlength, shown := hshown },
            Or.inl rfl, Or.inl ?_⟩
          simp only [toGo, enqueuerToGo, dequeuerToGo, hthread, if_pos hret]
          omega
      · rw [if_neg hret] at hrests
        have hstep : s.threadDequeueTryBest order maxSeqNum = some { s with
            dequeuer := { s.dequeuer with tries := retry s.dequeuer.tries, pc := .call } } := by
          rw [threadDequeueTryBest, hthread]
          exact if_pos hret
        refine ⟨_, hstep, { hinv with dequeuer := ⟨hrests, hmore, hfits⟩ }, Or.inl rfl, Or.inl ?_⟩
        simp only [toGo, enqueuerToGo, dequeuerToGo, hthread, if_neg hret]
        omega

end Steps

/-! ### Runs -/

structure Ended (s : TryBest) : Prop where
  enqueuer : s.enqueuer.pc = .returned
  dequeuer : s.dequeuer.pc = .returned

instance (s : TryBest) : Decidable s.Ended :=
  decidable_of_iff (s.enqueuer.pc = .returned ∧ s.dequeuer.pc = .returned)
    ⟨fun h => ⟨h.1, h.2⟩, fun h => ⟨h.enqueuer, h.dequeuer⟩⟩

section Runs

variable {size : Nat} {s t : TryBest}

theorem Inv.published_bounds (hinv : s.Inv order maxSeqNum size) :
    s.enqueuer.i ≤ s.threads.log.published ∧ s.threads.log.published ≤ s.enqueuer.i + 1 := by
  have hok := hinv.enqueuer
  unfold EnqueuerOk at hok
  cases hpc : s.enqueuer.pc with
  | store => rw [hpc] at hok; have hnow := hok.1.published; omega
  | call => rw [hpc] at hok; have hnow := hok.1.published; omega
  | enqueue => rw [hpc] at hok; have hnow := hok.2.1; omega
  | test ret => rw [hpc] at hok; have hnow := hok.1.published; split at hnow <;> omega
  | returned => rw [hpc] at hok; have hnow := hok.1.published; have hend := hok.2; omega
  | crashed => rw [hpc] at hok; exact hok.elim

theorem Inv.released_bounds (hinv : s.Inv order maxSeqNum size) :
    s.dequeuer.expVal ≤ s.threads.log.released ∧
      s.threads.log.released ≤ s.dequeuer.expVal + 1 := by
  have hok := hinv.dequeuer
  unfold DequeuerOk at hok
  cases hpc : s.dequeuer.pc with
  | call => rw [hpc] at hok; have hnow := hok.1.released; omega
  | dequeue => rw [hpc] at hok; have hnow := hok.2.1; omega
  | test ret => rw [hpc] at hok; have hnow := hok.1.released; split at hnow <;> omega
  | returned => rw [hpc] at hok; have hnow := hok.1.released; have hend := hok.2; omega
  | exited => rw [hpc] at hok; exact hok.elim
  | crashed => rw [hpc] at hok; exact hok.elim

theorem Inv.not_exited (hinv : s.Inv order maxSeqNum size) : s.dequeuer.pc ≠ .exited := by
  intro hpc
  have hok := hinv.dequeuer
  rw [DequeuerOk, hpc] at hok
  exact hok

theorem Inv.no_crash (hinv : s.Inv order maxSeqNum size) (fault : Fault) :
    s.enqueuer.pc ≠ .crashed fault ∧ s.dequeuer.pc ≠ .crashed fault := by
  constructor
  · intro hpc
    have hok := hinv.enqueuer
    rw [EnqueuerOk, hpc] at hok
    exact hok
  · intro hpc
    have hok := hinv.dequeuer
    rw [DequeuerOk, hpc] at hok
    exact hok

/-- What one thread has taken out and the other put in when they have returned. -/
theorem Inv.ended (hinv : s.Inv order maxSeqNum size) (hended : s.Ended) :
    s.threads.log.released = maxSeqNum ∧ s.dequeuer.expVal = maxSeqNum := by
  have hok := hinv.dequeuer
  rw [DequeuerOk, hended.dequeuer] at hok
  exact ⟨hok.1.released, hok.2⟩

theorem Inv.step_enqueuer (hinv : s.Inv order maxSeqNum size) :
    s.step order maxSeqNum .enqueuer = s.threadEnqueueTryBest order maxSeqNum :=
  if_neg hinv.not_exited

theorem Inv.step_dequeuer (hinv : s.Inv order maxSeqNum size) :
    s.step order maxSeqNum .dequeuer = s.threadDequeueTryBest order maxSeqNum :=
  if_neg hinv.not_exited

/-- **The step lemma.** -/
theorem Inv.step (hinv : s.Inv order maxSeqNum size) (hmax : maxSeqNum ≤ intMax) {a : TryBestAct}
    (hstep : s.step order maxSeqNum a = some t) :
    t.Inv order maxSeqNum size ∧ (t.threads.log.released = s.threads.log.released ∨
      s.threads.log.released < s.threads.log.published) := by
  cases a with
  | enqueuer =>
      rw [hinv.step_enqueuer] at hstep
      have hpc : s.enqueuer.pc ≠ .returned := by
        intro hpc
        simp only [threadEnqueueTryBest, hpc] at hstep
        cases hstep
      obtain ⟨t', hstep', hafter⟩ := hinv.enqueuer_step hpc
      cases hstep.symm.trans hstep'
      exact ⟨hafter.inv, Or.inl hafter.released⟩
  | dequeuer =>
      rw [hinv.step_dequeuer] at hstep
      have hpc : s.dequeuer.pc ≠ .returned := by
        intro hpc
        simp only [threadDequeueTryBest, hpc] at hstep
        cases hstep
      obtain ⟨t', hstep', hafter⟩ := hinv.dequeuer_step hmax hpc
      cases hstep.symm.trans hstep'
      exact ⟨hafter.inv, hafter.released⟩

/-- Unless both threads have returned, one of them can step, and comes nearer to its end. -/
theorem Inv.progress (hinv : s.Inv order maxSeqNum size) (hmax : maxSeqNum ≤ intMax)
    (hsize : 2 ≤ size) (hnot : ¬s.Ended) :
    ∃ a t, s.step order maxSeqNum a = some t ∧ t.Inv order maxSeqNum size ∧
      t.toGo maxSeqNum < s.toGo maxSeqNum := by
  by_cases hwaits : s.dequeuer.pc = .returned ∨
      s.dequeuer.pc = .dequeue ∧ s.threads.log.published = s.threads.log.released
  · have hreturned : s.enqueuer.pc ≠ .returned := by
      intro hpc
      have hok := hinv.enqueuer
      rw [EnqueuerOk, hpc] at hok
      have hall := hok.1.published
      rcases hwaits with hend | ⟨hthread, hempty⟩
      · exact hnot ⟨hpc, hend⟩
      · have hnext := hinv.dequeuer
        rw [DequeuerOk, hthread] at hnext
        have hmore := hnext.2.2
        have hreleased := hnext.2.1
        omega
    obtain ⟨t, hstep, hafter⟩ := hinv.enqueuer_step hreturned
    refine ⟨.enqueuer, t, hinv.step_enqueuer.trans hstep, hafter.inv, ?_⟩
    refine hafter.less.resolve_right ?_
    rintro ⟨hpc, hfull⟩
    have hok := hinv.enqueuer
    rw [EnqueuerOk, hpc] at hok
    have hmore := hok.2.2.more
    have hpublished := hok.2.1
    have hle := hinv.ring.at_log.released_le.trans hinv.ring.at_log.claimed_le
    rcases hwaits with hend | ⟨_, hempty⟩
    · have hnext := hinv.dequeuer
      rw [DequeuerOk, hend] at hnext
      have hall := hnext.1.released
      omega
    · omega
  · obtain ⟨hreturned, hwaits⟩ := not_or.mp hwaits
    obtain ⟨t, hstep, hafter⟩ := hinv.dequeuer_step hmax hreturned
    exact ⟨.dequeuer, t, hinv.step_dequeuer.trans hstep, hafter.inv,
      hafter.less.resolve_right hwaits⟩

/-- What the test can rely on in a state. -/
structure Passes (maxSeqNum : Int) (size : Nat) (s : TryBest) : Prop where
  shown : s.dequeuer.shown = (List.range s.dequeuer.shown.length).map Int.ofNat
  not_exited : s.dequeuer.pc ≠ .exited
  no_crash : ∀ fault, s.enqueuer.pc ≠ .crashed fault ∧ s.dequeuer.pc ≠ .crashed fault
  ahead : s.enqueuer.i ≤ s.dequeuer.shown.length + size
  behind : s.dequeuer.shown.length ≤ s.enqueuer.i + 1
  all : s.Ended → s.dequeuer.shown = (List.range maxSeqNum.toNat).map Int.ofNat

theorem Inv.passes (hinv : s.Inv order maxSeqNum size) : s.Passes maxSeqNum size := by
  have hpublished := hinv.published_bounds
  have hreleased := hinv.released_bounds
  have hexp := hinv.expVal
  have hat := hinv.ring.at_log
  have hle := hat.released_le.trans (hat.claimed_le.trans hat.published_le)
  have hroom := hat.published_le.trans_lt hat.reserved_lt
  have hbelow := hat.released_le.trans hat.claimed_le
  constructor
  case shown => exact hinv.shown
  case not_exited => exact hinv.not_exited
  case no_crash => exact hinv.no_crash
  case ahead => omega
  case behind => omega
  case all =>
    intro hended
    have hall := (hinv.ended hended).2
    rw [hinv.shown, ← hall, hexp, Int.toNat_natCast]

end Runs

end TryBest

variable {garbage : Nat → Int} {count : UInt32} {ringbufSize : Int} {r : XRing}

theorem tryBest_inv_start (hmade : xRingCreate garbage count ringbufSize = .ok r)
    (hpos : 1 ≤ count.toNat) (hle : count.toNat ≤ 2 ^ 31) (hmax : 1 ≤ maxSeqNum) :
    (TryBest.start r).Inv order maxSeqNum r.size.toNat := by
  have hfits : (⟨20, 0, List.replicate 20 none⟩ : XRingEntry).Fits := by decide
  constructor
  case ring => exact xRingInv_start _ _ hmade hpos hle
  case sent =>
    intro k i data hget
    cases hget
  case room => rfl
  case enqueuer => exact ⟨⟨⟨_, rfl⟩, rfl⟩, hmax⟩
  case dequeuer => exact ⟨⟨⟨_, rfl⟩, rfl⟩, hmax, hfits⟩
  case expVal => rfl
  case shown => rfl

theorem tryBest_inv_run (hmade : xRingCreate garbage count ringbufSize = .ok r)
    (hpos : 1 ≤ count.toNat) (hle : count.toNat ≤ 2 ^ 31)
    (hmax : 1 ≤ maxSeqNum ∧ maxSeqNum ≤ intMax) {as : List TryBestAct} {s : TryBest}
    (hrun : run (TryBest.step order maxSeqNum) (.start r) as = some s) :
    s.Inv order maxSeqNum r.size.toNat :=
  run_invariant (fun _ _ _ hinv hstep => (hinv.step hmax.2 hstep).1)
    (tryBest_inv_start hmade hpos hle hmax.1) hrun

/-- **The test passes.** In every order of the steps the values read are 0, 1, 2 and so on, neither
thread runs into undefined behaviour or `exit(1)`, and the first is never further ahead than the ring is
large; when both have returned, every value has been read. -/
theorem tryBest_passes (hmade : xRingCreate garbage count ringbufSize = .ok r)
    (hpos : 1 ≤ count.toNat) (hle : count.toNat ≤ 2 ^ 31)
    (hmax : 1 ≤ maxSeqNum ∧ maxSeqNum ≤ intMax) (as : List TryBestAct) (s : TryBest)
    (hrun : run (TryBest.step order maxSeqNum) (.start r) as = some s) :
    s.Passes maxSeqNum r.size.toNat :=
  (tryBest_inv_run hmade hpos hle hmax hrun).passes

/-- Both threads, one after the other, with one value: ten steps and nine. -/
def tryBestOne : List TryBestAct := List.replicate 10 .enqueuer ++ List.replicate 9 .dequeuer

theorem tryBestOne_ends : ∃ s ∈ run (TryBest.step .little 1) (.start ringOfTwo) tryBestOne,
    s.Ended ∧ s.dequeuer.shown = [0] := by decide +kernel

theorem tryBest_passes_one : ∃ s, run (TryBest.step .little 1) (.start ringOfTwo) tryBestOne = some s ∧
    s.Ended ∧ s.Passes 1 2 := by
  obtain ⟨s, hs, hended, _⟩ := tryBestOne_ends
  exact ⟨s, hs, hended, tryBest_passes xRingCreate_two (by decide) (by decide) (by decide) _ s hs⟩

/-- With a single slot nothing is ever taken out, since nothing can be put in. -/
theorem TryBest.Inv.never_ends {s t : TryBest} {as : List TryBestAct}
    (hinv : s.Inv order maxSeqNum 1) (hnone : s.threads.log.released = 0)
    (hmax : 1 ≤ maxSeqNum ∧ maxSeqNum ≤ intMax)
    (hrun : run (TryBest.step order maxSeqNum) s as = some t) : ¬t.Ended := by
  have hstep : ∀ (s : TryBest) a t, s.Inv order maxSeqNum 1 ∧ s.threads.log.released = 0 →
      s.step order maxSeqNum a = some t → t.Inv order maxSeqNum 1 ∧ t.threads.log.released = 0 := by
    rintro s a t ⟨hinv, hnone⟩ hstep
    obtain ⟨hinv', hsame | hmore⟩ := hinv.step hmax.2 hstep
    · exact ⟨hinv', hsame.trans hnone⟩
    · have hroom := hinv.ring.at_log.reserved_lt
      have hle := hinv.ring.at_log.published_le
      omega
  obtain ⟨hinv', hnone'⟩ := run_invariant hstep ⟨hinv, hnone⟩ hrun
  intro hended
  have hall := (hinv'.ended hended).1
  omega

theorem two_le_ringSize_iff (hpos : 1 ≤ count.toNat) : 2 ≤ ringSize count ↔ 2 ≤ count.toNat := by
  constructor
  · intro hsize
    by_contra hone
    have hcount : count.toNat = 1 := by omega
    rw [ringSize, hcount, Nat.clog_one_right] at hsize
    omega
  · exact fun hcount => hcount.trans (isLeast_ringSize count).1.2

/-- **The test can end.** It is stuck in no state but its end, and there is a way on to this from
every state, if and only if the ring is made for more than one entry. -/
theorem tryBest_ends_iff (hmade : xRingCreate garbage count ringbufSize = .ok r)
    (hpos : 1 ≤ count.toNat) (hle : count.toNat ≤ 2 ^ 31)
    (hmax : 1 ≤ maxSeqNum ∧ maxSeqNum ≤ intMax) (as : List TryBestAct) (s : TryBest)
    (hrun : run (TryBest.step order maxSeqNum) (.start r) as = some s) :
    ((∀ a, s.step order maxSeqNum a = none) → s.Ended) ∧
      ((∃ bs t, run (TryBest.step order maxSeqNum) s bs = some t ∧ t.Ended) ↔ 2 ≤ count.toNat) := by
  have hinv := tryBest_inv_run hmade hpos hle hmax hrun
  obtain ⟨_, size, rfl, hsize⟩ := made_in_range hmade hpos hle
  change s.Inv order maxSeqNum size.toNat at hinv
  rw [hsize] at hinv
  refine ⟨fun hstuck => ?_, ?_⟩
  · by_contra hnot
    by_cases hpc : s.enqueuer.pc = .returned
    · have hpc' : s.dequeuer.pc ≠ .returned := fun hpc' => hnot ⟨hpc, hpc'⟩
      obtain ⟨t, hstep, _⟩ := hinv.dequeuer_step hmax.2 hpc'
      cases (hinv.step_dequeuer.trans hstep).symm.trans (hstuck .dequeuer)
    · obtain ⟨t, hstep, _⟩ := hinv.enqueuer_step hpc
      cases (hinv.step_enqueuer.trans hstep).symm.trans (hstuck .enqueuer)
  · rw [← two_le_ringSize_iff hpos]
    constructor
    · rintro ⟨bs, t, hmore, hended⟩
      by_contra hsmall
      have hone : ringSize count = 1 := by
        have hleast := (isLeast_ringSize count).1.2
        change count.toNat ≤ ringSize count at hleast
        omega
      have hstart : (TryBest.start (newRing garbage ringbufSize size)).Inv order maxSeqNum
          size.toNat := tryBest_inv_start hmade hpos hle hmax.1
      rw [hsize, hone] at hstart
      have hwhole : run (TryBest.step order maxSeqNum) (.start (newRing garbage ringbufSize size))
          (as ++ bs) = some t := by
        rw [run_append, hrun]
        exact hmore
      exact hstart.never_ends rfl hmax hwhole hended
    · intro hlarge
      have hnearer : ∀ s : TryBest, s.Inv order maxSeqNum (ringSize count) → ¬s.Ended →
          ∃ a t, True ∧ s.step order maxSeqNum a = some t ∧
            t.Inv order maxSeqNum (ringSize count) ∧ t.toGo maxSeqNum < s.toGo maxSeqNum := by
        intro s hinv hnot
        obtain ⟨a, t, hstep⟩ := hinv.progress hmax.2 hlarge hnot
        exact ⟨a, t, trivial, hstep⟩
      obtain ⟨bs, t, _, hrest, _, hended⟩ := exists_run_done (TryBest.toGo maxSeqNum) hnearer hinv
      exact ⟨bs, t, hrest, hended⟩

/-- After the first value is in the ring. -/
theorem tryBest_ends_iff_one : ∃ s, run (TryBest.step .little 1) (.start ringOfTwo)
      (List.replicate 10 .enqueuer) = some s ∧
    ((∀ a, s.step .little 1 a = none) → s.Ended) ∧
      ∃ bs t, run (TryBest.step .little 1) s bs = some t ∧ t.Ended := by
  have hrun : ∃ s ∈ run (TryBest.step .little 1) (.start ringOfTwo) (List.replicate 10 .enqueuer),
      s.enqueuer.pc = .returned := by decide +kernel
  obtain ⟨s, hs, _⟩ := hrun
  obtain ⟨hstuck, hends⟩ :=
    tryBest_ends_iff xRingCreate_two (by decide) (by decide) (by decide) _ s hs
  exact ⟨s, hs, hstuck, hends.mpr (by decide)⟩

end Gittest
