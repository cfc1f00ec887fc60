import Gittest.Proof.XRingHistory
import Gittest.XRingSafety

/-!
# One step of a call

What a step of the one consumer, or of the one producer, of a ring makes of it: the call goes on, it
turns its caller away, or it returns with an entry taken out or put in.
-/

namespace Gittest

variable {P C : Type}

/-- How many steps a dequeue has before it if it finds an entry. -/
def ConsPc.stepsLeft : ConsPc → Nat
  | .readHead _ => 8
  | .readTail _ _ => 7
  | .reserve _ _ _ => 6
  | .drain .grow _ _ _ => 5
  | .drain .copy _ _ _ => 4
  | .drain .setLength _ _ _ => 3
  | .drain .awaitTail _ _ _ => 2
  | .drain .release _ _ _ => 1
  | .idle _ => 0
  | .crashed _ => 0

/-- How many steps an enqueue has before it if it finds an empty slot. -/
def ProdPc.stepsLeft : ProdPc → Nat
  | .readHead _ => 8
  | .readTail _ _ => 7
  | .reserve _ _ _ => 6
  | .fill .grow _ _ _ => 5
  | .fill .copy _ _ _ => 4
  | .fill .setLength _ _ _ => 3
  | .fill .awaitTail _ _ _ => 2
  | .fill .publish _ _ _ => 1
  | .idle _ => 0
  | .crashed _ => 0

/-! ### One step of a dequeue -/

/-- What a step of the consumer, whose entry is `out`, makes of the state. -/
inductive DequeueStep (threads threads' : XRingThreads P Unit) (out : XRingEntry) : Prop where
  | goesOn (hcons : (threads'.cons ()).out?.isSome) (hlog : threads'.log.returned = threads.log.returned)
      (hreleased : threads'.log.released = threads.log.released)
      (hleft : (threads'.cons ()).stepsLeft < (threads.cons ()).stepsLeft)
  | noent (hcons : threads'.cons () = .idle (some (-XRingRet.noent.code)))
      (hlog : threads'.log.returned = threads.log.returned)
      (hreleased : threads'.log.released = threads.log.released)
      (hempty : threads.log.published = threads.log.released)
  | success (hcons : threads'.cons () = .idle (some XRingRet.success.code))
      (hlog : threads'.log.delivered = threads.log.delivered ++ [out.payload])
      (hreleased : threads'.log.released = threads.log.released + 1)
      (hsome : threads.log.released < threads.log.published)
      (hfilled : out.Filled) (hlast : (threads.cons ()).stepsLeft = 1)

section Dequeue

variable [DecidableEq P] {prodMode : XRingMode} {size : Nat} {threads : XRingThreads P Unit}
  {out : XRingEntry}

theorem ConsPc.read_cases (next : XRingEntry → ConsPc) (readout : Except Fault XRingEntry) :
    (∃ out, read next readout = next out) ∨ ∃ fault, read next readout = .crashed fault := by
  cases readout with
  | ok out => exact Or.inl ⟨out, rfl⟩
  | error fault => exact Or.inr ⟨fault, rfl⟩

theorem XRingInv.cons_next (hinv : XRingInv prodMode .single size threads) {ring : XRing}
    {pc pc' : ConsPc} (hpc : threads.cons () = pc)
    (hlocal : pc.step .single threads.ring = some (ring, pc')) :
    ∃ threads', threads.step prodMode .single (.cons ()) = some threads' ∧
      XRingInv prodMode .single size threads' ∧ threads'.cons () = pc' ∧
      threads'.log = threads.log.recordCons () pc pc' := by
  have hstep : threads.step prodMode .single (.cons ()) = some { threads with
      ring := ring
      cons := Function.update threads.cons () pc'
      log := threads.log.recordCons () pc pc' } := by
    rw [XRingThreads.step, hpc, hlocal]
    rfl
  have hfresh : threads.Fresh prodMode .single (.cons ()) := by
    intro hmode
    cases hmode
  have hinv' := hinv.cons_step (fun _ => inferInstance) hfresh hstep
  exact ⟨_, hstep, hinv', Function.update_self () pc' threads.cons, rfl⟩

omit [DecidableEq P] in
theorem XRingInv.out_fits (hinv : XRingInv prodMode .single size threads)
    (hout : (threads.cons ()).out? = some out) : out.Fits := by
  have hok := hinv.conss ()
  cases hpc : threads.cons () with
  | idle => rw [hpc] at hout; cases hout
  | crashed => rw [hpc] at hout; cases hout
  | readHead => rw [hpc] at hout hok; cases hout; exact hok.1
  | readTail => rw [hpc] at hout hok; cases hout; exact hok.1
  | reserve => rw [hpc] at hout hok; cases hout; exact hok.1
  | drain => rw [hpc] at hout hok; cases hout; exact hok.1

/-- A step with which no entry is returned and no slot given back. -/
theorem XRingInv.goes_on (hinv : XRingInv prodMode .single size threads) {ring : XRing}
    {pc pc' : ConsPc} (hpc : threads.cons () = pc)
    (hlocal : pc.step .single threads.ring = some (ring, pc')) (hsome : pc'.out?.isSome)
    (hleft : pc'.stepsLeft < pc.stepsLeft)
    (hput : (threads.log.recordCons () pc pc').reserved = threads.log.reserved ∧
      (threads.log.recordCons () pc pc').published = threads.log.published)
    (htaken : (threads.log.recordCons () pc pc').returned = threads.log.returned ∧
      (threads.log.recordCons () pc pc').released = threads.log.released) :
    ∃ threads', threads.step prodMode .single (.cons ()) = some threads' ∧
      XRingInv prodMode .single size threads' ∧ threads'.log.reserved = threads.log.reserved ∧
      threads'.log.published = threads.log.published ∧ DequeueStep threads threads' out := by
  obtain ⟨threads', hstep, hinv', hcons, hlog⟩ := hinv.cons_next hpc hlocal
  rw [← hlog] at hput htaken
  refine ⟨threads', hstep, hinv', hput.1, hput.2, .goesOn ?_ htaken.1 htaken.2 ?_⟩
  · rw [hcons]
    exact hsome
  · rw [hcons, hpc]
    exact hleft

/-- An access to the slot succeeds, and the dequeue goes on. -/
theorem XRingInv.read_next (hinv : XRingInv prodMode .single size threads) {pc : ConsPc}
    {next : XRingEntry → ConsPc} {readout : Except Fault XRingEntry} (hpc : threads.cons () = pc)
    (hlocal : pc.step .single threads.ring = some (threads.ring, ConsPc.read next readout))
    (hnext : ∀ out, (next out).out?.isSome ∧ (next out).stepsLeft < pc.stepsLeft ∧
      threads.log.recordCons () pc (next out) = threads.log) :
    ∃ threads', threads.step prodMode .single (.cons ()) = some threads' ∧
      XRingInv prodMode .single size threads' ∧ threads'.log.reserved = threads.log.reserved ∧
      threads'.log.published = threads.log.published ∧ DequeueStep threads threads' out := by
  rcases ConsPc.read_cases next readout with ⟨out', hread⟩ | ⟨fault, hread⟩
  · obtain ⟨hsome, hleft, hsame⟩ := hnext out'
    rw [hread] at hlocal
    apply hinv.goes_on hpc hlocal hsome hleft
    · rw [hsame]
      exact ⟨rfl, rfl⟩
    · rw [hsame]
      exact ⟨rfl, rfl⟩
  · obtain ⟨threads', _, hinv', hcons, _⟩ := hinv.cons_next hpc hlocal
    rw [hread] at hcons
    exact absurd hcons ((hinv'.not_crashed fault).2 ())

theorem XRingInv.dequeue_step (hinv : XRingInv prodMode .single size threads)
    (hout : (threads.cons ()).out? = some out) :
    ∃ threads', threads.step prodMode .single (.cons ()) = some threads' ∧
      XRingInv prodMode .single size threads' ∧ threads'.log.reserved = threads.log.reserved ∧
      threads'.log.published = threads.log.published ∧ DequeueStep threads threads' out := by
  have hok := hinv.conss ()
  cases hpc : threads.cons () with
  | idle => rw [hpc] at hout; cases hout
  | crashed => rw [hpc] at hout; cases hout
  | readHead entry =>
      exact hinv.goes_on hpc rfl rfl (Nat.lt_succ_self 7) ⟨rfl, rfl⟩ ⟨rfl, rfl⟩
  | readTail entry consHead =>
      rw [hpc] at hok
      obtain ⟨hclaimed, hhead⟩ := hok.2 rfl
      by_cases hempty : consHead = threads.ring.prodTail
      · obtain ⟨threads', hstep, hinv', hcons, hlog⟩ := hinv.cons_next hpc (if_pos hempty)
        have hsame : threads'.log = threads.log := hlog
        have hnone := hinv.at_log.empty_iff.mp (hhead ▸ hempty)
        exact ⟨threads', hstep, hinv', by rw [hsame], by rw [hsame],
          .noent hcons (by rw [hsame]) (by rw [hsame]) (by omega)⟩
      · exact hinv.goes_on hpc (if_neg hempty) rfl (Nat.lt_succ_self 6) ⟨rfl, rfl⟩ ⟨rfl, rfl⟩
  | reserve entry consHead consNext =>
      exact hinv.goes_on hpc rfl rfl (Nat.lt_succ_self 5) ⟨rfl, rfl⟩ ⟨rfl, rfl⟩
  | drain step entry consHead consNext =>
      cases step with
      | grow => exact hinv.read_next hpc rfl fun _ => ⟨rfl, Nat.lt_succ_self 4, rfl⟩
      | copy => exact hinv.read_next hpc rfl fun _ => ⟨rfl, Nat.lt_succ_self 3, rfl⟩
      | setLength => exact hinv.read_next hpc rfl fun _ => ⟨rfl, show 1 < 3 by decide, rfl⟩
      | awaitTail =>
          rw [hpc] at hok
          obtain ⟨_, _, hone, htoNat, hle, hlt, _⟩ := hok
          have hlast := hone rfl
          have hticket : threads.log.ticket () = threads.log.released := by omega
          have hturn : threads.ring.consTail = consHead := by
            apply UInt32.toNat_inj.mp
            rw [hinv.at_log.consTail, htoNat, hticket]
          exact hinv.goes_on hpc (if_neg (not_not.mpr hturn)) rfl (Nat.lt_succ_self 1) ⟨rfl, rfl⟩
            ⟨rfl, rfl⟩
      | release =>
          rw [hpc] at hok hout
          cases hout
          obtain ⟨_, _, hone, _, _, _, i, data, _, hpayload, _⟩ := hok
          have hclaimed := hinv.at_log.claimed_le
          have hlast := hone rfl
          obtain ⟨threads', hstep, hinv', hcons, hlog⟩ := hinv.cons_next hpc rfl
          refine ⟨threads', hstep, hinv', by rw [hlog]; rfl, by rw [hlog]; rfl,
            .success hcons ?_ (by rw [hlog]; rfl) (by omega)
              (XRingEntry.filled_of_payload hpayload) (by rw [hpc]; rfl)⟩
          rw [hlog]
          exact List.map_append

end Dequeue

theorem XRingThreads.prod_of_cons [DecidableEq P] [DecidableEq C] {prodMode consMode : XRingMode}
    {threads threads' : XRingThreads P C} {c : C}
    (hstep : threads.step prodMode consMode (.cons c) = some threads') :
    threads'.prod = threads.prod := by
  obtain ⟨_, _, rfl⟩ := Option.map_eq_some_iff.mp hstep
  rfl

/-! ### One step of an enqueue -/

/-- What a step of the producer, whose data are `data`, makes of the state. -/
inductive EnqueueStep (size : Nat) (threads threads' : XRingThreads Unit C) (data : Buffer) :
    Prop where
  | goesOn (hprod : (threads'.prod ()).data? = some data)
      (hpublished : threads'.log.published = threads.log.published)
      (hreserved : threads'.log.reserved = threads.log.reserved ∨
        ∃ i, threads'.log.reserved = threads.log.reserved ++ [(i, data)] ∧
          threads.log.published = threads.log.reserved.length)
      (hleft : (threads'.prod ()).stepsLeft < (threads.prod ()).stepsLeft)
  | nospace (hprod : threads'.prod () = .idle (some (-XRingRet.nospace.code)))
      (hpublished : threads'.log.published = threads.log.published)
      (hreserved : threads'.log.reserved = threads.log.reserved)
      (hfull : threads.log.published + 1 = threads.log.released + size)
  | success (hprod : threads'.prod () = .idle (some XRingRet.success.code))
      (hpublished : threads'.log.published = threads.log.published + 1)
      (hreserved : threads'.log.reserved = threads.log.reserved)
      (hlast : (threads.prod ()).stepsLeft = 1)

section Enqueue

variable [DecidableEq C] {consMode : XRingMode} {size : Nat} {threads : XRingThreads Unit C}
  {data : Buffer}

theorem XRingInv.prod_next (hinv : XRingInv .single consMode size threads) {ring : XRing}
    {pc pc' : ProdPc} (hpc : threads.prod () = pc)
    (hlocal : pc.step .single threads.ring = some (ring, pc')) :
    ∃ threads', threads.step .single consMode (.prod ()) = some threads' ∧
      XRingInv .single consMode size threads' ∧ threads'.prod () = pc' ∧
      threads'.cons = threads.cons ∧ threads'.log = threads.log.recordProd pc pc' := by
  have hstep : threads.step .single consMode (.prod ()) = some { threads with
      ring := ring
      prod := Function.update threads.prod () pc'
      log := threads.log.recordProd pc pc' } := by
    rw [XRingThreads.step, hpc, hlocal]
    rfl
  have hfresh : threads.Fresh .single consMode (.prod ()) := by
    intro hmode
    cases hmode
  have hinv' := hinv.prod_step (fun _ => inferInstance) hfresh hstep
  exact ⟨_, hstep, hinv', Function.update_self () pc' threads.prod, rfl, rfl⟩

/-- The step of an enqueue that fills its slot. -/
theorem XRingInv.fill_next (hinv : XRingInv .single consMode size threads) {step step' : FillStep}
    {i next : UInt32} {written : Except Fault XRing} (hpc : threads.prod () = .fill step data i next)
    (hlocal : (ProdPc.fill step data i next).step .single threads.ring =
      some (ProdPc.write threads.ring (.fill step' data i next) written))
    (hleft : (ProdPc.fill step' data i next).stepsLeft < (ProdPc.fill step data i next).stepsLeft)
    (hsame : threads.log.recordProd (.fill step data i next) (.fill step' data i next)
      = threads.log) :
    ∃ threads', threads.step .single consMode (.prod ()) = some threads' ∧
      XRingInv .single consMode size threads' ∧ threads'.cons = threads.cons ∧
      threads'.log.released = threads.log.released ∧ EnqueueStep size threads threads' data := by
  cases written with
  | error fault =>
      obtain ⟨threads', _, hinv', hprod, _⟩ := hinv.prod_next hpc hlocal
      exact absurd hprod ((hinv'.not_crashed fault).1 ())
  | ok ring =>
      obtain ⟨threads', hstep, hinv', hprod, hcons, hlog⟩ := hinv.prod_next hpc hlocal
      rw [hsame] at hlog
      refine ⟨threads', hstep, hinv', hcons, by rw [hlog], .goesOn ?_ (by rw [hlog])
        (Or.inl (by rw [hlog])) ?_⟩
      · rw [hprod]
        rfl
      · rw [hprod, hpc]
        exact hleft

theorem XRingInv.enqueue_step (hinv : XRingInv .single consMode size threads)
    (hdata : (threads.prod ()).data? = some data) :
    ∃ threads', threads.step .single consMode (.prod ()) = some threads' ∧
      XRingInv .single consMode size threads' ∧ threads'.cons = threads.cons ∧
      threads'.log.released = threads.log.released ∧ EnqueueStep size threads threads' data := by
  have hok := hinv.prods ()
  cases hpc : threads.prod () with
  | idle => rw [hpc] at hdata; cases hdata
  | crashed => rw [hpc] at hdata; cases hdata
  | readHead data' =>
      rw [hpc] at hdata
      cases hdata
      obtain ⟨threads', hstep, hinv', hprod, hcons, hlog⟩ := hinv.prod_next hpc rfl
      have hsame : threads'.log = threads.log := hlog
      exact ⟨threads', hstep, hinv', hcons, by rw [hsame], .goesOn (by rw [hprod]; rfl)
        (by rw [hsame]) (Or.inl (by rw [hsame])) (by rw [hprod, hpc]; exact Nat.lt_succ_self 7)⟩
  | readTail data' prodHead =>
      rw [hpc] at hdata hok
      cases hdata
      obtain ⟨hpublished, hhead⟩ := hok rfl
      by_cases hfull : (prodHead + 1) &&& threads.ring.mask = threads.ring.consTail
      · obtain ⟨threads', hstep, hinv', hprod, hcons, hlog⟩ := hinv.prod_next hpc (if_pos hfull)
        have hsame : threads'.log = threads.log := hlog
        have hlap := hinv.at_log.full_iff.mp (hhead ▸ hfull)
        exact ⟨threads', hstep, hinv', hcons, by rw [hsame],
          .nospace hprod (by rw [hsame]) (by rw [hsame]) (by omega)⟩
      · obtain ⟨threads', hstep, hinv', hprod, hcons, hlog⟩ := hinv.prod_next hpc (if_neg hfull)
        have hsame : threads'.log = threads.log := hlog
        exact ⟨threads', hstep, hinv', hcons, by rw [hsame], .goesOn (by rw [hprod]; rfl)
          (by rw [hsame]) (Or.inl (by rw [hsame])) (by rw [hprod, hpc]; exact Nat.lt_succ_self 6)⟩
  | reserve data' prodHead prodNext =>
      rw [hpc] at hdata hok
      cases hdata
      obtain ⟨threads', hstep, hinv', hprod, hcons, hlog⟩ := hinv.prod_next hpc rfl
      exact ⟨threads', hstep, hinv', hcons, by rw [hlog]; rfl, .goesOn (by rw [hprod]; rfl)
        (by rw [hlog]; rfl) (Or.inr ⟨prodHead, by rw [hlog]; rfl, (hok.2 rfl).1⟩)
        (by rw [hprod, hpc]; exact Nat.lt_succ_self 5)⟩
  | fill step data' prodHead prodNext =>
      rw [hpc] at hdata
      cases hdata
      cases step with
      | grow => exact hinv.fill_next hpc rfl (Nat.lt_succ_self 4) rfl
      | copy => exact hinv.fill_next hpc rfl (Nat.lt_succ_self 3) rfl
      | setLength => exact hinv.fill_next hpc rfl (show 1 < 3 by decide) rfl
      | awaitTail =>
          obtain ⟨_, hone, k, hle, hlt, htoNat, _⟩ := hinv.exists_fill hpc
          have hlast := hone rfl
          have holdest : k = threads.log.published := by omega
          have hturn : threads.ring.prodTail = prodHead := by
            apply UInt32.toNat_inj.mp
            rw [hinv.at_log.prodTail, htoNat, holdest]
          have hlocal : (ProdPc.fill .awaitTail data prodHead prodNext).step .single threads.ring
              = some (ProdPc.write threads.ring (.fill .publish data prodHead prodNext)
                (.ok threads.ring)) :=
            if_neg (not_not.mpr hturn)
          exact hinv.fill_next hpc hlocal (Nat.lt_succ_self 1) rfl
      | publish =>
          obtain ⟨threads', hstep, hinv', hprod, hcons, hlog⟩ := hinv.prod_next hpc rfl
          exact ⟨threads', hstep, hinv', hcons, by rw [hlog]; rfl,
            .success hprod (by rw [hlog]; rfl) (by rw [hlog]; rfl) (by rw [hpc]; rfl)⟩

end Enqueue

end Gittest
