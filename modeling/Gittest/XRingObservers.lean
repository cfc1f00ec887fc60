import Gittest.Proof.XRingCallSteps
import Gittest.XRingMpmc

/-!
# The observers beside other threads

`x_ring_full`, `x_ring_empty`, `x_ring_count` and `x_ring_free_count` read `prod.tail` and then `cons.tail`,
and the other threads go on in between. The one thread of a side can still rely on them: the room that
the producer is told of, and the entries that the consumer is told of, are there, and stay until it uses
them up. A thread that belongs to neither side can be told anything.
-/

namespace Gittest

open Transition

/-! ### Reading twice

Each observer with the ring as it is when it reads `prod.tail`, and as it is when it reads `cons.tail`. -/

def xRingFullAcross (r r' : XRing) : Bool := (r'.consTail - r.prodTail - 1) &&& r.mask == 0

def xRingEmptyAcross (r r' : XRing) : Bool := r'.consTail == r.prodTail

def xRingCountAcross (r r' : XRing) : UInt32 := (r.prodTail - r'.consTail) &&& r.mask

def xRingFreeCountAcross (r r' : XRing) : UInt32 := (r'.consTail - r.prodTail - 1) &&& r.mask

theorem across_self (r : XRing) : xRingFullAcross r r = xRingFull r ∧
    xRingEmptyAcross r r = xRingEmpty r ∧ xRingCountAcross r r = xRingCount r ∧
    xRingFreeCountAcross r r = xRingFreeCount r := ⟨rfl, rfl, rfl, rfl⟩

/-- One entry is put in and taken out between the two reads: the ring is never seen with it, and is said
to hold one in the end. -/
example : ∃ s ∈ run (XRingThreads.step .single .single)
      (.start ringOfTwo : XRingThreads Unit Unit)
      (enqueueAlone () [some 7] 7 ++ dequeueAlone () ⟨0, 0, []⟩ 7),
    xRingCountAcross ringOfTwo s.ring = 1 ∧ xRingCount ringOfTwo = 0 ∧ xRingCount s.ring = 0 := by
  decide +kernel

section Across

variable {P C : Type} {prodMode consMode : XRingMode} {size : Nat} {s t : XRingThreads P C}

/-- What the observers say, unless more has been taken out at the second read than had been put in at the
first. -/
structure ToldAs (r r' : XRing) (size entries : Nat) : Prop where
  count : (xRingCountAcross r r').toNat = entries
  freeCount : (xRingFreeCountAcross r r').toNat = size - 1 - entries
  empty : xRingEmptyAcross r r' = true ↔ entries = 0
  full : xRingFullAcross r r' = true ↔ entries = size - 1

theorem XRingInv.toldAs (hs : XRingInv prodMode consMode size s)
    (ht : XRingInv prodMode consMode size t) (hlater : s.log.released ≤ t.log.released)
    (hbehind : t.log.released ≤ s.log.published) :
    ToldAs s.ring t.ring size (s.log.published - t.log.released) := by
  have hpublished := hs.at_log.published_le
  have hroom := hs.at_log.reserved_lt
  have hlap : s.log.published - t.log.released < size := by omega
  have hfree := hs.at_log.mask.room_toNat hs.at_log.prodTail ht.at_log.consTail hbehind hlap
  constructor
  case count => exact hs.at_log.mask.sub_toNat hs.at_log.prodTail ht.at_log.consTail hbehind hlap
  case freeCount => exact hfree
  case empty =>
    rw [xRingEmptyAcross, beq_iff_eq, ← UInt32.toNat_inj, ht.at_log.consTail, hs.at_log.prodTail,
      eq_comm, Nat.mod_eq_mod_iff_of_lap hbehind hlap]
    omega
  case full =>
    rw [xRingFullAcross, beq_iff_eq, ← UInt32.toNat_inj, hfree]
    change size - 1 - (s.log.published - t.log.released) = 0 ↔ _
    omega

variable [DecidableEq P] [DecidableEq C]

theorem XRingThreads.run_log {as : List (XRingAct P C)}
    (hrun : run (XRingThreads.step prodMode consMode) s as = some t) :
    s.log.published ≤ t.log.published ∧ s.log.released ≤ t.log.released := by
  have hgrows : ∀ (u : XRingThreads P C) a v,
      s.log.published ≤ u.log.published ∧ s.log.released ≤ u.log.released →
      u.step prodMode consMode a = some v →
      s.log.published ≤ v.log.published ∧ s.log.released ≤ v.log.released := by
    rintro u a v ⟨hpublished, hreleased⟩ hstep
    obtain ⟨_, hpublished', hreleased'⟩ := XRingThreads.step_log hstep
    exact ⟨hpublished.trans hpublished', hreleased.trans hreleased'⟩
  exact run_invariant hgrows ⟨le_rfl, le_rfl⟩ hrun

theorem XRingInv.run (hinv : XRingInv prodMode consMode size s)
    (hprod : prodMode = .single → Subsingleton P) (hcons : consMode = .single → Subsingleton C)
    {as : List (XRingAct P C)}
    (halong : Along (XRingThreads.step prodMode consMode) (fun s => s.Fresh prodMode consMode) s as)
    (hrun : Transition.run (XRingThreads.step prodMode consMode) s as = some t) :
    XRingInv prodMode consMode size t :=
  run_of_along (fun _ _ _ hinv hfresh hstep => hinv.step hprod hcons hfresh hstep) hinv halong hrun

end Across

variable {garbage : Nat → Int} {count : UInt32} {ringbufSize : Int} {r : XRing}

/-! ### The producer asks -/

section Producer

variable {C : Type} [DecidableEq C] {consMode : XRingMode} {size : Nat}
  {t u v : XRingThreads Unit C}

/-- A producer that is turned away has found the ring full. -/
theorem XRingInv.full_of_turned_away (hinv : XRingInv .single consMode size u)
    (hstep : u.step .single consMode (.prod ()) = some v)
    (hret : v.prod () = .idle (some (-XRingRet.nospace.code))) :
    u.log.published + 1 = u.log.released + size := by
  obtain ⟨⟨ring, pc⟩, hlocal, -⟩ := Option.map_eq_some_iff.mp hstep
  obtain ⟨data, hdata⟩ := ProdPc.data?_of_step hlocal
  obtain ⟨v', hstep', _, _, _, henqueue⟩ := hinv.enqueue_step hdata
  cases hstep.symm.trans hstep'
  cases henqueue with
  | nospace _ _ _ hfull => exact hfull
  | goesOn hgoes => rw [hret] at hgoes; cases hgoes
  | success hidle =>
      rw [hret] at hidle
      exact absurd hidle (by decide)

/-- **Room lasts.** Where nothing is published between the two reads, the observers tell the producer what
is in the ring at the second of them, and whatever the consumers do, no enqueue is turned away before as
many more have been published as there was room for. -/
theorem xRing_room_lasts (hmade : xRingCreate garbage count ringbufSize = .ok r)
    (hpos : 1 ≤ count.toNat) (hle : count.toNat ≤ 2 ^ 31)
    (hcons : consMode = .single → Subsingleton C) {as bs : List (XRingAct Unit C)}
    {s : XRingThreads Unit C}
    (halong : Along (XRingThreads.step .single consMode) (fun s => s.Fresh .single consMode)
      (.start r) as)
    (hs : run (XRingThreads.step .single consMode) (.start r) as = some s)
    (halong' : Along (XRingThreads.step .single consMode) (fun s => s.Fresh .single consMode) s bs)
    (ht : run (XRingThreads.step .single consMode) s bs = some t)
    (hstill : t.log.published = s.log.published) :
    ToldAs s.ring t.ring r.size.toNat (t.log.published - t.log.released) ∧
    ∀ cs u v,
      Along (XRingThreads.step .single consMode) (fun s => s.Fresh .single consMode) t cs →
      run (XRingThreads.step .single consMode) t cs = some u →
      u.log.published < t.log.published + (xRingFreeCountAcross s.ring t.ring).toNat →
      u.step .single consMode (.prod ()) = some v →
      v.prod () ≠ .idle (some (-XRingRet.nospace.code)) := by
  have hprod : XRingMode.single = .single → Subsingleton Unit := fun _ => inferInstance
  have hinv : XRingInv .single consMode r.size.toNat s :=
    (xRingInv_start _ _ hmade hpos hle).run hprod hcons halong hs
  have hinv' := hinv.run hprod hcons halong' ht
  have hbehind := hinv'.at_log.released_le.trans hinv'.at_log.claimed_le
  have htold := hinv.toldAs hinv' (XRingThreads.run_log ht).2 (hstill ▸ hbehind)
  rw [← hstill] at htold
  refine ⟨htold, fun cs u v hfresh hu hless hstep hret => ?_⟩
  have hfull := (hinv'.run hprod hcons hfresh hu).full_of_turned_away hstep hret
  have hlater := (XRingThreads.run_log hu).2
  have hroom := hinv'.at_log.published_le.trans_lt hinv'.at_log.reserved_lt
  rw [htold.freeCount] at hless
  omega

end Producer

theorem XRingThreads.fresh_single {P C : Type} (s : XRingThreads P C) (a : XRingAct P C) :
    s.Fresh .single .single a := by
  cases a with
  | enqueue => trivial
  | dequeue => trivial
  | prod => exact nofun
  | cons => exact nofun

/-- The consumer takes the one entry while the producer is between its two reads. -/
theorem xRing_room_lasts_two : ∃ s t : XRingThreads Unit Unit,
    run (XRingThreads.step .single .single) (.start ringOfTwo) (enqueueAlone () [some 7] 7) = some s ∧
    run (XRingThreads.step .single .single) s (dequeueAlone () ⟨0, 0, []⟩ 7) = some t ∧
    ToldAs s.ring t.ring 2 0 ∧
    ∀ cs u v, Along (XRingThreads.step .single .single) (fun s => s.Fresh .single .single) t cs →
      run (XRingThreads.step .single .single) t cs = some u → u.log.published < 1 + 1 →
      u.step .single .single (.prod ()) = some v →
      v.prod () ≠ .idle (some (-XRingRet.nospace.code)) := by
  have hrun : ∃ s ∈ run (XRingThreads.step .single .single)
        (.start ringOfTwo : XRingThreads Unit Unit) (enqueueAlone () [some 7] 7),
      ∃ t ∈ run (XRingThreads.step .single .single) s (dequeueAlone () ⟨0, 0, []⟩ 7),
        s.log.published = 1 ∧ t.log.published = 1 ∧ t.log.released = 1 ∧
          (xRingFreeCountAcross s.ring t.ring).toNat = 1 := by
    decide +kernel
  obtain ⟨s, hs, t, ht, hpublished, hpublished', hreleased, hroom⟩ := hrun
  obtain ⟨htold, hlasts⟩ := xRing_room_lasts xRingCreate_two (by decide) (by decide)
    (fun _ => inferInstance) (along_of_forall XRingThreads.fresh_single) hs
    (along_of_forall XRingThreads.fresh_single) ht (hpublished'.trans hpublished.symm)
  rw [hpublished', hreleased] at htold
  rw [hpublished', hroom] at hlasts
  exact ⟨s, t, hs, ht, htold, hlasts⟩

/-! ### The consumer asks -/

section Consumer

variable {P : Type} [DecidableEq P] {prodMode : XRingMode} {size : Nat} {t u v : XRingThreads P Unit}

theorem XRingInv.empty_of_turned_away (hinv : XRingInv prodMode .single size u)
    (hstep : u.step prodMode .single (.cons ()) = some v)
    (hret : v.cons () = .idle (some (-XRingRet.noent.code))) :
    u.log.published = u.log.released := by
  obtain ⟨⟨ring, pc⟩, hlocal, -⟩ := Option.map_eq_some_iff.mp hstep
  obtain ⟨out, hout⟩ := ConsPc.out?_of_step hlocal
  obtain ⟨v', hstep', _, _, _, hdequeue⟩ := hinv.dequeue_step hout
  cases hstep.symm.trans hstep'
  cases hdequeue with
  | noent _ _ _ hempty => exact hempty
  | goesOn hgoes => rw [hret] at hgoes; cases hgoes
  | success hidle =>
      rw [hret] at hidle
      exact absurd hidle (by decide)

/-- **Entries last.** Where nothing is released between the two reads, the observers tell the consumer
what was in the ring at the first of them, and whatever the producers do, no dequeue is turned away
before as many more have been released. -/
theorem xRing_entries_last (hmade : xRingCreate garbage count ringbufSize = .ok r)
    (hpos : 1 ≤ count.toNat) (hle : count.toNat ≤ 2 ^ 31)
    (hprod : prodMode = .single → Subsingleton P) {as bs : List (XRingAct P Unit)}
    {s : XRingThreads P Unit}
    (halong : Along (XRingThreads.step prodMode .single) (fun s => s.Fresh prodMode .single)
      (.start r) as)
    (hs : run (XRingThreads.step prodMode .single) (.start r) as = some s)
    (halong' : Along (XRingThreads.step prodMode .single) (fun s => s.Fresh prodMode .single) s bs)
    (ht : run (XRingThreads.step prodMode .single) s bs = some t)
    (hstill : t.log.released = s.log.released) :
    ToldAs s.ring t.ring r.size.toNat (s.log.published - s.log.released) ∧
    ∀ cs u v,
      Along (XRingThreads.step prodMode .single) (fun s => s.Fresh prodMode .single) t cs →
      run (XRingThreads.step prodMode .single) t cs = some u →
      u.log.released < t.log.released + (xRingCountAcross s.ring t.ring).toNat →
      u.step prodMode .single (.cons ()) = some v →
      v.cons () ≠ .idle (some (-XRingRet.noent.code)) := by
  have hcons : XRingMode.single = .single → Subsingleton Unit := fun _ => inferInstance
  have hinv : XRingInv prodMode .single r.size.toNat s :=
    (xRingInv_start _ _ hmade hpos hle).run hprod hcons halong hs
  have hinv' := hinv.run hprod hcons halong' ht
  have hbehind := hinv.at_log.released_le.trans hinv.at_log.claimed_le
  have htold := hinv.toldAs hinv' hstill.ge (hstill ▸ hbehind)
  rw [hstill] at htold
  refine ⟨htold, fun cs u v hfresh hu hless hstep hret => ?_⟩
  have hempty := (hinv'.run hprod hcons hfresh hu).empty_of_turned_away hstep hret
  have hlater := (XRingThreads.run_log hu).1
  have hmeanwhile := (XRingThreads.run_log ht).1
  rw [htold.count] at hless
  omega

end Consumer

/-- The producer is turned away while the consumer is between its two reads. -/
theorem xRing_entries_last_two : ∃ s t : XRingThreads Unit Unit,
    run (XRingThreads.step .single .single) (.start ringOfTwo) (enqueueAlone () [some 7] 7) = some s ∧
    run (XRingThreads.step .single .single) s (enqueueAlone () [some 8] 2) = some t ∧
    ToldAs s.ring t.ring 2 1 ∧
    ∀ cs u v, Along (XRingThreads.step .single .single) (fun s => s.Fresh .single .single) t cs →
      run (XRingThreads.step .single .single) t cs = some u → u.log.released < 0 + 1 →
      u.step .single .single (.cons ()) = some v →
      v.cons () ≠ .idle (some (-XRingRet.noent.code)) := by
  have hrun : ∃ s ∈ run (XRingThreads.step .single .single)
        (.start ringOfTwo : XRingThreads Unit Unit) (enqueueAlone () [some 7] 7),
      ∃ t ∈ run (XRingThreads.step .single .single) s (enqueueAlone () [some 8] 2),
        s.log.published = 1 ∧ s.log.released = 0 ∧ t.log.released = 0 ∧
          (xRingCountAcross s.ring t.ring).toNat = 1 := by
    decide +kernel
  obtain ⟨s, hs, t, ht, hpublished, hreleased, hreleased', hcount⟩ := hrun
  obtain ⟨htold, hlasts⟩ := xRing_entries_last xRingCreate_two (by decide) (by decide)
    (fun _ => inferInstance) (along_of_forall XRingThreads.fresh_single) hs
    (along_of_forall XRingThreads.fresh_single) ht (hreleased'.trans hreleased.symm)
  rw [hpublished, hreleased] at htold
  rw [hreleased', hcount] at hlasts
  exact ⟨s, t, hs, ht, htold, hlasts⟩

end Gittest
