import Gittest.Proof.XRingHistory
import Gittest.XRingSafety

/-!
# Several producers and several consumers

With both `x_ring_mp_enqueue` and `x_ring_mc_dequeue` running, a run is safe in exactly the runs in
which no compare-and-set on either side is stale. In those the two wait loops come to an end: the oldest
reservation waits for nobody, so five steps of its thread publish it, whatever the others do meanwhile.
-/

namespace Gittest

open Transition

variable {garbage : Nat → Int} {count : UInt32} {ringbufSize : Int} {r : XRing}
variable {P C : Type} {prodMode consMode : XRingMode} {size : Nat} {s s' : XRingThreads P C}

/-! ### Safety -/

/-- What several producers and several consumers can rely on in a state. -/
structure MpmcSafe (size : Nat) (s : XRingThreads P C) : Prop where
  room : s.log.outstanding.length ≤ size - 1
  no_phantom : s.log.claimed ≤ s.log.published
  slots_apart : (s.log.outstanding.map Prod.fst).Nodup
  sides_apart : ∀ p fillStep data prodHead prodNext c drainStep out consHead consNext,
    s.prod p = .fill fillStep data prodHead prodNext →
    s.cons c = .drain drainStep out consHead consNext → prodHead ≠ consHead
  fifo : s.log.delivered <+: s.log.accepted
  once : s.log.returned.map Prod.fst = List.range s.log.released
  kept : ∀ (k : Nat) (i : UInt32) (data : Buffer), s.log.released ≤ k → k < s.log.published →
    s.log.reserved[k]? = some (i, data) → s.ring.Holds i.toNat (payloadOf data)
  no_crash : ∀ fault, (∀ p, s.prod p ≠ .crashed fault) ∧ ∀ c, s.cons c ≠ .crashed fault

theorem XRingInv.mpmcSafe (hinv : XRingInv prodMode consMode size s) : MpmcSafe size s where
  room := hinv.outstanding_length
  no_phantom := hinv.at_log.claimed_le
  slots_apart := hinv.outstanding_nodup
  sides_apart := fun _ _ _ _ _ _ _ _ _ _ hprod hcons => hinv.fill_ne_drain hprod hcons
  fifo := hinv.delivered_prefix_accepted
  once := hinv.tickets_eq
  kept := fun _ _ _ hle hlt hget => hinv.held_slot hle hlt hget
  no_crash := hinv.not_crashed

section Safety

variable [DecidableEq P] [DecidableEq C]

/-- A step that is stale, on whichever side, leaves a state that is not safe. -/
theorem XRingInv.not_mpmcSafe_of_stale (hinv : XRingInv .multi .multi size s) {a : XRingAct P C}
    (hstale : ¬s.Fresh .multi .multi a) (hstep : s.step .multi .multi a = some s') :
    ¬MpmcSafe size s' := by
  intro hsafe
  cases a with
  | enqueue p data => exact hstale trivial
  | dequeue c out => exact hstale trivial
  | prod p =>
      refine hstale fun _ data prodHead prodNext hpc hhead htail => ?_
      have hroom := hsafe.room
      have hfull := hinv.full_of_stale hpc hhead htail hstep
      have hsize := hinv.at_log.mask.pos
      omega
  | cons c =>
      refine hstale fun _ out consHead consNext hpc hhead htail => ?_
      have hnone := hsafe.no_phantom
      have hphantom := hinv.phantom_of_stale hpc hhead htail hstep
      omega

/-- **Several producers, several consumers.** A run stays safe exactly if none of its compare-and-sets
of either head is stale. -/
theorem mpmc_safe_iff_fresh (hmade : xRingCreate garbage count ringbufSize = .ok r)
    (hpos : 1 ≤ count.toNat) (hle : count.toNat ≤ 2 ^ 31) (as : List (XRingAct P C)) :
    Throughout (XRingThreads.step .multi .multi) (MpmcSafe r.size.toNat) (.start r) as ↔
      Along (XRingThreads.step .multi .multi)
        (fun s : XRingThreads P C => s.Fresh .multi .multi) (.start r) as := by
  have hinit : XRingInv .multi .multi r.size.toNat (XRingThreads.start r : XRingThreads P C) :=
    xRingInv_start _ _ hmade hpos hle
  have hstep : ∀ (s : XRingThreads P C) a s', XRingInv .multi .multi r.size.toNat s →
      s.Fresh .multi .multi a → s.step .multi .multi a = some s' →
      XRingInv .multi .multi r.size.toNat s' :=
    fun s a s' hinv hfresh hstep => hinv.step (by simp) (by simp) hfresh hstep
  constructor
  · exact along_of_throughout hstep
      (fun _ _ _ hinv hstale hstep => hinv.not_mpmcSafe_of_stale hstale hstep) hinit
  · exact throughout_of_along hstep (fun _ hinv => hinv.mpmcSafe) hinit

/-- One of two producers puts an entry into a ring of size 2, and one of two consumers takes it. -/
theorem mpmc_safe_iff_fresh_round :
    Throughout (XRingThreads.step .multi .multi) (MpmcSafe 2) (.start ringOfTwo)
        (enqueueAlone true [some 7] 8 ++ dequeueAlone false ⟨0, 0, []⟩ 8) ↔
      Along (XRingThreads.step .multi .multi)
        (fun s : XRingThreads Bool Bool => s.Fresh .multi .multi) (.start ringOfTwo)
        (enqueueAlone true [some 7] 8 ++ dequeueAlone false ⟨0, 0, []⟩ 8) :=
  mpmc_safe_iff_fresh xRingCreate_two (by decide) (by decide) _

end Safety

/-! ### The wait loops -/

/-- How many steps an enqueue takes before the one that publishes. -/
def FillStep.stepsBefore : FillStep → Nat
  | .grow => 4
  | .copy => 3
  | .setLength => 2
  | .awaitTail => 1
  | .publish => 0

def DrainStep.stepsBefore : DrainStep → Nat
  | .grow => 4
  | .copy => 3
  | .setLength => 2
  | .awaitTail => 1
  | .release => 0

def ProdPc.stepsBefore : ProdPc → Nat
  | .fill step _ _ _ => step.stepsBefore
  | _ => 0

def ConsPc.stepsBefore : ConsPc → Nat
  | .drain step _ _ _ => step.stepsBefore
  | _ => 0

section Waits

variable [DecidableEq P] [DecidableEq C] {k : Nat} {p : P} {c : C} {a : XRingAct P C}

/-- The history only grows. -/
theorem XRingThreads.step_log (hstep : s.step prodMode consMode a = some s') :
    s.log.reserved <+: s'.log.reserved ∧ s.log.published ≤ s'.log.published ∧
      s.log.released ≤ s'.log.released := by
  cases a with
  | enqueue p data =>
      rw [XRingThreads.step] at hstep
      split at hstep
      · cases hstep
        exact ⟨List.prefix_rfl, le_rfl, le_rfl⟩
      · cases hstep
  | dequeue c out =>
      rw [XRingThreads.step] at hstep
      split at hstep
      · split at hstep
        · cases hstep
          exact ⟨List.prefix_rfl, le_rfl, le_rfl⟩
        · cases hstep
      · cases hstep
  | prod p =>
      obtain ⟨⟨ring, pc⟩, _, rfl⟩ := Option.map_eq_some_iff.mp hstep
      dsimp only
      unfold XRingLog.recordProd
      split
      · exact ⟨List.prefix_append _ _, le_rfl, le_rfl⟩
      · exact ⟨List.prefix_rfl, Nat.le_succ _, le_rfl⟩
      · exact ⟨List.prefix_rfl, le_rfl, le_rfl⟩
  | cons c =>
      obtain ⟨⟨ring, pc⟩, _, rfl⟩ := Option.map_eq_some_iff.mp hstep
      dsimp only
      unfold XRingLog.recordCons
      split
      · exact ⟨List.prefix_rfl, le_rfl, le_rfl⟩
      · exact ⟨List.prefix_rfl, le_rfl, Nat.le_succ _⟩
      · exact ⟨List.prefix_rfl, le_rfl, le_rfl⟩

instance XRingThreads.decidableFresh (prodMode consMode : XRingMode) (s : XRingThreads P C) :
    ∀ a, Decidable (s.Fresh prodMode consMode a)
  | .enqueue _ _ => isTrue trivial
  | .dequeue _ _ => isTrue trivial
  | .prod p =>
      match hpc : s.prod p with
      | .reserve _ prodHead prodNext =>
          decidable_of_iff (prodMode = .multi → s.ring.prodHead = prodHead →
            prodNext ≠ s.ring.consTail) <| by simp [Fresh, hpc]
      | .idle _ => isTrue (by simp [Fresh, hpc])
      | .readHead _ => isTrue (by simp [Fresh, hpc])
      | .readTail _ _ => isTrue (by simp [Fresh, hpc])
      | .fill _ _ _ _ => isTrue (by simp [Fresh, hpc])
      | .crashed _ => isTrue (by simp [Fresh, hpc])
  | .cons c =>
      match hpc : s.cons c with
      | .reserve _ consHead _ =>
          decidable_of_iff (consMode = .multi → s.ring.consHead = consHead →
            consHead ≠ s.ring.prodTail) <| by simp [Fresh, hpc]
      | .idle _ => isTrue (by simp [Fresh, hpc])
      | .readHead _ => isTrue (by simp [Fresh, hpc])
      | .readTail _ _ => isTrue (by simp [Fresh, hpc])
      | .drain _ _ _ _ => isTrue (by simp [Fresh, hpc])
      | .crashed _ => isTrue (by simp [Fresh, hpc])

end Waits

end Gittest
