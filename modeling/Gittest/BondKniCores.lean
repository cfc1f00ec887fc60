import Gittest.BondKniBurst
import Gittest.Lib.Monitor

/-!
# The cores and the console

Every lcore runs `lcore_main`, and the console runs the commands `start`, `stop`, `quit` and `show`
beside them. They share `global_flag_stru`. Its lock is only ever tried; where the attempt fails, most
of the code goes on without it, and unlocks it all the same.

A step is one access to the shared structure. `seen` is not part of the program: it counts the attempts
to increment a counter of `port_packets`.
-/

namespace Gittest

open Dpdk Transition Monitor

/-- The indices 0, 1 and 2 of `port_packets`. -/
inductive PortPacket where
  | total
  | arp
  | ipv4
  deriving DecidableEq

/-- `struct global_flag_stru_t`. -/
structure GlobalFlag where
  lcoreMainIsRunning : Bool
  portPackets : PortPacket → UInt32
  lock : Bool

section Lock

variable [Dpdk]

def GlobalFlag.trylock (g : GlobalFlag) : Bool × GlobalFlag :=
  ((rteSpinlockTrylock g.lock).1, { g with lock := (rteSpinlockTrylock g.lock).2 })

def GlobalFlag.unlock (g : GlobalFlag) : GlobalFlag := { g with lock := rteSpinlockUnlock g.lock }

theorem GlobalFlag.trylock_eq (g : GlobalFlag) : g.trylock = (!g.lock, { g with lock := true }) := by
  rw [trylock]
  cases g.lock with
  | false => rw [rteSpinlockTrylock_free]; rfl
  | true => rw [rteSpinlockTrylock_taken]; rfl

end Lock

/-- The counters that `lcore_main` increments for a packet. -/
def Handling.portPackets : Handling → List PortPacket
  | .arpReply => [.total, .arp]
  | .arpPass => [.total, .arp]
  | .ipv4Reply => [.total, .ipv4]
  | .ipv4Pass => [.total, .ipv4]
  | .pass => [.total]

/-- `lcore_main`: the access it makes next, and the counters that are still to be incremented in the
burst at hand. -/
inductive CorePc where
  | enter
  | check
  | unlock
  | receive
  | count (todo : List PortPacket)
  | load (k : PortPacket) (todo : List PortPacket)
  | store (k : PortPacket) (value : UInt32) (todo : List PortPacket)
  | release (todo : List PortPacket)
  | leave
  | done
  | crashed (fault : Fault)

def CorePc.step [Dpdk] (g : GlobalFlag) : CorePc → Option (GlobalFlag × CorePc)
  | .enter => some (g.trylock.2, .check)
  | .check => some (g, if g.lcoreMainIsRunning then .unlock else .leave)
  | .unlock => some (g.unlock, .receive)
  | .receive => none
  | .count [] => some (g.trylock.2, .check)
  | .count (k :: todo) =>
      match g.trylock with
      | (true, g) => some (g, .load k todo)
      | (false, g) => some (g, .count todo)
  | .load k todo => some (g, .store k (g.portPackets k) todo)
  | .store k value todo =>
      some ({ g with portPackets := Function.update g.portPackets k (value + 1) }, .release todo)
  | .release todo => some (g.unlock, .count todo)
  | .leave => some (g.unlock, .done)
  | .done => none
  | .crashed _ => none

/-- Where a burst leads: without packets, or without the address of the bond, back to the test. -/
def CorePc.received : Option (List Handling) → CorePc
  | none => .check
  | some [] => .check
  | some handlings => .count (handlings.flatMap Handling.portPackets)

/-- The commands that touch the shared structure; `display` is `show`. -/
inductive Command where
  | start
  | stop
  | quit
  | display
  deriving DecidableEq

/-- The console: the access that the command makes next. -/
inductive ConsolePc where
  | idle
  | displayRead
  | displayUnlock
  | stopRead (quits : Bool)
  | stopClear (quits : Bool)
  | stopWait (quits : Bool)
  | stopUnlock (quits : Bool)
  | startRead
  | startState
  | startUnlock (goesOn : Bool)
  | startLock
  | startSet
  | startRelease
  | launch
  | quit

/-- The first access of every command is an attempt at the lock. -/
def Command.pc : Command → ConsolePc
  | .start => .startRead
  | .stop => .stopRead false
  | .quit => .stopRead true
  | .display => .displayRead

/-- `answer` is what the EAL says of an lcore, where it is asked: whether it waits, or whether there is
a next one. How long `rte_eal_wait_lcore` takes is left open. -/
def ConsolePc.step [Dpdk] (g : GlobalFlag) (answer : Bool) : ConsolePc → Option (GlobalFlag × ConsolePc)
  | .idle => none
  | .displayRead => some (g, .displayUnlock)
  | .displayUnlock => some (g.unlock, .idle)
  | .stopRead quits =>
      some (g, if g.lcoreMainIsRunning then .stopClear quits else .stopUnlock quits)
  | .stopClear quits => some ({ g with lcoreMainIsRunning := false }, .stopWait quits)
  | .stopWait quits => some (g, .stopUnlock quits)
  | .stopUnlock quits => some (g.unlock, if quits then .quit else .idle)
  | .startRead => some (g, if g.lcoreMainIsRunning then .startUnlock false else .startState)
  | .startState => some (g, .startUnlock answer)
  | .startUnlock goesOn => some (g.unlock, if goesOn && answer then .startLock else .idle)
  | .startLock => some (g.trylock.2, .startSet)
  | .startSet => some ({ g with lcoreMainIsRunning := true }, .startRelease)
  | .startRelease => some (g.unlock, .launch)
  | .launch => none
  | .quit => none

structure Cores (C T : Type) where
  flag : GlobalFlag
  core : C → CorePc
  console : T → ConsolePc
  seen : PortPacket → Nat

inductive CoresAct (C T : Type) where
  | core (c : C)
  | receive (c : C) (burst : Option (List Handling))
  | command (t : T) (command : Command)
  | console (t : T) (answer : Bool)
  | launch (t : T) (c : C)

/-- An attempt to increment a counter. -/
def CorePc.attempts : CorePc → PortPacket → Nat
  | .count (k :: _) => Function.update (fun _ => 0) k 1
  | _ => fun _ => 0

/-- `start` runs `lcore_main` without an argument, which it reads before all else. -/
def CorePc.launched : CorePc → CorePc
  | .done => .crashed .nullPointer
  | pc => pc

variable [Dpdk] {C T : Type} [DecidableEq C] [DecidableEq T]

def Cores.step (s : Cores C T) : CoresAct C T → Option (Cores C T)
  | .core c =>
      ((s.core c).step s.flag).map fun (flag, pc) =>
        { s with
          flag := flag
          core := Function.update s.core c pc
          seen := fun k => s.seen k + (s.core c).attempts k }
  | .receive c burst =>
      match s.core c with
      | .receive =>
          if ∀ handlings ∈ burst, handlings.length ≤ maxPktBurst then
            some { s with core := Function.update s.core c (.received burst) }
          else
            none
      | _ => none
  | .command t command =>
      match s.console t with
      | .idle =>
          some { s with
            flag := s.flag.trylock.2
            console := Function.update s.console t command.pc }
      | _ => none
  | .console t answer =>
      ((s.console t).step s.flag answer).map fun (flag, pc) =>
        { s with flag := flag, console := Function.update s.console t pc }
  | .launch t c =>
      match s.console t with
      | .launch =>
          some { s with
            core := Function.update s.core c (s.core c).launched
            console := Function.update s.console t .idle }
      | _ => none

/-- `main` has set `LcoreMainIsRunning` and launches `lcore_main` on every lcore. -/
def Cores.start : Cores C T where
  flag := { lcoreMainIsRunning := true, portPackets := fun _ => 0, lock := false }
  core := fun _ => .enter
  console := fun _ => .idle
  seen := fun _ => 0

/-! ### The counters -/

section Counters

/-- The core is between the attempt and its own write to a counter. -/
def CorePc.pending (k : PortPacket) : CorePc → Nat
  | .load k' _ => if k' = k then 1 else 0
  | .store k' _ _ => if k' = k then 1 else 0
  | _ => 0

/-- What one step of a core does to a counter: nothing, or its own write. -/
structure CorePc.Counts (g g' : GlobalFlag) (pc pc' : CorePc) (k : PortPacket) : Prop where
  pending_le : pc'.pending k ≤ pc.pending k + pc.attempts k
  counter : g'.portPackets k = g.portPackets k ∨
    ∃ value todo, pc = .store k value todo ∧ g'.portPackets k = value + 1 ∧ pc'.pending k = 0
  stored : ∀ value todo, pc' = .store k value todo →
    value = g.portPackets k ∧ pc.pending k = 1 ∧ pc.attempts k = 0

theorem CorePc.step_counts {g g' : GlobalFlag} {pc pc' : CorePc} (hstep : pc.step g = some (g', pc'))
    (k : PortPacket) : Counts g g' pc pc' k := by
  cases pc with
  | receive => cases hstep
  | done => cases hstep
  | crashed fault => cases hstep
  | enter =>
    cases hstep
    exact ⟨Nat.zero_le _, Or.inl rfl, nofun⟩
  | unlock =>
    cases hstep
    exact ⟨Nat.zero_le _, Or.inl rfl, nofun⟩
  | release todo =>
    cases hstep
    exact ⟨Nat.zero_le _, Or.inl rfl, nofun⟩
  | leave =>
    cases hstep
    exact ⟨Nat.zero_le _, Or.inl rfl, nofun⟩
  | check =>
    cases hstep
    cases g.lcoreMainIsRunning <;> exact ⟨Nat.zero_le _, Or.inl rfl, nofun⟩
  | count todo =>
    cases todo with
    | nil =>
      cases hstep
      exact ⟨Nat.zero_le _, Or.inl rfl, nofun⟩
    | cons k' todo =>
      cases hlock : g.lock with
      | true =>
        simp only [step, GlobalFlag.trylock_eq, hlock] at hstep
        cases hstep
        exact ⟨Nat.zero_le _, Or.inl rfl, nofun⟩
      | false =>
        simp only [step, GlobalFlag.trylock_eq, hlock] at hstep
        cases hstep
        refine ⟨?_, Or.inl rfl, nofun⟩
        by_cases hk : k' = k
        · rw [hk, attempts, Function.update_self, pending, if_pos rfl]
          exact Nat.le_add_left 1 _
        · rw [pending, if_neg hk]
          exact Nat.zero_le _
  | load k' todo =>
    cases hstep
    refine ⟨Nat.le_refl _, Or.inl rfl, ?_⟩
    intro value todo' heq
    cases heq
    exact ⟨rfl, if_pos rfl, rfl⟩
  | store k' value todo =>
    cases hstep
    refine ⟨Nat.zero_le _, ?_, nofun⟩
    by_cases hk : k' = k
    · subst hk
      exact Or.inr ⟨value, todo, rfl, Function.update_self .., rfl⟩
    · exact Or.inl (Function.update_of_ne (Ne.symm hk) ..)

variable [Fintype C] {s s' : Cores C T}

def Cores.pending (s : Cores C T) (k : PortPacket) : Nat := tally (CorePc.pending k) s.core

/-- A counter, with the increments that are under way, has not passed the attempts; nor would it if one
of these writes what it has read. -/
structure Cores.Counted (s : Cores C T) (k : PortPacket) : Prop where
  counter : (s.flag.portPackets k).toNat + s.pending k ≤ s.seen k
  stored : ∀ c value todo, s.core c = .store k value todo →
    value.toNat + s.pending k ≤ s.seen k

omit [Dpdk] in
theorem toNat_succ_le (value : UInt32) : (value + 1).toNat ≤ value.toNat + 1 := by
  rw [UInt32.toNat_add]
  exact Nat.mod_le _ _

/-- The counters stay, and every core that moves does so without an increment under way. -/
structure Cores.Quiet (s s' : Cores C T) : Prop where
  portPackets : s'.flag.portPackets = s.flag.portPackets
  seen : s'.seen = s.seen
  core : ∀ c, s'.core c = s.core c ∨
    ∀ k, (s.core c).pending k = 0 ∧ (s'.core c).pending k = 0

omit [Dpdk] [DecidableEq C] [DecidableEq T] in
theorem Cores.Counted.quiet {k : PortPacket} (hcounted : s.Counted k) (hquiet : s.Quiet s') :
    s'.Counted k := by
  have hpending : s'.pending k = s.pending k := by
    refine Finset.sum_congr rfl fun c _ => ?_
    rcases hquiet.core c with hsame | hboth
    · rw [hsame]
    · rw [(hboth k).1, (hboth k).2]
  constructor
  · rw [hquiet.portPackets, hpending, hquiet.seen]
    exact hcounted.counter
  · intro c value todo hpc
    rw [hpending, hquiet.seen]
    rcases hquiet.core c with hsame | hboth
    · exact hcounted.stored c value todo (hsame ▸ hpc)
    · have hzero := (hboth k).2
      rw [hpc, CorePc.pending, if_pos rfl] at hzero
      cases hzero

theorem Cores.Counted.core_step {k : PortPacket} (hcounted : s.Counted k) {c : C}
    (hstep : s.step (.core c) = some s') : s'.Counted k := by
  obtain ⟨⟨flag, pc⟩, hlocal, rfl⟩ := Option.map_eq_some_iff.mp hstep
  have hcounts := CorePc.step_counts hlocal k
  have htally : tally (CorePc.pending k) (Function.update s.core c pc) + (s.core c).pending k
      = tally (CorePc.pending k) s.core + pc.pending k := tally_update s.core c pc
  have hcounter := hcounted.counter
  have hpending := hcounts.pending_le
  unfold pending at hcounter
  constructor
  · change (flag.portPackets k).toNat + tally (CorePc.pending k) (Function.update s.core c pc)
      ≤ s.seen k + (s.core c).attempts k
    rcases hcounts.counter with hsame | ⟨value, todo, hpc, hwrite, hafter⟩
    · rw [hsame]
      omega
    · have hstored := hcounted.stored c value todo hpc
      have hbefore : (s.core c).pending k = 1 := by
        rw [hpc]
        exact if_pos rfl
      have hle := toNat_succ_le value
      unfold pending at hstored
      rw [hwrite]
      omega
  · intro d value todo hpc
    change value.toNat + tally (CorePc.pending k) (Function.update s.core c pc)
      ≤ s.seen k + (s.core c).attempts k
    by_cases hd : d = c
    · have hpc' : pc = .store k value todo := by
        rw [← hpc, hd]
        exact (Function.update_self c pc s.core).symm
      obtain ⟨rfl, hbefore, hattempts⟩ := hcounts.stored value todo hpc'
      omega
    · have hstored := hcounted.stored d value todo ((Function.update_of_ne hd pc s.core).symm.trans hpc)
      unfold pending at hstored
      omega

omit [Dpdk] in
theorem CorePc.received_pending (burst : Option (List Handling)) (k : PortPacket) :
    (received burst).pending k = 0 := by
  match burst with
  | none => rfl
  | some [] => rfl
  | some (_ :: _) => rfl

theorem ConsolePc.step_portPackets {g g' : GlobalFlag} {answer : Bool} {pc pc' : ConsolePc}
    (hstep : pc.step g answer = some (g', pc')) : g'.portPackets = g.portPackets := by
  cases pc <;> cases hstep <;> rfl

omit [Fintype C] in
/-- Whatever is not a step of `lcore_main` leaves the counters alone. -/
theorem Cores.quiet_of_step {a : CoresAct C T} (hstep : s.step a = some s')
    (hother : ∀ c, a ≠ .core c) : s.Quiet s' := by
  cases a with
  | core c => exact absurd rfl (hother c)
  | receive c burst =>
    simp only [Cores.step] at hstep
    split at hstep
    · rename_i hpc
      obtain ⟨-, hs'⟩ := Option.ite_none_right_eq_some.mp hstep
      obtain rfl := Option.some.inj hs'
      refine ⟨rfl, rfl, fun d => ?_⟩
      by_cases hd : d = c
      · refine Or.inr fun k => ⟨by rw [hd, hpc]; rfl, ?_⟩
        rw [hd]
        dsimp only
        rw [Function.update_self]
        exact CorePc.received_pending burst k
      · exact Or.inl (Function.update_of_ne hd ..)
    · cases hstep
  | command t command =>
    simp only [Cores.step] at hstep
    split at hstep
    · cases hstep
      exact ⟨rfl, rfl, fun _ => Or.inl rfl⟩
    · cases hstep
  | console t answer =>
    obtain ⟨⟨flag, pc⟩, hlocal, rfl⟩ := Option.map_eq_some_iff.mp hstep
    exact ⟨ConsolePc.step_portPackets hlocal, rfl, fun _ => Or.inl rfl⟩
  | launch t c =>
    simp only [Cores.step] at hstep
    split at hstep
    · cases hstep
      refine ⟨rfl, rfl, fun d => ?_⟩
      by_cases hd : d = c
      · subst hd
        dsimp only
        rw [Function.update_self]
        cases s.core d with
        | done => exact Or.inr fun k => ⟨rfl, rfl⟩
        | _ => exact Or.inl rfl
      · exact Or.inl (Function.update_of_ne hd ..)
    · cases hstep

theorem Cores.Counted.step {k : PortPacket} (hcounted : s.Counted k) {a : CoresAct C T}
    (hstep : s.step a = some s') : s'.Counted k := by
  cases a with
  | core c => exact hcounted.core_step hstep
  | _ => exact hcounted.quiet (Cores.quiet_of_step hstep nofun)

/-- **No packet is counted twice.** Whatever the interleaving, and although every core and every command
unlocks what another has locked, no counter passes the number of packets that it was to count. -/
theorem portPackets_le_seen (as : List (CoresAct C T)) (s : Cores C T)
    (hrun : run Cores.step .start as = some s) (k : PortPacket) :
    (s.flag.portPackets k).toNat ≤ s.seen k := by
  have hinit : (Cores.start : Cores C T).Counted k := by
    constructor
    · have hzero : tally (CorePc.pending k) (fun _ : C => CorePc.enter) = 0 :=
        Finset.sum_eq_zero fun _ _ => rfl
      change 0 + tally (CorePc.pending k) (fun _ : C => CorePc.enter) ≤ 0
      rw [hzero]
    · intro c value todo hpc
      cases hpc
  have hstep : ∀ (s : Cores C T) a s', s.Counted k → s.step a = some s' → s'.Counted k :=
    fun _ _ _ hcounted hstep => hcounted.step hstep
  exact (Nat.le_add_right _ _).trans (run_invariant hstep hinit hrun).counter

/-- Two cores that each count one packet. The second one's first unlock opens the lock of the first, and
one of the two increments is lost. -/
def lostUpdate : List (CoresAct Bool Unit) :=
  List.replicate 3 (.core false) ++ [.receive false (some [.pass])] ++ List.replicate 2 (.core false) ++
    List.replicate 3 (.core true) ++ [.receive true (some [.pass])] ++ List.replicate 3 (.core true) ++
    [.core false]

omit [Dpdk] in
theorem portPackets_le_seen_lostUpdate : ∃ _ : Dpdk, ∃ s, run Cores.step .start lostUpdate = some s ∧
    s.flag.portPackets .total = 1 ∧ s.seen .total = 2 ∧
      (s.flag.portPackets .total).toNat ≤ s.seen .total := by
  let _ : Dpdk := littleEndian
  have hrun : ∃ s ∈ run Cores.step .start lostUpdate,
      s.flag.portPackets .total = 1 ∧ s.seen .total = 2 := by
    decide +kernel
  obtain ⟨s, hs, hcounter, hseen⟩ := hrun
  exact ⟨littleEndian, s, hs, hcounter, hseen, portPackets_le_seen lostUpdate s hs .total⟩

end Counters

/-! ### One core alone -/

section Alone

/-- Whether the lock is taken where a core that is alone stands; after an attempt that the code ignores
it may be either. -/
def CorePc.lockAlone : CorePc → Option Bool
  | .check => none
  | .unlock => none
  | .leave => none
  | .load _ _ => some true
  | .store _ _ _ => some true
  | .release _ => some true
  | _ => some false

structure CorePc.Alone (g : GlobalFlag) (pc : CorePc) (seen : PortPacket → Nat) : Prop where
  lock : ∀ taken ∈ pc.lockAlone, g.lock = taken
  counter : ∀ k, g.portPackets k + UInt32.ofNat (pc.pending k) = UInt32.ofNat (seen k)
  stored : ∀ k value todo, pc = .store k value todo → value = g.portPackets k

theorem CorePc.Alone.step {g g' : GlobalFlag} {pc pc' : CorePc} {seen : PortPacket → Nat}
    (halone : Alone g pc seen) (hstep : pc.step g = some (g', pc')) :
    Alone g' pc' fun k => seen k + pc.attempts k := by
  have hcounter := halone.counter
  cases pc with
  | receive => cases hstep
  | done => cases hstep
  | crashed fault => cases hstep
  | enter =>
    cases hstep
    exact ⟨nofun, hcounter, nofun⟩
  | unlock =>
    cases hstep
    exact ⟨by rintro _ ⟨⟩; exact rteSpinlockUnlock_eq _, hcounter, nofun⟩
  | release todo =>
    cases hstep
    exact ⟨by rintro _ ⟨⟩; exact rteSpinlockUnlock_eq _, hcounter, nofun⟩
  | leave =>
    cases hstep
    exact ⟨by rintro _ ⟨⟩; exact rteSpinlockUnlock_eq _, hcounter, nofun⟩
  | check =>
    cases hstep
    cases g.lcoreMainIsRunning <;> exact ⟨nofun, hcounter, nofun⟩
  | count todo =>
    cases todo with
    | nil =>
      cases hstep
      exact ⟨nofun, hcounter, nofun⟩
    | cons k todo =>
      have hlock : g.lock = false := halone.lock false rfl
      simp only [CorePc.step, GlobalFlag.trylock_eq, hlock] at hstep
      cases hstep
      refine ⟨by rintro _ ⟨⟩; rfl, fun k' => ?_, nofun⟩
      have hcounter' : g.portPackets k' + 0 = UInt32.ofNat (seen k') := hcounter k'
      rw [UInt32.add_zero] at hcounter'
      by_cases hk : k = k'
      · rw [hk, attempts, Function.update_self, pending, if_pos rfl, UInt32.ofNat_add, ← hcounter']
      · rw [attempts, Function.update_of_ne (Ne.symm hk), pending, if_neg hk, Nat.add_zero,
          ← hcounter']
        exact UInt32.add_zero _
  | load k todo =>
    cases hstep
    refine ⟨halone.lock, hcounter, ?_⟩
    rintro _ _ _ ⟨⟩
    rfl
  | store k value todo =>
    cases hstep
    refine ⟨halone.lock, fun k' => ?_, nofun⟩
    have hcounter' := hcounter k'
    change Function.update g.portPackets k (value + 1) k' + 0 = UInt32.ofNat (seen k' + 0)
    rw [UInt32.add_zero, Nat.add_zero, ← hcounter']
    by_cases hk : k = k'
    · subst hk
      rw [Function.update_self, halone.stored k value todo rfl, pending, if_pos rfl]
      rfl
    · rw [Function.update_of_ne (Ne.symm hk), pending, if_neg hk]
      exact (UInt32.add_zero _).symm

/-- **One core counts all.** Where one core runs and no command is given, each counter is the number of
its packets modulo `2 ^ 32`, but for the increment that is under way. -/
theorem portPackets_alone (as : List (CoresAct Unit Empty)) (s : Cores Unit Empty)
    (hrun : run Cores.step .start as = some s) (k : PortPacket) :
    s.flag.portPackets k + UInt32.ofNat ((s.core ()).pending k) = UInt32.ofNat (s.seen k) := by
  have hinit : CorePc.Alone (Cores.start : Cores Unit Empty).flag .enter fun _ => 0 :=
    ⟨by rintro _ ⟨⟩; rfl, fun _ => rfl, nofun⟩
  have hstep : ∀ (s : Cores Unit Empty) a s', CorePc.Alone s.flag (s.core ()) s.seen →
      s.step a = some s' → CorePc.Alone s'.flag (s'.core ()) s'.seen := by
    intro s a s' halone hstep
    cases a with
    | command t command => exact t.elim
    | console t answer => exact t.elim
    | launch t c => exact t.elim
    | core c =>
      obtain ⟨⟨flag, pc⟩, hlocal, rfl⟩ := Option.map_eq_some_iff.mp hstep
      have halone' := halone.step hlocal
      dsimp only
      rwa [Function.update_self]
    | receive c burst =>
      simp only [Cores.step] at hstep
      split at hstep
      · rename_i hpc
        obtain ⟨-, hs'⟩ := Option.ite_none_right_eq_some.mp hstep
        obtain rfl := Option.some.inj hs'
        rw [hpc] at halone
        dsimp only
        rw [Function.update_self]
        match burst with
        | none => exact ⟨nofun, halone.counter, nofun⟩
        | some [] => exact ⟨nofun, halone.counter, nofun⟩
        | some (handling :: handlings) => exact ⟨halone.lock, halone.counter, nofun⟩
      · cases hstep
  exact (run_invariant hstep hinit hrun).counter k

/-- A core that receives an ARP packet and counts it twice, in the first and in the second counter. -/
def countedBurst : List (CoresAct Unit Empty) :=
  List.replicate 3 (.core ()) ++ [.receive () (some [.arpPass])] ++ List.replicate 8 (.core ())

omit [Dpdk] in
theorem portPackets_alone_counted : ∃ _ : Dpdk, ∃ s, run Cores.step .start countedBurst = some s ∧
    s.flag.portPackets .arp = 1 ∧
      s.flag.portPackets .arp + UInt32.ofNat ((s.core ()).pending .arp) = UInt32.ofNat (s.seen .arp) := by
  let _ : Dpdk := littleEndian
  have hrun : ∃ s ∈ run Cores.step .start countedBurst, s.flag.portPackets .arp = 1 := by
    decide +kernel
  obtain ⟨s, hs, hcounter⟩ := hrun
  exact ⟨littleEndian, s, hs, hcounter, portPackets_alone countedBurst s hs .arp⟩

end Alone

/-! ### Stopping -/

section Stopping

/-- The steps that a core takes at most before it returns, once `LcoreMainIsRunning` is zero. A burst has
at most two counters for each of its packets, and four steps for each counter. -/
def CorePc.left : CorePc → Nat
  | .enter => 3
  | .check => 2
  | .unlock => 261
  | .receive => 260
  | .count todo => 4 * todo.length + 3
  | .load _ todo => 4 * todo.length + 6
  | .store _ _ todo => 4 * todo.length + 5
  | .release todo => 4 * todo.length + 4
  | .leave => 1
  | .done => 0
  | .crashed _ => 0

/-- A step brings a core nearer to its return, or it goes on because `LcoreMainIsRunning` is set. -/
theorem CorePc.step_left {g g' : GlobalFlag} {pc pc' : CorePc} (hstep : pc.step g = some (g', pc')) :
    g'.lcoreMainIsRunning = g.lcoreMainIsRunning ∧
      (pc'.left < pc.left ∨ g.lcoreMainIsRunning = true ∧ pc' = .unlock) := by
  cases pc with
  | receive => cases hstep
  | done => cases hstep
  | crashed fault => cases hstep
  | check =>
    cases hrunning : g.lcoreMainIsRunning with
    | true =>
      rw [CorePc.step, hrunning] at hstep
      cases hstep
      exact ⟨hrunning, Or.inr ⟨rfl, rfl⟩⟩
    | false =>
      rw [CorePc.step, hrunning] at hstep
      cases hstep
      exact ⟨hrunning, Or.inl (by decide)⟩
  | count todo =>
    cases todo with
    | nil =>
      cases hstep
      exact ⟨rfl, Or.inl (by decide)⟩
    | cons k todo =>
      cases hlock : g.lock with
      | true =>
        simp only [CorePc.step, GlobalFlag.trylock_eq, hlock] at hstep
        cases hstep
        refine ⟨rfl, Or.inl ?_⟩
        simp only [left, List.length_cons]
        omega
      | false =>
        simp only [CorePc.step, GlobalFlag.trylock_eq, hlock] at hstep
        cases hstep
        refine ⟨rfl, Or.inl ?_⟩
        simp only [left, List.length_cons]
        omega
  | _ =>
    cases hstep
    exact ⟨rfl, Or.inl (by simp [left])⟩

omit [Dpdk] in
theorem Handling.portPackets_length (handling : Handling) : handling.portPackets.length ≤ 2 := by
  cases handling <;> decide

omit [Dpdk] in
theorem CorePc.received_left {burst : Option (List Handling)}
    (hlength : ∀ handlings ∈ burst, handlings.length ≤ maxPktBurst) : (received burst).left < 260 := by
  match burst with
  | none => decide
  | some [] => decide
  | some (handling :: handlings) =>
    have hcounters : ∀ hs : List Handling, (hs.flatMap Handling.portPackets).length ≤ 2 * hs.length := by
      intro hs
      induction hs with
      | nil => exact Nat.le_refl 0
      | cons h hs ih =>
        have htwo := h.portPackets_length
        rw [List.flatMap_cons, List.length_append, List.length_cons]
        omega
    have hmax := hlength _ rfl
    have hle := hcounters (handling :: handlings)
    simp only [received, left, maxPktBurst] at hmax ⊢
    omega

/-- The core moves in the step. -/
def CoresAct.isBy (c : C) : CoresAct C T → Bool
  | .core d => d = c
  | .receive d _ => d = c
  | _ => false

/-- `start` sets `LcoreMainIsRunning`. -/
def Cores.SetsRunning (s : Cores C T) (a : CoresAct C T) : Prop :=
  ∃ t answer, a = .console t answer ∧ s.console t = .startSet

variable {s s' : Cores C T} {a : CoresAct C T}

/-- What a step does to a core, as far as its return goes. -/
structure Cores.Nearer (s s' : Cores C T) (a : CoresAct C T) (c : C) : Prop where
  left : (s'.core c).left + (if a.isBy c then 1 else 0) ≤ (s.core c).left ∨
    s.flag.lcoreMainIsRunning = true ∧ s'.core c = .unlock
  stays : s.flag.lcoreMainIsRunning = false → ¬s.SetsRunning a → s'.flag.lcoreMainIsRunning = false

theorem ConsolePc.step_running {g g' : GlobalFlag} {answer : Bool} {pc pc' : ConsolePc}
    (hstep : pc.step g answer = some (g', pc')) (hstopped : g.lcoreMainIsRunning = false)
    (hquiet : pc ≠ .startSet) : g'.lcoreMainIsRunning = false := by
  cases pc with
  | startSet => exact absurd rfl hquiet
  | idle => cases hstep
  | launch => cases hstep
  | quit => cases hstep
  | stopClear quits =>
    cases hstep
    rfl
  | _ =>
    cases hstep
    exact hstopped

theorem Cores.step_nearer (hstep : s.step a = some s') (c : C) : s.Nearer s' a c := by
  cases a with
  | core d =>
    obtain ⟨⟨flag, pc⟩, hlocal, rfl⟩ := Option.map_eq_some_iff.mp hstep
    obtain ⟨hrunning, hleft⟩ := CorePc.step_left hlocal
    refine ⟨?_, fun hstopped _ => hrunning.trans hstopped⟩
    by_cases hd : d = c
    · subst hd
      dsimp only
      rw [Function.update_self, CoresAct.isBy, if_pos (decide_eq_true rfl)]
      exact hleft
    · dsimp only
      rw [Function.update_of_ne (Ne.symm hd), CoresAct.isBy, if_neg (by simpa using hd)]
      exact Or.inl (Nat.le_refl _)
  | receive d burst =>
    simp only [Cores.step] at hstep
    split at hstep
    · rename_i hpc
      obtain ⟨hlength, hs'⟩ := Option.ite_none_right_eq_some.mp hstep
      obtain rfl := Option.some.inj hs'
      refine ⟨Or.inl ?_, fun hstopped _ => hstopped⟩
      by_cases hd : d = c
      · subst hd
        dsimp only
        rw [Function.update_self, CoresAct.isBy, if_pos (decide_eq_true rfl), hpc]
        exact CorePc.received_left hlength
      · dsimp only
        rw [Function.update_of_ne (Ne.symm hd), CoresAct.isBy, if_neg (by simpa using hd)]
        exact Nat.le_refl _
    · cases hstep
  | command t command =>
    simp only [Cores.step] at hstep
    split at hstep
    · cases hstep
      exact ⟨Or.inl (Nat.le_refl _), fun hstopped _ => hstopped⟩
    · cases hstep
  | console t answer =>
    obtain ⟨⟨flag, pc⟩, hlocal, rfl⟩ := Option.map_eq_some_iff.mp hstep
    refine ⟨Or.inl (Nat.le_refl _), fun hstopped hquiet => ?_⟩
    exact ConsolePc.step_running hlocal hstopped fun hset => hquiet ⟨t, answer, rfl, hset⟩
  | launch t d =>
    simp only [Cores.step] at hstep
    split at hstep
    · cases hstep
      refine ⟨Or.inl ?_, fun hstopped _ => hstopped⟩
      by_cases hd : d = c
      · subst hd
        dsimp only
        rw [Function.update_self]
        cases s.core d <;> exact Nat.le_refl _
      · dsimp only
        rw [Function.update_of_ne (Ne.symm hd)]
        exact Nat.le_refl _
    · cases hstep

/-- No core is ever farther from its return than at the beginning of a turn. -/
theorem cores_left_le {as : List (CoresAct C T)} (hrun : run Cores.step .start as = some s) (c : C) :
    (s.core c).left ≤ 261 := by
  have hstep : ∀ (s : Cores C T) a s', (s.core c).left ≤ 261 → s.step a = some s' →
      (s'.core c).left ≤ 261 := by
    intro s a s' hle hstep
    rcases (Cores.step_nearer hstep c).left with hless | ⟨-, hunlock⟩
    · omega
    · rw [hunlock]
      exact Nat.le_refl 261
  exact run_invariant hstep (show CorePc.enter.left ≤ 261 by decide) hrun

theorem cores_steps_le {as : List (CoresAct C T)} (hstopped : s.flag.lcoreMainIsRunning = false)
    (hquiet : Along Cores.step (fun s a => ¬s.SetsRunning a) s as)
    (hrun : run Cores.step s as = some s') (c : C) :
    as.countP (CoresAct.isBy c) + (s'.core c).left ≤ (s.core c).left := by
  induction as generalizing s with
  | nil =>
    obtain rfl := Option.some.inj hrun
    exact (Nat.zero_add _).le
  | cons a as ih =>
    obtain ⟨t, hstep, hrest⟩ := run_cons_eq_some.mp hrun
    obtain ⟨hset, hquiet⟩ := hquiet t hstep
    have hnearer := Cores.step_nearer hstep c
    have hle := ih (hnearer.stays hstopped hset) hquiet hrest
    rw [List.countP_cons]
    rcases hnearer.left with hless | ⟨hrunning, -⟩
    · omega
    · rw [hstopped] at hrunning
      cases hrunning

/-- A core that has not returned can always move: no step of it waits for another thread. -/
theorem core_enabled (s : Cores C T) (c : C) :
    (∃ a : CoresAct C T, a.isBy c ∧ (s.step a).isSome) ∨
      s.core c = .done ∨ ∃ fault, s.core c = .crashed fault := by
  cases hpc : s.core c with
  | done => exact Or.inr (Or.inl rfl)
  | crashed fault => exact Or.inr (Or.inr ⟨fault, rfl⟩)
  | receive =>
    refine Or.inl ⟨.receive c none, decide_eq_true rfl, ?_⟩
    simp [Cores.step, hpc]
  | count todo =>
    refine Or.inl ⟨.core c, decide_eq_true rfl, ?_⟩
    rw [Cores.step, hpc, Option.isSome_map]
    cases todo with
    | nil => rfl
    | cons k todo =>
      cases hlock : s.flag.lock <;> simp [CorePc.step, GlobalFlag.trylock_eq, hlock]
  | _ =>
    refine Or.inl ⟨.core c, decide_eq_true rfl, ?_⟩
    rw [Cores.step, hpc, Option.isSome_map]
    rfl

/-- **Stopping.** Once `LcoreMainIsRunning` is zero in any state that the cores and commands can reach,
and as long as no `start` sets it, every core returns within 261 further steps of its own, in whatever
order the threads move. -/
theorem lcoreMain_stops (before as : List (CoresAct C T)) (s s' : Cores C T)
    (hbefore : run Cores.step .start before = some s)
    (hstopped : s.flag.lcoreMainIsRunning = false)
    (hquiet : Along Cores.step (fun s a => ¬s.SetsRunning a) s as)
    (hrun : run Cores.step s as = some s') (c : C) :
    as.countP (CoresAct.isBy c) ≤ 261 ∧
      ((∃ a : CoresAct C T, a.isBy c ∧ (s'.step a).isSome) ∨
        s'.core c = .done ∨ ∃ fault, s'.core c = .crashed fault) := by
  refine ⟨?_, core_enabled s' c⟩
  calc as.countP (CoresAct.isBy c) ≤ as.countP (CoresAct.isBy c) + (s'.core c).left :=
        Nat.le_add_right _ _
    _ ≤ (s.core c).left := cores_steps_le hstopped hquiet hrun c
    _ ≤ 261 := cores_left_le hbefore c

/-- A core at its test, and a `stop` that has cleared the flag. -/
def stopCommand : List (CoresAct Unit Unit) :=
  [.core (), .command () .stop, .console () true, .console () true]

omit [Dpdk] in
theorem lcoreMain_stops_command : ∃ _ : Dpdk, ∃ s s' : Cores Unit Unit,
    run Cores.step .start stopCommand = some s ∧ run Cores.step s [.core ()] = some s' ∧
      [CoresAct.core (T := Unit) ()].countP (CoresAct.isBy ()) ≤ 261 ∧
      ((∃ a : CoresAct Unit Unit, a.isBy () ∧ (s'.step a).isSome) ∨
        s'.core () = .done ∨ ∃ fault, s'.core () = .crashed fault) := by
  let _ : Dpdk := littleEndian
  have hrun : ∃ s ∈ run Cores.step .start stopCommand, s.flag.lcoreMainIsRunning = false ∧
      (run Cores.step s [.core ()]).isSome := by
    decide +kernel
  obtain ⟨s, hs, hstopped, hsome⟩ := hrun
  obtain ⟨s', hs'⟩ := Option.isSome_iff_exists.mp hsome
  have hquiet : Along Cores.step (fun s a => ¬s.SetsRunning a) s [.core ()] := by
    refine fun _ _ => ⟨?_, trivial⟩
    rintro ⟨_, _, hconsole, _⟩
    cases hconsole
  exact ⟨littleEndian, s, s', hs, hs', lcoreMain_stops stopCommand [.core ()] s s' hs hstopped hquiet hs' ()⟩

end Stopping

end Gittest
