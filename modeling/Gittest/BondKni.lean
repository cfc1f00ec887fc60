import Gittest.Basic
import Mathlib.Data.Nat.Nth
import Mathlib.Data.Set.Function

/-!
# Receive queues and the cores that poll them

`bond_port_init` sets up a receive queue for each enabled lcore, `lcore_arg_init` numbers the lcores and
`lcore_main`, launched on each of them, polls the queue of its number. The numbering starts at the
master and goes up from there.
-/

namespace Gittest

/-! ### The EAL -/

/-- What the lcores are and what `rte_get_next_lcore(i, 1, 0)` answers. `RTE_MAX_LCORE` is a number of
16 bits. -/
structure Eal where
  maxLcore : Nat
  enabled : Finset Nat
  master : Nat
  nextLcore : Nat → Nat
  maxLcore_lt : maxLcore < 2 ^ 16
  enabled_lt : ∀ core ∈ enabled, core < maxLcore
  master_mem : master ∈ enabled
  nextLcore_spec : ∀ i,
    IsLeast {core | core ∈ enabled ∧ core ≠ master ∧ i < core} (nextLcore i) ∨
      (∀ core ∈ enabled, core ≠ master → ¬i < core) ∧ nextLcore i = maxLcore

/-- `rte_lcore_count`. -/
def Eal.lcoreCount (eal : Eal) : Nat := eal.enabled.card

/-! ### The program -/

structure C2r where
  ringId : Int
  portPackets : List UInt64

structure LcoreArg where
  lcoreMainIsRunning : Int
  bondPort : UInt16
  mp : List C2r

/-- `core_num` of `bond_port_init`. -/
def coreNum (eal : Eal) : UInt16 := UInt16.ofNat eal.lcoreCount

/-- The receive queues that `bond_port_init` sets up. -/
def rxQueues (eal : Eal) : List UInt16 := (List.range (coreNum eal).toNat).map UInt16.ofNat

/-- The loop of `lcore_arg_init`. -/
def lcoreArgLoop (eal : Eal) : Nat → Nat → Int → List C2r → Except Fault (List C2r)
  | 0, _, _, _ => .error .diverges
  | fuel + 1, coreId, ringId, mp =>
    match mp[coreId]? with
    | none => .error .outOfBounds
    | some entry =>
      let mp := mp.set coreId { entry with ringId := ringId }
      if eal.nextLcore coreId < eal.maxLcore then
        lcoreArgLoop eal fuel (eal.nextLcore coreId) (ringId + 1) mp
      else
        .ok mp

/-- What `lcore_arg_init`, run on the master, writes over its argument. No id is taken twice, so there
are no more turns than ids. -/
def lcoreArgInit (eal : Eal) : Except Fault LcoreArg := do
  let mp := List.replicate eal.maxLcore { ringId := 0, portPackets := List.replicate 4 0 }
  let mp ← lcoreArgLoop eal eal.maxLcore eal.master 0 mp
  return { lcoreMainIsRunning := 0, bondPort := 0, mp := mp }

def LcoreArg.ringId (arg : LcoreArg) (coreId : Nat) : Except Fault Int :=
  match arg.mp[coreId]? with
  | none => .error .outOfBounds
  | some entry => .ok entry.ringId

/-- The queue that `lcore_main` polls on a core. -/
def lcoreMainQueue (arg : LcoreArg) (coreId : Nat) : Except Fault UInt16 := do
  let ringId ← arg.ringId coreId
  return UInt16.ofInt ringId

/-! ### Counting up -/

section Counting

variable {s : Finset Nat} {core next : Nat}

/-- How many members of a set are below one of them: each number below the size of the set, once. -/
theorem count_bijOn (s : Finset Nat) : Set.BijOn (Nat.count (· ∈ s)) s (Set.Iio s.card) := by
  have hfinite : (Set.ofPred (· ∈ s)).Finite := s.finite_toSet
  have hcard : hfinite.toFinset = s := by
    ext core
    simp
  refine ⟨?_, ?_, ?_⟩
  · intro core hcore
    have hlt := Nat.count_lt_card hfinite hcore
    rwa [hcard] at hlt
  · intro core hcore core' hcore' heq
    exact Nat.count_injective hcore hcore' heq
  · intro n hn
    have hn' : n < hfinite.toFinset.card := by rwa [hcard]
    exact ⟨Nat.nth (· ∈ s) n, Nat.nth_mem_of_lt_card hfinite hn',
      Nat.count_nth_of_lt_card_finite hfinite hn'⟩

theorem count_next (hcore : core ∈ s) (hnext : IsLeast {c | c ∈ s ∧ core < c} next) :
    Nat.count (· ∈ s) next = Nat.count (· ∈ s) core + 1 := by
  have hsucc : Nat.count (· ∈ s) (core + 1) = Nat.count (· ∈ s) core + 1 := by
    rw [Nat.count_succ, if_pos hcore]
  have hlt : core < next := hnext.1.2
  have hle : Nat.count (· ∈ s) (core + 1) ≤ Nat.count (· ∈ s) next := Nat.count_monotone _ hlt
  have hge : Nat.count (· ∈ s) next ≤ Nat.count (· ∈ s) (core + 1) := by
    by_contra hmore
    obtain ⟨c, ⟨hc, hc'⟩, hmem⟩ := Nat.exists_of_count_lt_count (Nat.not_le.mp hmore)
    exact absurd (hnext.2 ⟨hmem, hc⟩) (Nat.not_le.mpr hc')
  omega

end Counting

/-! ### The numbers -/

section Numbers

variable {eal : Eal} {core : Nat}

/-- The lcores that the loop comes to. -/
def Eal.fromMaster (eal : Eal) : Finset Nat := eal.enabled.filter (eal.master ≤ ·)

def Eal.rank (eal : Eal) (core : Nat) : Nat := Nat.count (· ∈ eal.fromMaster) core

theorem Eal.mem_fromMaster :
    core ∈ eal.fromMaster ↔ core ∈ eal.enabled ∧ eal.master ≤ core := Finset.mem_filter

theorem Eal.master_mem_fromMaster (eal : Eal) : eal.master ∈ eal.fromMaster :=
  Eal.mem_fromMaster.mpr ⟨eal.master_mem, Nat.le_refl _⟩

theorem Eal.lt_of_mem_fromMaster (hcore : core ∈ eal.fromMaster) : core < eal.maxLcore :=
  eal.enabled_lt core (Eal.mem_fromMaster.mp hcore).1

/-- Behind an lcore that the loop comes to there is the next one of them, or none. -/
theorem Eal.next_fromMaster (hcore : core ∈ eal.fromMaster) :
    eal.nextLcore core < eal.maxLcore ∧
        IsLeast {c | c ∈ eal.fromMaster ∧ core < c} (eal.nextLcore core) ∨
      ¬eal.nextLcore core < eal.maxLcore ∧ ∀ c ∈ eal.fromMaster, ¬core < c := by
  have hge := (Eal.mem_fromMaster.mp hcore).2
  rcases eal.nextLcore_spec core with ⟨⟨hmem, -, hlt⟩, hleast⟩ | ⟨hnone, hmax⟩
  · refine Or.inl ⟨eal.enabled_lt _ hmem, ⟨?_, hlt⟩, ?_⟩
    · exact Eal.mem_fromMaster.mpr ⟨hmem, hge.trans hlt.le⟩
    · rintro c ⟨hc, hgt⟩
      exact hleast ⟨(Eal.mem_fromMaster.mp hc).1, (hge.trans_lt hgt).ne', hgt⟩
  · refine Or.inr ⟨hmax.not_lt, fun c hc hgt => ?_⟩
    exact hnone c (Eal.mem_fromMaster.mp hc).1 (hge.trans_lt hgt).ne' hgt

/-- What the loop has done from a core on. -/
structure Numbered (eal : Eal) (core : Nat) (mp mp' : List C2r) : Prop where
  length : mp'.length = mp.length
  numbers : ∀ c ∈ eal.fromMaster, core ≤ c → mp'[c]?.map C2r.ringId = some (eal.rank c : Int)
  below : ∀ c < core, mp'[c]? = mp[c]?

theorem lcoreArgLoop_numbers {fuel : Nat} {mp : List C2r} (hcore : core ∈ eal.fromMaster)
    (hlength : mp.length = eal.maxLcore) (hfuel : eal.maxLcore ≤ core + fuel) :
    ∃ mp', lcoreArgLoop eal fuel core (eal.rank core) mp = .ok mp' ∧ Numbered eal core mp mp' := by
  induction fuel generalizing core mp with
  | zero => exact absurd (Eal.lt_of_mem_fromMaster hcore) (Nat.not_lt.mpr hfuel)
  | succ fuel ih =>
    have hlt : core < mp.length := hlength ▸ Eal.lt_of_mem_fromMaster hcore
    have hget : mp[core]? = some mp[core] := List.getElem?_eq_getElem hlt
    let set := mp.set core { mp[core] with ringId := eal.rank core }
    have hset : set.length = mp.length := List.length_set
    have hself : set[core]?.map C2r.ringId = some (eal.rank core : Int) := by
      rw [List.getElem?_set_self hlt]
      rfl
    have hothers : ∀ c < core, set[c]? = mp[c]? := fun c hc => List.getElem?_set_ne hc.ne'
    unfold lcoreArgLoop
    rw [hget]
    rcases Eal.next_fromMaster hcore with ⟨hgoOn, hnext⟩ | ⟨hstop, hlast⟩
    · obtain ⟨⟨hmem, hgt⟩, hleast⟩ := id hnext
      obtain ⟨mp', hrun, hnumbered⟩ := ih hmem (hset.trans hlength) (by omega)
      have hrank : (eal.rank (eal.nextLcore core) : Int) = eal.rank core + 1 := by
        rw [Eal.rank, count_next hcore hnext]
        rfl
      rw [hrank] at hrun
      refine ⟨mp', ?_, hnumbered.length.trans hset, ?_, ?_⟩
      · exact (if_pos hgoOn).trans hrun
      · intro c hc hle
        rcases Nat.eq_or_lt_of_le hle with rfl | hc'
        · rw [hnumbered.below core hgt, hself]
        · exact hnumbered.numbers c hc (hleast ⟨hc, hc'⟩)
      · intro c hc
        rw [hnumbered.below c (hc.trans hgt), hothers c hc]
    · refine ⟨set, if_neg hstop, hset, ?_, hothers⟩
      intro c hc hle
      obtain rfl : core = c := Nat.le_antisymm hle (Nat.not_lt.mp (hlast c hc))
      exact hself

theorem Eal.rank_of_le_master (hle : core ≤ eal.master) : eal.rank core = 0 := by
  apply Nat.count_iff_forall_not.mpr
  intro c hc hmem
  have hge := (Eal.mem_fromMaster.mp hmem).2
  omega

/-- Below the master the zeros of `memset` stay. -/
theorem lcoreArgInit_ringId (eal : Eal) :
    ∃ arg, lcoreArgInit eal = .ok arg ∧
      ∀ core ∈ eal.enabled, arg.ringId core = .ok (eal.rank core : Int) := by
  let zeroed : List C2r :=
    List.replicate eal.maxLcore { ringId := 0, portPackets := List.replicate 4 0 }
  have hzeroed : zeroed.length = eal.maxLcore := List.length_replicate
  obtain ⟨mp, hrun, hnumbered⟩ :=
    lcoreArgLoop_numbers eal.master_mem_fromMaster hzeroed (Nat.le_add_left _ _)
  rw [Eal.rank_of_le_master (Nat.le_refl _)] at hrun
  refine ⟨{ lcoreMainIsRunning := 0, bondPort := 0, mp := mp }, ?_, fun core hcore => ?_⟩
  · unfold lcoreArgInit
    have hrun' : lcoreArgLoop eal eal.maxLcore eal.master 0 zeroed = .ok mp := hrun
    change (lcoreArgLoop eal eal.maxLcore eal.master 0 zeroed >>= _) = _
    rw [hrun']
    rfl
  · have hnumber : mp[core]?.map C2r.ringId = some (eal.rank core : Int) := by
      rcases Nat.lt_or_ge core eal.master with hbelow | hge
      · rw [hnumbered.below core hbelow, List.getElem?_replicate, if_pos (eal.enabled_lt core hcore),
          Eal.rank_of_le_master hbelow.le]
        rfl
      · exact hnumbered.numbers core (Eal.mem_fromMaster.mpr ⟨hcore, hge⟩) hge
    obtain ⟨entry, hget, hentry⟩ := Option.map_eq_some_iff.mp hnumber
    simp only [LcoreArg.ringId, hget, hentry]

end Numbers

/-! ### The queues -/

/-- The numbers of the enabled lcores are different ones and count them, and their queues are different
ones and all that there are. -/
structure OwnQueues (eal : Eal) (arg : LcoreArg) : Prop where
  ringIds : Set.BijOn arg.ringId eal.enabled
    (Set.image Except.ok {ringId : Int | 0 ≤ ringId ∧ ringId < eal.lcoreCount})
  queues : Set.BijOn (lcoreMainQueue arg) eal.enabled (Set.image Except.ok {q | q ∈ rxQueues eal})

section Queues

variable {eal : Eal}

theorem lcoreCount_lt (eal : Eal) : eal.lcoreCount < 2 ^ 16 := by
  have hsubset : eal.enabled ⊆ Finset.range eal.maxLcore := fun core hcore =>
    Finset.mem_range.mpr (eal.enabled_lt core hcore)
  calc eal.lcoreCount ≤ (Finset.range eal.maxLcore).card := Finset.card_le_card hsubset
    _ = eal.maxLcore := Finset.card_range _
    _ < 2 ^ 16 := eal.maxLcore_lt

/-- A number that is not negative, as a `uint16_t`. -/
theorem ofInt_natCast (n : Nat) : UInt16.ofInt n = UInt16.ofNat n := by
  apply UInt16.toNat_inj.mp
  rw [UInt16.ofInt, UInt16.toNat_ofNat', UInt16.toNat_ofNat']
  omega

theorem mem_rxQueues {q : UInt16} : q ∈ rxQueues eal ↔ q.toNat < eal.lcoreCount := by
  have hcount : (coreNum eal).toNat = eal.lcoreCount :=
    UInt16.toNat_ofNat_of_lt' (lcoreCount_lt eal)
  rw [rxQueues, hcount, List.mem_map]
  constructor
  · rintro ⟨n, hn, rfl⟩
    have hlt := List.mem_range.mp hn
    rwa [UInt16.toNat_ofNat_of_lt' (hlt.trans (lcoreCount_lt eal))]
  · intro hq
    exact ⟨q.toNat, List.mem_range.mpr hq, UInt16.ofNat_toNat⟩

theorem bijOn_ringIds (n : Nat) :
    Set.BijOn (fun rank : Nat => (Except.ok (rank : Int) : Except Fault Int)) (Set.Iio n)
      (Set.image Except.ok {ringId : Int | 0 ≤ ringId ∧ ringId < n}) := by
  refine ⟨?_, ?_, ?_⟩
  · intro rank hrank
    have hlt : rank < n := hrank
    exact ⟨rank, ⟨by omega, by omega⟩, rfl⟩
  · intro rank _ rank' _ heq
    exact Int.ofNat.inj (Except.ok.inj heq)
  · rintro _ ⟨ringId, ⟨hpos, hlt⟩, rfl⟩
    refine ⟨ringId.toNat, show ringId.toNat < n by omega, congrArg Except.ok ?_⟩
    exact Int.toNat_of_nonneg hpos

theorem bijOn_queues (eal : Eal) :
    Set.BijOn (fun rank : Nat => (Except.ok (UInt16.ofNat rank) : Except Fault UInt16))
      (Set.Iio eal.lcoreCount) (Set.image Except.ok {q | q ∈ rxQueues eal}) := by
  have hrank : ∀ rank, rank < eal.lcoreCount → (UInt16.ofNat rank).toNat = rank := fun rank hlt =>
    UInt16.toNat_ofNat_of_lt' (hlt.trans (lcoreCount_lt eal))
  refine ⟨?_, ?_, ?_⟩
  · intro rank hlt
    refine ⟨UInt16.ofNat rank, mem_rxQueues.mpr ?_, rfl⟩
    rwa [hrank rank hlt]
  · intro rank hlt rank' hlt' heq
    have hqueue := congrArg UInt16.toNat (Except.ok.inj heq)
    rwa [hrank rank hlt, hrank rank' hlt'] at hqueue
  · rintro _ ⟨q, hq, rfl⟩
    exact ⟨q.toNat, mem_rxQueues.mp hq, congrArg Except.ok UInt16.ofNat_toNat⟩

end Queues

/-- **The numbering.** Each core polls a queue of its own if and only if no enabled lcore has a lower id
than the master. -/
theorem lcoreArgInit_ownQueues_iff (eal : Eal) :
    (∃ arg, lcoreArgInit eal = .ok arg ∧ OwnQueues eal arg) ↔
      ∀ core ∈ eal.enabled, eal.master ≤ core := by
  obtain ⟨arg, hinit, hringId⟩ := lcoreArgInit_ringId eal
  constructor
  · rintro ⟨arg', hinit', hown⟩ core hcore
    obtain rfl : arg = arg' := Except.ok.inj (hinit.symm.trans hinit')
    by_contra hbelow
    have hsame : arg.ringId core = arg.ringId eal.master := by
      rw [hringId core hcore, hringId eal.master eal.master_mem,
        Eal.rank_of_le_master (Nat.not_le.mp hbelow).le, Eal.rank_of_le_master (Nat.le_refl _)]
    exact hbelow (hown.ringIds.injOn hcore eal.master_mem hsame).ge
  · intro hmaster
    have hall : eal.fromMaster = eal.enabled := Finset.filter_true_of_mem hmaster
    have hrank : Set.BijOn eal.rank eal.enabled (Set.Iio eal.lcoreCount) := by
      have hcount : Set.BijOn eal.rank eal.fromMaster (Set.Iio eal.fromMaster.card) :=
        count_bijOn eal.fromMaster
      rw [hall] at hcount
      exact hcount
    refine ⟨arg, hinit, ?_, ?_⟩
    · refine ((bijOn_ringIds eal.lcoreCount).comp hrank).congr fun core hcore => ?_
      exact (hringId core hcore).symm
    · refine ((bijOn_queues eal).comp hrank).congr fun core hcore => ?_
      unfold lcoreMainQueue
      rw [hringId core hcore]
      exact congrArg Except.ok (ofInt_natCast (eal.rank core)).symm

/-- Three lcores, the second of them the master. -/
def threeLcores : Eal where
  maxLcore := 128
  enabled := {0, 1, 2}
  master := 1
  nextLcore i := if i < 2 then 2 else 128
  maxLcore_lt := by decide
  enabled_lt := by decide
  master_mem := by decide
  nextLcore_spec i := by
    by_cases hi : i < 2
    · rw [if_pos hi]
      refine Or.inl ⟨⟨by decide, by decide, hi⟩, ?_⟩
      rintro core ⟨hmem, hne, hlt⟩
      simp only [Finset.mem_insert, Finset.mem_singleton] at hmem
      omega
    · rw [if_neg hi]
      refine Or.inr ⟨fun core hmem _ hlt => ?_, rfl⟩
      simp only [Finset.mem_insert, Finset.mem_singleton] at hmem
      omega

/-- Its lcores 0 and 1 both get the number 0, and nobody polls the last of the three queues. -/
theorem threeLcores_share :
    ∃ arg, lcoreArgInit threeLcores = .ok arg ∧ arg.ringId 0 = .ok 0 ∧ arg.ringId 1 = .ok 0 ∧
      arg.ringId 2 = .ok 1 ∧ 2 ∈ rxQueues threeLcores ∧ ¬OwnQueues threeLcores arg := by
  refine ⟨_, rfl, rfl, rfl, rfl, by decide, fun hown => ?_⟩
  have hsame : 0 = 1 := hown.ringIds.injOn (by decide) (by decide) rfl
  exact absurd hsame (by decide)

end Gittest
