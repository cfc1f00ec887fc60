import Gittest.Proof.HashMapTable

/-!
# `init` and what it leaves

`init` sets the capacity before it makes the lists, and does not look at what it is. If a list cannot be made
`init` stops there, and the destructor goes through the whole array.
-/

namespace Gittest

variable {σ : Type} {hm : HashMap} {m : Mem Entry σ} {table : Addr} {capacity : Int}
  {buckets : List Bucket} {alloc : Allocator}

/-! ### An `init` that fails -/

/-- The array when `init` has given up: after these lists there is a `NULL`, and then nothing is written. -/
structure Abandoned (hm : HashMap) (m : Mem Entry σ) (table : Addr) (capacity : Int)
    (buckets : List Bucket) : Prop where
  onHeap : ({ hm with capacity := buckets.length } : HashMap).OnHeap m table buckets
  extent : (m.block table).extent = 8 * capacity
  null : m.cellOf table buckets.length = some none
  unwritten : ∀ i : Int, buckets.length < i → m.cellOf table i = none

theorem Filling.abandon (hfilling : Filling hm m table capacity buckets)
    (hroom : (buckets.length : Int) < capacity) :
    ∃ m', writeCell table buckets.length none m.refused = .ok ((), m') ∧ m'.live = m.live ∧
      Abandoned hm m' table capacity buckets := by
  have hheap := hfilling.onHeap
  have htable := hheap.live table (List.mem_cons_self ..)
  have hbounds : 0 ≤ (buckets.length : Int) ∧ 8 * (buckets.length + 1 : Int) ≤ (m.block table).extent := by
    rw [hfilling.extent]
    omega
  refine ⟨_, writeCell_ok htable hbounds, rfl,
    ⟨⟨hheap.entryList, rfl, ?_, fun i b hget => ?_, fun b hb => ?_, hheap.nodup, hheap.live⟩, ?_, ?_,
      fun i hi => ?_⟩⟩
  · rw [Mem.block_put_self]
    exact hheap.extent
  · have hlt := (List.getElem?_eq_some_iff.mp hget).1
    rw [Mem.cellOf, Mem.block_put_self]
    exact (Function.update_of_ne (by omega) _ _).trans (hheap.cells i b hget)
  · refine (hheap.bucket b hb).frame (fun a ha => ?_) fun a ha => hheap.live a (owned_of_mem hb a ha)
    apply Mem.block_put_of_ne
    rintro rfl
    exact (List.nodup_cons.mp hheap.nodup).1 (List.mem_flatMap.mpr ⟨b, hb, ha⟩)
  · rw [Mem.block_put_self]
    exact hfilling.extent
  · rw [Mem.cellOf, Mem.block_put_self]
    exact Function.update_self _ _ _
  · rw [Mem.cellOf, Mem.block_put_self]
    exact (Function.update_of_ne (by omega) _ _).trans (hfilling.unwritten i (by omega))

theorem initFrom_refused {made remaining : Nat} (hfilling : Filling hm m table capacity buckets)
    (hcapacity : (buckets.length : Int) + remaining = capacity) (hmade : made < remaining)
    (hfirst : alloc.FailsFirst m.mallocs made) :
    ∃ buckets' m', buckets'.length = buckets.length + made ∧
      initFrom alloc (some table) remaining buckets.length m = .ok (-1, m') ∧
      Abandoned hm m' table capacity buckets' ∧
      m.Trades m' (owned table buckets) (owned table buckets') := by
  induction made generalizing m buckets remaining with
  | zero =>
      obtain ⟨rest, rfl⟩ : ∃ rest, remaining = rest + 1 := ⟨remaining - 1, by omega⟩
      push_cast at hcapacity
      obtain ⟨m', hwrite, hlive, habandoned⟩ := hfilling.abandon (by omega)
      refine ⟨buckets, m', rfl, ?_, habandoned, fun base howns => ⟨howns.1, fun a => ?_⟩⟩
      · rw [initFrom, run_bind (llistCreat_none 16 (hfirst.refused 24)), run_bind deref_ok,
          run_bind hwrite, if_pos rfl]
        rfl
      · rw [hlive]
        exact howns.2 a
  | succ made ih =>
      obtain ⟨rest, rfl⟩ : ∃ rest, remaining = rest + 1 := ⟨remaining - 1, by omega⟩
      push_cast at hcapacity
      obtain ⟨⟨ptr, hanswer⟩, hfirst'⟩ := hfirst.answered rfl (by decide : (0 : Int) ≤ 24)
      obtain ⟨m₁, hcreat⟩ := llistCreat_ok 16 hanswer
      obtain ⟨m₂, hwrite, hmallocs, hfilling₂, htrades₂⟩ := hfilling.add (by omega) hcreat
      have hlength : (buckets ++ [(⟨ptr, []⟩ : Bucket)]).length = buckets.length + 1 := by
        rw [List.length_append, List.length_singleton]
      rw [← hmallocs] at hfirst'
      have hrest : ((buckets ++ [(⟨ptr, []⟩ : Bucket)]).length : Int) + rest = capacity := by
        rw [hlength]
        push_cast
        omega
      obtain ⟨buckets', m', hcount, hrun, habandoned, htrades'⟩ := ih hfilling₂ hrest (by omega) hfirst'
      rw [hlength] at hcount hrun
      refine ⟨buckets', m', by omega, ?_, habandoned, htrades₂.trans htrades'⟩
      rw [initFrom, run_bind hcreat, run_bind deref_ok, run_bind hwrite, if_neg (by simp)]
      exact hrun

/-! ### The destructor after it -/

theorem destroyLists_setCapacity (hm : HashMap) (c : Int) (remaining : Nat) (i : Int) :
    (destroyLists { hm with capacity := c } remaining i : MemM Entry σ Unit)
      = destroyLists hm remaining i := by
  induction remaining generalizing i with
  | zero => rfl
  | succ remaining ih => simp only [destroyLists, ih]

/-- The loop of the destructor is cut in two. -/
theorem destroyLists_add {m₁ : Mem Entry σ} {n : Nat} {i : Int}
    (hrun : destroyLists hm n i m = .ok ((), m₁)) (k : Nat) :
    destroyLists hm (n + k) i m = destroyLists hm k (i + n) m₁ := by
  induction n generalizing i m with
  | zero =>
      cases hrun
      rw [Nat.zero_add, Int.natCast_zero, Int.add_zero]
  | succ n ih =>
      rw [destroyLists] at hrun
      obtain ⟨entryList, _, hderef, hrun⟩ := of_run_bind hrun
      obtain ⟨list, _, hcell, hrun⟩ := of_run_bind hrun
      obtain ⟨_, _, hdestroy, hrun⟩ := of_run_bind hrun
      rw [Nat.add_right_comm, destroyLists, run_bind hderef, run_bind hcell, run_bind hdestroy, ih hrun]
      congr 1
      push_cast
      omega

theorem readCell_unwritten {i : Int} (hlive : table ∈ m.live)
    (hbounds : 0 ≤ i ∧ 8 * (i + 1) ≤ (m.block table).extent) (hcell : m.cellOf table i = none) :
    readCell table i m = .error .uninitialised := by
  rw [readCell, if_pos hlive, if_pos hbounds, hcell]

section Destructor

variable (habandoned : Abandoned hm m table hm.capacity buckets)

include habandoned

/-- The lists that were made are destroyed, and the destructor comes to what follows the `NULL`. -/
theorem Abandoned.destroy_made (rest : Nat) (hcapacity : (buckets.length : Int) + 1 + rest = hm.capacity) :
    ∃ m₁, hm.destroy m = (do destroyLists hm rest (buckets.length + 1); freeBlock table) m₁ ∧
      m₁.block = m.block ∧ table ∈ m₁.live ∧
      ∀ a, a ∈ m₁.live ↔ a ∈ m.live ∧ a ∉ buckets.flatMap Bucket.addrs := by
  have hheap := habandoned.onHeap
  have hstart : ({ hm with capacity := buckets.length } : HashMap).OnHeap m table ([] ++ buckets) := hheap
  obtain ⟨m₁, hrun, hblock, hlive⟩ := destroyLists_ok hstart rfl (by simp)
  rw [List.nil_append] at hlive
  rw [List.length_nil, Int.natCast_zero, destroyLists_setCapacity] at hrun
  have htable : table ∈ m₁.live :=
    (hlive table).mpr ⟨hheap.live table (List.mem_cons_self ..), (List.nodup_cons.mp hheap.nodup).1⟩
  have hcount : hm.capacity.toNat = buckets.length + (rest + 1) := by omega
  have hnull : readCell table buckets.length m₁ = .ok (none, m₁) := by
    refine readCell_ok htable ⟨by omega, ?_⟩ ?_
    · rw [hblock, habandoned.extent]
      omega
    · rw [Mem.cellOf, hblock]
      exact habandoned.null
  have hentryList : hm.entryList = some table := hheap.entryList
  have hdestroyed : ∀ f : Unit → MemM Entry σ Unit,
      (destroyLists hm hm.capacity.toNat 0 >>= f) m
        = (destroyLists hm rest (buckets.length + 1) >>= f) m₁ := by
    intro f
    have hloop : destroyLists hm hm.capacity.toNat 0 m
        = destroyLists hm rest (buckets.length + 1) m₁ := by
      rw [hcount, destroyLists_add hrun, Int.zero_add, destroyLists, hentryList, run_bind deref_ok,
        run_bind hnull]
      rfl
    change (destroyLists hm hm.capacity.toNat 0 m >>= fun p => f p.1 p.2) = _
    rw [hloop]
    rfl
  refine ⟨m₁, ?_, hblock, htable, hlive⟩
  rw [HashMap.destroy, hentryList]
  exact hdestroyed _

theorem Abandoned.destroy_last (hlast : (buckets.length : Int) + 1 = hm.capacity) {base : Finset Addr}
    (howns : m.Owns base (owned table buckets)) :
    ∃ m', hm.destroy m = .ok ((), m') ∧ m'.live = base := by
  obtain ⟨m₁, hdestroy, _, htable, hlive⟩ := habandoned.destroy_made 0 (by omega)
  have hperm : (owned table buckets).Perm (owned table buckets ++ []) := by simp
  have htrades : m.Trades (m₁.freed table) (owned table buckets) [] := by
    refine .drop hperm habandoned.onHeap.nodup fun a => ?_
    rw [Mem.live_freed, Finset.mem_erase, hlive, owned, List.mem_cons]
    tauto
  refine ⟨m₁.freed table, ?_, ?_⟩
  · rw [hdestroy]
    exact freeBlock_ok htable
  · ext a
    simpa using (htrades base howns).2 a

theorem Abandoned.destroy_uninitialised (hmore : (buckets.length : Int) + 1 < hm.capacity) :
    hm.destroy m = .error .uninitialised := by
  obtain ⟨rest, hrest⟩ : ∃ rest : Nat, (buckets.length : Int) + 1 + (rest + 1) = hm.capacity :=
    ⟨(hm.capacity - buckets.length - 2).toNat, by omega⟩
  obtain ⟨m₁, hdestroy, hblock, htable, _⟩ := habandoned.destroy_made (rest + 1) (by omega)
  have hcell : readCell table (buckets.length + 1) m₁ = .error .uninitialised := by
    refine readCell_unwritten htable ⟨by omega, ?_⟩ ?_
    · rw [hblock, habandoned.extent]
      omega
    · rw [Mem.cellOf, hblock]
      exact habandoned.unwritten _ (by omega)
  have hentryList : hm.entryList = some table := habandoned.onHeap.entryList
  have hloop : destroyLists hm (rest + 1) (buckets.length + 1) m₁ = .error .uninitialised := by
    rw [destroyLists, hentryList, run_bind deref_ok, run_bind_error hcell]
  rw [hdestroy, run_bind_error hloop]

end Destructor

/-! ### Which failures can be destroyed -/

/-- `init` returns -1, and the destructor frees what `init` has allocated, without a fault. -/
def HashMap.FailsDestroyably (alloc : Allocator) (hm : HashMap) (m₀ : Mem Entry σ) : Prop :=
  ∃ hm' m m', hm.init alloc m₀ = .ok ((-1, hm'), m) ∧ hm'.destroy m = .ok ((), m') ∧ m'.live = m₀.live

theorem initFrom_null (remaining : Nat) (i : Int) :
    initFrom alloc none (remaining + 1) i m = .error .nullPointer := by
  obtain ⟨list, m', hcreat⟩ : ∃ list m', llistCreat alloc 16 m = .ok (list, m') := by
    cases hanswer : m.answer alloc 24 with
    | none => exact ⟨none, _, llistCreat_none 16 hanswer⟩
    | some ptr =>
        obtain ⟨m', hcreat⟩ := llistCreat_ok 16 hanswer
        exact ⟨some ptr, m', hcreat⟩
  have hderef : deref none m' = .error .nullPointer := rfl
  rw [initFrom, run_bind hcreat, run_bind_error hderef]

section New

variable {hashCode : Buffer → Int} {equal : Buffer → Buffer → Int} {m₀ : Mem Entry σ}

/-- The array is refused, and the first list is written to `NULL`. -/
theorem init_array_refused (hcapacity : 1 ≤ capacity) (hfirst : alloc.FailsFirst m₀.mallocs 0) :
    (HashMap.new hashCode equal capacity).init alloc m₀ = .error .nullPointer := by
  obtain ⟨n, hn⟩ : ∃ n, capacity.toNat = n + 1 := ⟨capacity.toNat - 1, by omega⟩
  have hloop : initFrom alloc none capacity.toNat 0 m₀.refused = .error .nullPointer := by
    rw [hn]
    exact initFrom_null n 0
  have hmalloc := mallocBlock_none (hfirst.refused (8 * capacity))
  rw [HashMap.init]
  exact (run_bind hmalloc).trans (run_bind_error hloop)

variable (hashCode equal) in
/-- A list is refused after `made` lists. -/
theorem init_list_refused {made : Nat} (hmade : (made : Int) < capacity)
    (hfirst : alloc.FailsFirst m₀.mallocs (made + 1)) :
    ∃ hm m table buckets, (HashMap.new hashCode equal capacity).init alloc m₀ = .ok ((-1, hm), m) ∧
      hm.capacity = capacity ∧ buckets.length = made ∧ Abandoned hm m table hm.capacity buckets ∧
      m.Owns m₀.live (owned table buckets) := by
  let new (table : Addr) : HashMap := ⟨hashCode, equal, 0, capacity, capacity, some table⟩
  obtain ⟨⟨table, hanswer⟩, hfirst'⟩ := hfirst.answered rfl (by omega : 0 ≤ 8 * capacity)
  obtain ⟨hfilling, howns⟩ := filling_allocated (rfl : (new table).entryList = some table)
    (by omega : 0 ≤ capacity) hanswer
  have hcount : (([] : List Bucket).length : Int) + capacity.toNat = capacity := by
    rw [List.length_nil]
    omega
  obtain ⟨buckets, m, hlength, hrun, habandoned, htrades⟩ :=
    initFrom_refused hfilling hcount (by omega) hfirst'
  rw [List.length_nil, Nat.zero_add] at hlength
  refine ⟨new table, m, table, buckets, ?_, rfl, hlength, habandoned, htrades _ howns⟩
  rw [HashMap.init]
  exact (run_bind (mallocBlock_some hanswer)).trans (run_bind hrun)

/-- **A failed `init`.** It leaves a map that can be destroyed if and only if the list that could not be made
is the last one. -/
theorem hashMap_failed_init_destroyable (hcapacity : 1 ≤ capacity) {j : Nat} (hj : j ≤ capacity)
    (hfirst : alloc.FailsFirst m₀.mallocs j) :
    (HashMap.new hashCode equal capacity).FailsDestroyably alloc m₀ ↔ (j : Int) = capacity := by
  cases j with
  | zero =>
      have hinit : (HashMap.new hashCode equal capacity).init alloc m₀ = .error .nullPointer :=
        init_array_refused hcapacity hfirst
      constructor
      · rintro ⟨_, _, _, hfails, _⟩
        rw [hinit] at hfails
        cases hfails
      · intro heq
        omega
  | succ made =>
      push_cast at hj ⊢
      have hmade : (made : Int) < capacity := by omega
      obtain ⟨hm, m, table, buckets, hinit, rfl, hlength, habandoned, howns⟩ :=
        init_list_refused hashCode equal hmade hfirst
      constructor
      · rintro ⟨_, _, _, hfails, hdestroy, _⟩
        rw [hinit] at hfails
        cases hfails
        by_contra hne
        rw [habandoned.destroy_uninitialised (by omega)] at hdestroy
        cases hdestroy
      · intro heq
        obtain ⟨m', hdestroy, hlive⟩ := habandoned.destroy_last (by omega) howns
        exact ⟨hm, m, m', hinit, hdestroy, hlive⟩

end New

theorem hashMap_failed_init_destroyable_last :
    (failsAt 2).FailsFirst (Mem.empty (α := Entry) ()).mallocs 2 ∧
    (HashMap.new (fun _ => 0) (fun _ _ => 0) 2).FailsDestroyably (failsAt 2) (.empty ()) := by
  have hfirst : (failsAt 2).FailsFirst (Mem.empty (α := Entry) ()).mallocs 2 := failsAt_failsFirst 0 2
  exact ⟨hfirst, (hashMap_failed_init_destroyable (by decide) (by decide) hfirst).mpr rfl⟩

/-- Of two lists the first cannot be made: the destructor reads the pointer to the second, which nobody has
written. Without an array it does not come to that. -/
theorem hashMap_failed_init_reads_unwritten : ∃ (hm : HashMap) (m : Mem Entry Unit),
    (HashMap.new (fun _ => 0) (fun _ _ => 0) 2).init (failsAt 1) (.empty ()) = .ok ((-1, hm), m) ∧
    hm.destroy m = .error .uninitialised ∧
    ¬(HashMap.new (fun _ => 0) (fun _ _ => 0) 2).FailsDestroyably (failsAt 1) (Mem.empty (α := Entry) ()) ∧
    (HashMap.new (fun _ => 0) (fun _ _ => 0) 2).init (failsAt 0) (Mem.empty (α := Entry) ())
      = .error .nullPointer := by
  obtain ⟨hm, m, hinit, hdestroy⟩ : ∃ (hm : HashMap) (m : Mem Entry Unit),
      (HashMap.new (fun _ => 0) (fun _ _ => 0) 2).init (failsAt 1) (.empty ()) = .ok ((-1, hm), m) ∧
      hm.destroy m = .error .uninitialised := ⟨_, _, rfl, rfl⟩
  refine ⟨hm, m, hinit, hdestroy, ?_, rfl⟩
  rintro ⟨hm', m', m'', hfails, hdestroyed, _⟩
  rw [hinit] at hfails
  cases hfails
  rw [hdestroy] at hdestroyed
  cases hdestroyed

/-! ### The bucket of every hash code -/

/-- The index that is computed for the key is that of a list, and it is one that was not there before
`init`. -/
def HashMap.PicksBucket (hm : HashMap) (m₀ m : Mem Entry σ) (key : Src) : Prop :=
  ∃ i list, hm.entryIndex key m = .ok (i, m) ∧ (0 ≤ i ∧ i < hm.capacity) ∧
    hm.list i m = .ok (list, m) ∧ m.IsList list 16 [] ∧ list ∉ m₀.live

theorem init_capacity {hashCode : Buffer → Int} {equal : Buffer → Buffer → Int} {m₀ : Mem Entry σ}
    {ret : Int} (hinit : (HashMap.new hashCode equal capacity).init alloc m₀ = .ok ((ret, hm), m)) :
    hm.capacity = capacity := by
  rw [HashMap.init] at hinit
  obtain ⟨_, _, _, hinit⟩ := of_run_bind hinit
  obtain ⟨_, _, _, hinit⟩ := of_run_bind hinit
  cases hinit
  rfl

/-- **Every hash code has a bucket** in a map that `init` has returned 0 for, if and only if the capacity is
not below 1. -/
theorem hashMap_picks_bucket {hashCode : Buffer → Int} {equal : Buffer → Buffer → Int} {m₀ : Mem Entry σ}
    (hinit : (HashMap.new hashCode equal capacity).init alloc m₀ = .ok ((0, hm), m)) {key : Src}
    {bytes : Buffer} (hkey : key.Is m bytes) : hm.PicksBucket m₀ m key ↔ 1 ≤ capacity := by
  constructor
  · rintro ⟨i, list, _, ⟨hlower, hupper⟩, _⟩
    rw [init_capacity hinit] at hupper
    omega
  · intro hcapacity
    obtain ⟨⟨table, buckets, hheap, hempty, howns⟩, _, rfl, _⟩ := HashMap.init_ok hcapacity hinit
    obtain ⟨pre, b, post, rfl, hpre⟩ := hheap.pick (by omega) (hm.hashCode bytes)
    have hbound := hheap.capacity
    rw [List.length_append, List.length_cons] at hbound
    have hindex := entryIndex_ok hkey (by omega : 0 < hm.capacity)
    rw [← hpre] at hindex
    have hslots := hempty b (by simp)
    have hlist := (hheap.bucket b (by simp)).isList
    rw [hslots] at hlist
    refine ⟨pre.length, b.head, hindex, ⟨by omega, by omega⟩, list_ok hheap, hlist, ?_⟩
    exact howns.1 b.head (owned_of_mem (b := b) (by simp) _ (List.mem_cons_self ..))

theorem hashMap_picks_bucket_negative : ∃ (hm : HashMap) (m : Mem Entry Unit),
    (HashMap.new (fun _ => -7) (fun _ _ => 0) 2).init nextAddress (.empty ()) = .ok ((0, hm), m) ∧
    hm.PicksBucket (.empty ()) m (.caller []) := by
  obtain ⟨hm, m, hinit⟩ : ∃ (hm : HashMap) (m : Mem Entry Unit),
      (HashMap.new (fun _ => -7) (fun _ _ => 0) 2).init nextAddress (.empty ()) = .ok ((0, hm), m) :=
    ⟨_, _, rfl⟩
  have hkey : (Src.caller []).Is m [] := rfl
  exact ⟨hm, m, hinit, (hashMap_picks_bucket hinit hkey).mpr (by decide)⟩

/-- With a capacity of 0 the remainder is by zero, and with one of -1 the remainder of the least `int`
overflows; `init` returns 0 for both. -/
theorem hashMap_without_buckets :
    (∃ (hm : HashMap) (m : Mem Entry Unit),
      (HashMap.new (fun _ => 5) (fun _ _ => 0) 0).init nextAddress (.empty ()) = .ok ((0, hm), m) ∧
      hm.entryIndex (.caller []) m = .error .divisionByZero ∧
      ¬hm.PicksBucket (.empty ()) m (.caller [])) ∧
    ∃ (hm : HashMap) (m : Mem Entry Unit),
      (HashMap.new (fun _ => intMin) (fun _ _ => 0) (-1)).init nextAddress (.empty ())
        = .ok ((0, hm), m) ∧
      hm.entryIndex (.caller []) m = .error .signedOverflow := by
  constructor
  · obtain ⟨hm, m, hinit, hindex⟩ : ∃ (hm : HashMap) (m : Mem Entry Unit),
        (HashMap.new (fun _ => 5) (fun _ _ => 0) 0).init nextAddress (.empty ()) = .ok ((0, hm), m) ∧
        hm.entryIndex (.caller []) m = .error .divisionByZero := ⟨_, _, rfl, rfl⟩
    refine ⟨hm, m, hinit, hindex, ?_⟩
    rintro ⟨i, list, hpicked, _⟩
    rw [hindex] at hpicked
    cases hpicked
  · exact ⟨_, _, rfl, rfl⟩

end Gittest
