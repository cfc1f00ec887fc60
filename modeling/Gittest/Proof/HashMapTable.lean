import Gittest.Proof.HashMapOps

/-!
# The hash map, the whole table

`init` makes the lists one after the other, and `clear` empties them one after the other.
-/

namespace Gittest

variable {σ : Type} {hm : HashMap} {m : Mem Entry σ} {table : Addr} {pre post : List Bucket}
  {b : Bucket}

/-! ### `init` -/

theorem owned_snoc {buckets : List Bucket} {ptr : Addr} :
    owned table (buckets ++ [⟨ptr, []⟩]) = owned table buckets ++ [ptr] := by
  rw [owned, List.flatMap_append, owned]
  rfl

/-- The array while `init` fills it: these lists are made, and the cells after theirs are not written. -/
structure Filling (hm : HashMap) (m : Mem Entry σ) (table : Addr) (capacity : Int)
    (buckets : List Bucket) : Prop where
  onHeap : ({ hm with capacity := buckets.length } : HashMap).OnHeap m table buckets
  extent : (m.block table).extent = 8 * capacity
  empty : ∀ b ∈ buckets, b.slots = []
  unwritten : ∀ i : Int, buckets.length ≤ i → m.cellOf table i = none

theorem writeCell_ok {a : Addr} {i : Int} {p : Option Addr} (hlive : a ∈ m.live)
    (hbounds : 0 ≤ i ∧ 8 * (i + 1) ≤ (m.block a).extent) :
    writeCell a i p m = .ok ((), m.put a { m.block a with
      cells := Function.update (m.block a).cells i (some p) }) := by
  rw [writeCell, if_pos hlive, if_pos hbounds]

/-- The next list is made, and its head is about to be written into the array. -/
theorem cells_snoc {buckets : List Bucket} {ptr : Addr} {cells : Int → Option (Option Addr)}
    (hfilled : ∀ (i : Nat) b, buckets[i]? = some b → cells i = some (some b.head)) {i : Nat} {b : Bucket}
    (hget : (buckets ++ [⟨ptr, []⟩])[i]? = some b) :
    Function.update cells buckets.length (some (some ptr)) i = some (some b.head) := by
  by_cases hi : i = buckets.length
  · subst hi
    rw [List.getElem?_append_right le_rfl, Nat.sub_self] at hget
    cases hget
    exact Function.update_self _ _ _
  · have hlt : i < buckets.length := by
      have hbound := (List.getElem?_eq_some_iff.mp hget).1
      rw [List.length_append, List.length_singleton] at hbound
      omega
    rw [List.getElem?_append_left hlt] at hget
    rw [Function.update_of_ne (by omega)]
    exact hfilled i b hget

theorem Filling.add {alloc : Allocator} {capacity : Int} {buckets : List Bucket} {ptr : Addr}
    {m₁ : Mem Entry σ} (hfilling : Filling hm m table capacity buckets)
    (hroom : (buckets.length : Int) < capacity) (hmade : llistCreat alloc 16 m = .ok (some ptr, m₁)) :
    ∃ m₂, writeCell table buckets.length (some ptr) m₁ = .ok ((), m₂) ∧ m₂.mallocs = m.mallocs + 1 ∧
      Filling hm m₂ table capacity (buckets ++ [⟨ptr, []⟩]) ∧
      m.Trades m₂ (owned table buckets) (owned table (buckets ++ [⟨ptr, []⟩])) := by
  obtain ⟨hlist, hnew, hlive, hsame, _⟩ := llistCreat_some hmade
  have hheap := hfilling.onHeap
  have htable := hheap.live table (List.mem_cons_self ..)
  have hne : ∀ a ∈ m.live, a ≠ ptr := fun a ha h => hnew (h ▸ ha)
  have hold : ∀ a ∈ m.live, m₁.block a = m.block a :=
    fun a ha => hsame a (by simpa using hne a ha)
  have hbounds : 0 ≤ (buckets.length : Int) ∧ 8 * (buckets.length + 1 : Int) ≤ (m₁.block table).extent := by
    rw [hold table htable, hfilling.extent]
    omega
  have hwrite := writeCell_ok (p := some ptr) (by simp [hlive, htable] : table ∈ m₁.live) hbounds
  have hcells : ∀ i, (m₁.block table).cells i = m.cellOf table i := by
    intro i
    rw [hold table htable, Mem.cellOf]
  have hlength : (buckets ++ [(⟨ptr, []⟩ : Bucket)]).length = buckets.length + 1 := by
    rw [List.length_append, List.length_singleton]
  have hmallocs := llistCreat_mallocs hmade
  refine ⟨_, hwrite, hmallocs, ?filling, ?trades⟩
  case filling =>
    refine {
      onHeap := {
        entryList := hheap.entryList, capacity := rfl, extent := ?extent, cells := ?cells
        bucket := ?bucket, nodup := ?nodup, live := ?live }
      extent := ?whole, empty := ?empty, unwritten := ?unwritten }
    case extent =>
      rw [Mem.block_put_self, hold table htable, hfilling.extent, hlength]
      push_cast
      omega
    case cells =>
      intro i b hget
      rw [Mem.cellOf, Mem.block_put_self]
      exact cells_snoc (fun i b hb => (hcells i).trans (hheap.cells i b hb)) hget
    case bucket =>
      intro b hb
      rcases List.mem_append.mp hb with hb | hb
      · have hblive : ∀ a ∈ b.addrs, a ∈ m.live := fun a ha => hheap.live a (owned_of_mem hb a ha)
        refine (hheap.bucket b hb).frame (fun a ha => ?_) fun a ha => ?_
        · have hat : a ≠ table := by
            rintro rfl
            exact (List.nodup_cons.mp hheap.nodup).1 (List.mem_flatMap.mpr ⟨b, hb, ha⟩)
          rw [Mem.block_put_of_ne _ _ hat, hold a (hblive a ha)]
        · simp only [Mem.put, hlive, Finset.mem_insert]
          exact Or.inr (hblive a ha)
      · rw [List.mem_singleton.mp hb]
        refine ⟨hlist.frame (fun a ha => ?_) hlist.live, by simp, by simp⟩
        have hat : a ≠ table := by
          rw [List.map_nil, List.mem_singleton] at ha
          rw [ha]
          exact (hne table htable).symm
        exact Mem.block_put_of_ne _ _ hat _
    case nodup =>
      rw [owned_snoc, List.nodup_append]
      refine ⟨hheap.nodup, List.nodup_singleton _, fun a ha c hc => ?_⟩
      rw [List.mem_singleton.mp hc]
      exact hne a (hheap.live a ha)
    case live =>
      intro a ha
      simp only [Mem.put, hlive, Finset.mem_insert]
      rcases List.mem_append.mp (owned_snoc ▸ ha) with ha | ha
      · exact Or.inr (hheap.live a ha)
      · exact Or.inl (List.mem_singleton.mp ha)
    case whole => rw [Mem.block_put_self, hold table htable, hfilling.extent]
    case empty =>
      intro b hb
      rcases List.mem_append.mp hb with hb | hb
      · exact hfilling.empty b hb
      · rw [List.mem_singleton.mp hb]
    case unwritten =>
      intro i hi
      rw [hlength] at hi
      push_cast at hi
      rw [Mem.cellOf, Mem.block_put_self]
      change Function.update (m₁.block table).cells buckets.length _ i = none
      rw [Function.update_of_ne (by omega), hcells]
      exact hfilling.unwritten i (by omega)
  case trades =>
    refine .add (owned_snoc.symm ▸ List.perm_append_comm) (fun a ha => ?_) fun a => ?_
    · rw [List.mem_singleton.mp ha]
      exact hnew
    · simp only [Mem.put, hlive, Finset.mem_insert, List.mem_singleton]

theorem initFrom_ok {alloc : Allocator} {capacity : Int} {remaining : Nat} {buckets : List Bucket}
    {m' : Mem Entry σ} (hfilling : Filling hm m table capacity buckets)
    (hcapacity : (buckets.length : Int) + remaining = capacity)
    (hrun : initFrom alloc (some table) remaining buckets.length m = .ok (0, m')) :
    ∃ buckets' : List Bucket, (buckets'.length : Int) = capacity ∧
      Filling hm m' table capacity buckets' ∧
      m.Trades m' (owned table buckets) (owned table buckets') := by
  induction remaining generalizing m buckets with
  | zero =>
      cases hrun
      exact ⟨buckets, by omega, hfilling, .refl⟩
  | succ remaining ih =>
      push_cast at hcapacity
      rw [initFrom] at hrun
      obtain ⟨list, m₁, hmade, hrun⟩ := of_run_bind hrun
      rw [run_bind deref_ok] at hrun
      cases list with
      | none =>
          obtain ⟨_, _, _, hrun⟩ := of_run_bind hrun
          cases hrun
      | some ptr =>
          obtain ⟨m₂, hwrite, _, hfilling₂, htrades₂⟩ := hfilling.add (by omega) hmade
          rw [run_bind hwrite, if_neg (by simp)] at hrun
          obtain ⟨buckets', hcount, hfilling', htrades'⟩ := ih hfilling₂
            (by rw [List.length_append, List.length_singleton]; push_cast; omega)
            (by
              rw [List.length_append, List.length_singleton]
              push_cast
              exact hrun)
          exact ⟨buckets', hcount, hfilling', htrades₂.trans htrades'⟩

/-- The array when `init` has just allocated it. -/
theorem filling_allocated {alloc : Allocator} {capacity : Int} (hentryList : hm.entryList = some table)
    (hcapacity : 0 ≤ capacity) (hanswer : m.answer alloc (8 * capacity) = some table) :
    Filling hm (m.allocated table (8 * capacity)) table capacity [] ∧
      (m.allocated table (8 * capacity)).Owns m.live (owned table []) := by
  have hextent : ((m.allocated table (8 * capacity)).block table).extent = 8 * capacity := by
    rw [Mem.block_allocated_self]
  refine ⟨⟨⟨hentryList, rfl, ?_, by simp, by simp, by simp [owned], by simp [owned]⟩, hextent, by simp,
    fun i _ => ?_⟩, ?_, fun a => ?_⟩
  · rw [hextent]
    simp only [List.length_nil, Int.natCast_zero]
    omega
  · rw [Mem.cellOf, Mem.block_allocated_self]
  · simpa [owned] using Mem.answer_fresh hanswer
  · simp only [Mem.live_allocated, Finset.mem_insert, owned, List.flatMap_nil, List.mem_singleton]
    exact Or.comm

theorem HashMap.init_ok {alloc : Allocator} {hashCode : Buffer → Int}
    {equal : Buffer → Buffer → Int} {capacity : Int} {m₀ : Mem Entry σ} (hcapacity : 1 ≤ capacity)
    (hinit : (HashMap.new hashCode equal capacity).init alloc m₀ = .ok ((0, hm), m)) :
    (∃ table buckets, hm.OnHeap m table buckets ∧ (∀ b ∈ buckets, b.slots = []) ∧
        m.Owns m₀.live (owned table buckets)) ∧
      hm.size = 0 ∧ hm.capacity = capacity ∧ hm.hashCode = hashCode ∧ hm.equal = equal := by
  unfold HashMap.init at hinit
  obtain ⟨entryList, m₁, hmalloc, hinit⟩ := of_run_bind hinit
  obtain ⟨ret, m₂, hloop, hinit⟩ := of_run_bind hinit
  cases hinit
  refine ⟨?_, rfl, rfl, rfl, rfl⟩
  change initFrom alloc entryList capacity.toNat 0 m₁ = _ at hloop
  cases hanswer : m₀.answer alloc (8 * capacity) with
  | none =>
      have hnone := (mallocBlock_none hanswer).symm.trans hmalloc
      cases hnone
      obtain ⟨n, hn⟩ : ∃ n, capacity.toNat = n + 1 := ⟨capacity.toNat - 1, by omega⟩
      rw [hn, initFrom] at hloop
      obtain ⟨_, _, _, hloop⟩ := of_run_bind hloop
      obtain ⟨_, _, hderef, _⟩ := of_run_bind hloop
      cases hderef
  | some table =>
      have hsome := (mallocBlock_some hanswer).symm.trans hmalloc
      cases hsome
      obtain ⟨hfilling, howns⟩ := filling_allocated 
        (show (⟨hashCode, equal, 0, capacity, capacity, some table⟩ : HashMap).entryList = some table from rfl)
        (by omega) hanswer
      obtain ⟨buckets, hcount, hfilling', htrades⟩ := initFrom_ok hfilling
        (by simp only [List.length_nil, Int.natCast_zero]; omega) hloop
      refine ⟨table, buckets, ?_, hfilling'.empty, htrades _ howns⟩
      have hheap := hfilling'.onHeap
      rw [hcount] at hheap
      exact hheap

/-! ### `clear` -/

def Bucket.emptied (b : Bucket) : Bucket := ⟨b.head, []⟩

/-- A bucket while `llist_clear` frees its slots: `rest` are the nodes that remain, and nothing but
the slots before them is gone. -/
def Emptying (b : Bucket) (m₀ : Mem Entry σ) (rest : List (Addr × Entry)) (m : Mem Entry σ) : Prop :=
  ∃ gone kept, b.slots = gone ++ kept ∧ rest = kept.map Slot.entry ∧ m.block = m₀.block ∧
    ∀ a, a ∈ m.live ↔ a ∈ m₀.live ∧ a ∉ gone.flatMap Slot.addrs

section Emptying

variable {m₀ : Mem Entry σ} {node : Addr × Entry} {rest : List (Addr × Entry)}

theorem Emptying.slot (hnodup : b.addrs.Nodup) (hlive : ∀ a ∈ b.addrs, a ∈ m₀.live)
    (hemptying : Emptying b m₀ (node :: rest) m) :
    ∃ gone s kept, b.slots = gone ++ s :: kept ∧ node = s.entry ∧ rest = kept.map Slot.entry ∧
      m.block = m₀.block ∧ (∀ a, a ∈ m.live ↔ a ∈ m₀.live ∧ a ∉ gone.flatMap Slot.addrs) ∧
      s.addrs.Nodup ∧ ∀ a ∈ s.addrs, a ≠ b.head ∧ a ∈ m.live := by
  obtain ⟨gone, kept, hslots, hrest, hblock, hleft⟩ := hemptying
  obtain ⟨s, kept, rfl, rfl, rfl⟩ := List.map_eq_cons_iff.mp hrest.symm
  rw [Bucket.addrs, hslots, List.flatMap_append, List.flatMap_cons, List.nodup_cons] at hnodup
  obtain ⟨hhead, hnodup⟩ := hnodup
  obtain ⟨_, hnodup, hapart⟩ := List.nodup_append.mp hnodup
  refine ⟨gone, s, kept, hslots, rfl, rfl, hblock, hleft, (List.nodup_append.mp hnodup).1, ?_⟩
  refine fun a ha => ⟨?_, (hleft a).mpr ⟨?_, fun hgone => ?_⟩⟩
  · rintro rfl
    exact hhead (List.mem_append_right _ (List.mem_append_left _ ha))
  · exact hlive a (Bucket.addrs_of_mem (by simp [hslots]) a ha)
  · exact hapart a hgone a (List.mem_append_left _ ha) rfl

theorem Emptying.linked (hbucket : b.OnHeap m₀) (hnodup : b.addrs.Nodup)
    (hlive : ∀ a ∈ b.addrs, a ∈ m₀.live) (hemptying : Emptying b m₀ (node :: rest) m) :
    node.1 ≠ b.head ∧ node.1 ∈ m.live ∧ Linked m.nextOf node.1 (rest.map Prod.fst) b.head := by
  obtain ⟨gone, s, kept, hslots, rfl, rfl, hblock, _, _, haddrs⟩ := hemptying.slot hnodup hlive
  obtain ⟨hne, hnode⟩ := haddrs s.node (by simp [Slot.addrs])
  have hforth := hbucket.isList.circular.forth
  rw [hslots, List.map_append, List.map_cons, List.map_append, List.map_cons] at hforth
  have hnext : m.nextOf = m₀.nextOf := by
    funext a
    rw [Mem.nextOf, hblock, Mem.nextOf]
  rw [hnext]
  exact ⟨hne, hnode, (Linked.append_cons_iff.mp hforth).2⟩

theorem Emptying.done (hemptying : Emptying b m₀ [] m) : m.block = m₀.block ∧
    ∀ a, a ∈ m.live ↔ a ∈ m₀.live ∧ a ∉ b.slots.flatMap Slot.addrs := by
  obtain ⟨gone, kept, hslots, hkept, hblock, hlive⟩ := hemptying
  rw [List.map_eq_nil_iff.mp hkept.symm, List.append_nil] at hslots
  rw [hslots]
  exact ⟨hblock, hlive⟩

theorem Emptying.step (hbucket : b.OnHeap m₀) (hnodup : b.addrs.Nodup)
    (hlive : ∀ a ∈ b.addrs, a ∈ m₀.live) (hemptying : Emptying b m₀ (node :: rest) m) :
    ∃ m', callNodeOp (some nodeDestroy) node.1 m = .ok ((), m') ∧ node.1 ∈ m'.live ∧
      Emptying b m₀ rest (m'.freed node.1) := by
  obtain ⟨gone, s, kept, hslots, rfl, rfl, hblock, hleft, hsnodup, haddrs⟩ :=
    hemptying.slot hnodup hlive
  obtain ⟨hnodeKey, hnodeValue, hvalueKey⟩ := Slot.addrs_ne hsnodup
  have hnode := (haddrs s.node (by simp [Slot.addrs])).2
  have hdata : m.dataOf s.node = some s.entry.2 := by
    rw [Mem.dataOf, hblock]
    exact hbucket.isList.data s.entry (List.mem_map_of_mem (by simp [hslots]))
  have hop := nodeDestroy_ok hnode (haddrs s.key (by simp [Slot.addrs])).2
    (haddrs s.value (by simp [Slot.addrs])).2 hvalueKey hdata
  refine ⟨_, hop, ?_, gone ++ [s], kept, by simp [hslots], rfl, hblock, fun a => ?_⟩
  · simp only [Mem.live_freed, Finset.mem_erase]
    exact ⟨hnodeValue, hnodeKey, hnode⟩
  · simp only [Mem.live_freed, Finset.mem_erase, hleft, List.flatMap_append, List.flatMap_cons,
      List.flatMap_nil, List.append_nil, List.mem_append, Slot.addrs, List.mem_cons, Slot.entry]
    tauto

end Emptying

theorem HashMap.OnHeap.clear_bucket (hheap : hm.OnHeap m table (pre ++ b :: post))
    (hcount : (b.slots.length : Int) ≤ intMax) :
    ∃ m', llistClear b.head (some nodeDestroy) m = .ok (↑b.slots.length, m') ∧
      hm.OnHeap m' table (pre ++ b.emptied :: post) ∧
      m.Trades m' (owned table (pre ++ b :: post)) (owned table (pre ++ b.emptied :: post)) := by
  have hbucket := hheap.bucket b (by simp)
  have hnodup := Bucket.addrs_nodup hheap.nodup
  have halive : ∀ a ∈ b.addrs, a ∈ m.live :=
    fun a ha => hheap.live a (owned_of_mem (b := b) (by simp) a ha)
  have hinit : Emptying b m (b.slots.map Slot.entry) m := ⟨[], b.slots, rfl, rfl, rfl, by simp⟩
  have hhead : b.head ∉ b.slots.flatMap Slot.addrs := (List.nodup_cons.mp hnodup).1
  obtain ⟨m', hemptying, hclear, hlist⟩ := llistClear_ok hbucket.isList (by simpa using hcount)
    (fun node rest m hemptying => hemptying.linked hbucket hnodup halive)
    (fun node rest m hemptying => hemptying.step hbucket hnodup halive) hinit (by
      intro m' hemptying
      obtain ⟨hblock, hlive⟩ := hemptying.done
      refine ⟨(hlive b.head).mpr ⟨hbucket.isList.head_live, hhead⟩, ?_⟩
      rw [Mem.sizeOf, hblock]
      exact hbucket.isList.size)
  obtain ⟨hblock, hlive⟩ := hemptying.done
  obtain ⟨_, hrest, hapart⟩ := List.nodup_append.mp (owned_clear_perm.nodup_iff.mp hheap.nodup)
  rw [List.length_map] at hclear
  have hsame : Mem.SameOff [b.head] m ((m'.setNext b.head b.head).setPrev b.head b.head) := by
    intro a ha
    have hne : a ≠ b.head := by simpa using ha
    rw [Mem.block_setPrev_of_ne _ _ _ hne, Mem.block_setNext_of_ne _ _ _ hne, hblock]
  refine ⟨_, hclear, hheap.update hsame ?_ ⟨hlist, by simp, by simp⟩ hrest ?_,
    .drop owned_clear_perm hheap.nodup hlive⟩
  · intro a ha
    rw [List.mem_singleton.mp ha]
    exact Or.inl (List.mem_cons_self ..)
  · intro a ha
    refine (hlive a).mpr ⟨?_, fun hgone => hapart a hgone a ha rfl⟩
    exact hheap.live a (owned_clear_perm.mem_iff.mpr (List.mem_append_right _ ha))

def slotCount (buckets : List Bucket) : Nat := (buckets.flatMap Bucket.slots).length

theorem clearLists_ok {done rest : List Bucket} {size : Int}
    (hheap : hm.OnHeap m table (done ++ rest)) (hcount : (slotCount rest : Int) ≤ size)
    (hsize : size ≤ intMax) :
    ∃ m', clearLists hm rest.length done.length size m = .ok (size - slotCount rest, m') ∧
      hm.OnHeap m' table (done ++ rest.map Bucket.emptied) ∧
      m.Trades m' (owned table (done ++ rest)) (owned table (done ++ rest.map Bucket.emptied)) := by
  induction rest generalizing m done size with
  | nil =>
      refine ⟨m, ?_, hheap, .refl⟩
      have hzero : slotCount [] = 0 := rfl
      rw [hzero, Int.natCast_zero, Int.sub_zero]
      rfl
  | cons b rest ih =>
      have hsplit : slotCount (b :: rest) = b.slots.length + slotCount rest := by
        rw [slotCount, List.flatMap_cons, List.length_append, slotCount]
      rw [hsplit] at hcount ⊢
      push_cast at hcount ⊢
      obtain ⟨m₁, hclear, hheap₁, htrades₁⟩ := hheap.clear_bucket (by omega)
      rw [List.append_cons] at hheap₁
      have hmin : intMin ≤ size - b.slots.length := le_trans (by decide : intMin ≤ 0) (by omega)
      obtain ⟨m', hrest, hheap', htrades'⟩ := ih hheap₁ (by omega)
        (by omega : size - b.slots.length ≤ intMax)
      rw [← List.append_cons, ← List.append_cons] at htrades'
      refine ⟨m', ?_, ?_, htrades₁.trans htrades'⟩
      · rw [List.length_cons, clearLists, run_bind (list_ok hheap), run_bind hclear,
          run_bind (subInt_ok hmin (by omega))]
        rw [List.length_append, List.length_singleton] at hrest
        push_cast at hrest
        rw [hrest]
        congr 2
        omega
      · rw [List.map_cons, List.append_cons]
        exact hheap'

theorem HashMap.OnHeap.clear_ok {buckets : List Bucket} (hheap : hm.OnHeap m table buckets)
    (hcount : hm.size = slotCount buckets) (hsize : hm.size ≤ intMax) :
    ∃ m', hm.clear m = .ok ((0, { hm with size := 0 }), m') ∧
      ({ hm with size := 0 } : HashMap).OnHeap m' table (buckets.map Bucket.emptied) ∧
      m.Trades m' (owned table buckets) (owned table (buckets.map Bucket.emptied)) := by
  have hstart : hm.OnHeap m table ([] ++ buckets) := hheap
  obtain ⟨m', hclear, hheap', htrades⟩ := clearLists_ok hstart (by omega) hsize
  rw [List.length_nil, Int.natCast_zero] at hclear
  have hcapacity : hm.capacity.toNat = buckets.length := by
    rw [hheap.capacity, Int.toNat_natCast]
  rw [← hcount, Int.sub_self] at hclear
  refine ⟨m', ?_, ⟨hheap'.entryList, hheap'.capacity, hheap'.extent, hheap'.cells, hheap'.bucket,
    hheap'.nodup, hheap'.live⟩, htrades⟩
  rw [HashMap.clear, hcapacity, run_bind hclear]
  rfl

/-! ### The destructor -/

theorem Bucket.OnHeap.destroy_ok (hbucket : b.OnHeap m) (hnodup : b.addrs.Nodup)
    (halive : ∀ a ∈ b.addrs, a ∈ m.live) :
    ∃ m', llistDestroy (some b.head) (some nodeDestroy) m = .ok ((), m') ∧ m'.block = m.block ∧
      ∀ a, a ∈ m'.live ↔ a ∈ m.live ∧ a ∉ b.addrs := by
  have hinit : Emptying b m (b.slots.map Slot.entry) m := ⟨[], b.slots, rfl, rfl, rfl, by simp⟩
  have hhead : b.head ∉ b.slots.flatMap Slot.addrs := (List.nodup_cons.mp hnodup).1
  have hdestroy := llistDestroy_meets (Emptying b m) hbucket.isList
    (fun node rest m hemptying => hemptying.linked hbucket hnodup halive)
    (callNodeOp_meets fun node rest m hemptying => hemptying.step hbucket hnodup halive) hinit (by
      intro m' hemptying
      exact ((hemptying.done).2 b.head).mpr ⟨hbucket.isList.head_live, hhead⟩)
  obtain ⟨⟨_, _⟩, hrun, m', hemptying, rfl⟩ := hdestroy.exists_ok
  obtain ⟨hblock, hlive⟩ := hemptying.done
  refine ⟨m'.freed b.head, hrun, hblock, fun a => ?_⟩
  rw [Mem.live_freed, Finset.mem_erase, hlive, Bucket.addrs, List.mem_cons]
  tauto

theorem destroyLists_ok {done rest : List Bucket} {m₀ : Mem Entry σ}
    (hheap : hm.OnHeap m₀ table (done ++ rest)) (hblock : m.block = m₀.block)
    (hlive : ∀ a, a ∈ m.live ↔ a ∈ m₀.live ∧ a ∉ done.flatMap Bucket.addrs) :
    ∃ m', destroyLists hm rest.length done.length m = .ok ((), m') ∧ m'.block = m₀.block ∧
      ∀ a, a ∈ m'.live ↔ a ∈ m₀.live ∧ a ∉ (done ++ rest).flatMap Bucket.addrs := by
  induction rest generalizing m done with
  | nil => exact ⟨m, rfl, hblock, by simpa using hlive⟩
  | cons b rest ih =>
      have hnodup := hheap.nodup
      rw [owned, List.nodup_cons, List.flatMap_append, List.flatMap_cons] at hnodup
      obtain ⟨htable, hnodup⟩ := hnodup
      obtain ⟨_, hrest, hapart⟩ := List.nodup_append.mp hnodup
      have htableLive : table ∈ m.live := by
        refine (hlive table).mpr ⟨hheap.live table (List.mem_cons_self ..), fun hgone => ?_⟩
        exact htable (List.mem_append_left _ hgone)
      have halive : ∀ a ∈ b.addrs, a ∈ m.live := by
        intro a ha
        refine (hlive a).mpr ⟨hheap.live a (owned_of_mem (b := b) (by simp) a ha), fun hgone => ?_⟩
        exact hapart a hgone a (List.mem_append_left _ ha) rfl
      have hbucket : b.OnHeap m :=
        (hheap.bucket b (by simp)).frame (fun a _ => congrFun hblock a) halive
      obtain ⟨m₁, hdestroy, hblock₁, hlive₁⟩ :=
        hbucket.destroy_ok (List.nodup_append.mp hrest).1 halive
      have hcell : readCell table done.length m = .ok (some b.head, m) := by
        have hcapacity := hheap.capacity
        rw [List.length_append, List.length_cons] at hcapacity
        have hextent := hheap.extent
        refine readCell_ok htableLive ⟨by omega, ?_⟩ ?_
        · rw [hblock]
          push_cast at hcapacity
          omega
        · rw [Mem.cellOf, hblock]
          exact hheap.cells done.length b (by simp)
      rw [List.append_cons] at hheap
      obtain ⟨m', hrun, hblock', hlive'⟩ := ih hheap (hblock₁.trans hblock) fun a => by
        rw [hlive₁, hlive, List.flatMap_append, List.flatMap_cons, List.flatMap_nil, List.append_nil,
          List.mem_append]
        tauto
      rw [← List.append_cons] at hlive'
      refine ⟨m', ?_, hblock', hlive'⟩
      rw [List.length_append, List.length_singleton] at hrun
      push_cast at hrun
      rw [List.length_cons, destroyLists, hheap.entryList, run_bind deref_ok, run_bind hcell,
        run_bind hdestroy, hrun]

/-- The destructor frees all that the map owns. -/
theorem HashMap.OnHeap.destroy_ok {buckets : List Bucket} (hheap : hm.OnHeap m table buckets) :
    ∃ m', hm.destroy m = .ok ((), m') ∧ m.Trades m' (owned table buckets) [] := by
  have hstart : hm.OnHeap m table ([] ++ buckets) := hheap
  obtain ⟨m', hrun, _, hlive⟩ := destroyLists_ok hstart rfl (by simp)
  rw [List.nil_append] at hlive
  have hcapacity : hm.capacity.toNat = buckets.length := by
    rw [hheap.capacity, Int.toNat_natCast]
  have htable : table ∈ m'.live :=
    (hlive table).mpr ⟨hheap.live table (List.mem_cons_self ..), (List.nodup_cons.mp hheap.nodup).1⟩
  rw [List.length_nil, Int.natCast_zero] at hrun
  have hperm : (owned table buckets).Perm (owned table buckets ++ []) := by simp
  refine ⟨m'.freed table, ?_, .drop hperm hheap.nodup fun a => ?_⟩
  · rw [HashMap.destroy, hheap.entryList, hcapacity]
    exact (run_bind hrun).trans (freeBlock_ok htable)
  · rw [Mem.live_freed, Finset.mem_erase, hlive, owned, List.mem_cons]
    tauto

end Gittest
