import Gittest.Proof.HashMapHeap

/-!
# The hash map, function by function

Each of `insert`, `find`, `has_key` and `erase` picks one bucket from the hash code of its key and
searches it. What it makes of the map is said in terms of the slots of that bucket.
-/

namespace Gittest

variable {σ : Type}

/-! ### The bucket of a key -/

def bucketIndex (capacity hashCode : Int) : Int :=
  if hashCode.tmod capacity < 0 then hashCode.tmod capacity + capacity else hashCode.tmod capacity

theorem bucketIndex_eq_emod {capacity : Int} (hcapacity : 0 < capacity) (hashCode : Int) :
    bucketIndex capacity hashCode = hashCode % capacity := by
  have hnonneg := Int.emod_nonneg hashCode (by omega : capacity ≠ 0)
  have hlt := Int.emod_lt_of_pos hashCode hcapacity
  rw [bucketIndex, Int.tmod_eq_emod]
  split <;> split <;> omega

theorem HashMap.OnHeap.pick {hm : HashMap} {m : Mem Entry σ} {table : Addr} {buckets : List Bucket}
    (hheap : hm.OnHeap m table buckets) (hpos : 0 < hm.capacity) (hashCode : Int) :
    ∃ pre b post, buckets = pre ++ b :: post ∧ (pre.length : Int) = bucketIndex hm.capacity hashCode := by
  have hindex := bucketIndex_eq_emod hpos hashCode
  have hnonneg := Int.emod_nonneg hashCode (Int.ne_of_gt hpos)
  have hlt := Int.emod_lt_of_pos hashCode hpos
  have hcapacity := hheap.capacity
  obtain ⟨i, hi⟩ := Int.eq_ofNat_of_zero_le hnonneg
  have hbound : i < buckets.length := by omega
  refine ⟨buckets.take i, buckets[i], buckets.drop (i + 1), ?_, ?_⟩
  · rw [← List.drop_eq_getElem_cons hbound, List.take_append_drop]
  · rw [List.length_take]
    omega

/-- What the bytes at a `const void *` are. -/
def Src.Is (src : Src) (m : Mem Entry σ) (bytes : Buffer) : Prop :=
  match src with
  | .caller given => given = bytes
  | .block a => a ∈ m.live ∧ m.bytesOf a = bytes

/-- The first slot of the bucket whose key is equal to `key`. -/
structure HashMap.FirstHit (hm : HashMap) (b : Bucket) (key : Buffer) (us : List Slot) (s : Slot)
    (vs : List Slot) : Prop where
  slots : b.slots = us ++ s :: vs
  hit : hm.equal key s.keyBytes = 0
  before : ∀ u ∈ us, hm.equal key u.keyBytes ≠ 0

section Parts

variable {hm : HashMap} {m : Mem Entry σ} {table : Addr} {pre post : List Bucket} {b : Bucket}
  {us vs : List Slot} {s : Slot} {src : Src} {key : Buffer} {alloc : Allocator}

theorem Src.Is.read (hsrc : src.Is m key) : readSrc src m = .ok (key, m) := by
  cases src with
  | caller given =>
      cases hsrc
      rfl
  | block a =>
      obtain ⟨hlive, rfl⟩ := hsrc
      exact readBytes_ok hlive

theorem Src.Is.allocated {a : Addr} {size : Int} (hsrc : src.Is m key) (hnew : a ∉ m.live) :
    src.Is (m.allocated a size) key := by
  cases src with
  | caller given => exact hsrc
  | block c =>
      obtain ⟨hlive, rfl⟩ := hsrc
      have hne : c ≠ a := fun h => hnew (h ▸ hlive)
      refine ⟨by simp [hlive], ?_⟩
      rw [Mem.bytesOf, Mem.block_allocated_of_ne _ _ _ hne, Mem.bytesOf]

theorem entryIndex_ok (hsrc : src.Is m key) (hcapacity : 0 < hm.capacity) :
    hm.entryIndex src m = .ok (bucketIndex hm.capacity (hm.hashCode key), m) := by
  have hlower : intMin ≤ (hm.hashCode key).tmod hm.capacity + hm.capacity := by
    have hlt := Int.lt_tmod_of_pos (hm.hashCode key) hcapacity
    exact le_trans (by decide : intMin ≤ 0) (by omega)
  rw [HashMap.entryIndex, run_bind hsrc.read, run_bind (remInt_ok hcapacity), bucketIndex]
  split
  · exact addNegative_ok hlower
  · rfl

theorem list_ok (hheap : hm.OnHeap m table (pre ++ b :: post)) :
    hm.list pre.length m = .ok (b.head, m) := by
  have hcapacity := hheap.capacity
  rw [List.length_append, List.length_cons] at hcapacity
  have hextent := hheap.extent
  have hcell := hheap.cells pre.length b (by simp)
  have hread := readCell_ok (hheap.live table (List.mem_cons_self ..))
    ⟨by omega, by push_cast at hcapacity; omega⟩ hcell
  rw [HashMap.list, hheap.entryList, run_bind deref_ok, run_bind hread, deref_ok]

/-! ### Searching a bucket -/

/-- What `equal` says of the key and an entry. -/
def HashMap.compare (hm : HashMap) (m : Mem Entry σ) (key : Buffer) (entry : Entry) : Int :=
  match entry.key with
  | some a => hm.equal key (m.bytesOf a)
  | none => 0

theorem compare_entry (hbucket : b.OnHeap m) (hmem : s ∈ b.slots) :
    hm.compare m key s.entry.2 = hm.equal key s.keyBytes := by
  change hm.equal key (m.bytesOf s.key) = _
  rw [hbucket.keys s hmem]

theorem cmp_ok (hheap : hm.OnHeap m table (pre ++ b :: post)) (hsrc : src.Is m key) :
    ∀ node ∈ b.slots.map Slot.entry, hm.cmp src node.1 m = .ok (hm.compare m key node.2, m) := by
  intro node hmem
  have hbucket := hheap.bucket b (by simp)
  have hdata := hbucket.isList.data node hmem
  have hlive := hbucket.isList.node_live hmem
  obtain ⟨s, hs, rfl⟩ := List.mem_map.mp hmem
  have hkey : s.key ∈ m.live := by
    refine hheap.live s.key (owned_of_mem (b := b) (by simp) _ ?_)
    exact Bucket.addrs_of_mem hs _ (by simp [Slot.addrs])
  rw [HashMap.cmp, run_bind (readData_ok hlive hdata)]
  change (deref (some s.key) >>= _) m = _
  rw [run_bind deref_ok, run_bind (readBytes_ok hkey), run_bind hsrc.read]
  rfl

theorem find?_miss (hbucket : b.OnHeap m) (hmiss : ∀ s ∈ b.slots, hm.equal key s.keyBytes ≠ 0) :
    (b.slots.map Slot.entry).find? (hits (hm.compare m key)) = none := by
  rw [List.find?_eq_none]
  intro node hmem
  obtain ⟨s, hs, rfl⟩ := List.mem_map.mp hmem
  rw [hits, compare_entry hbucket hs, decide_eq_true_iff]
  exact hmiss s hs

theorem hits_slots (hbucket : b.OnHeap m) (hfirst : hm.FirstHit b key us s vs) :
    hits (hm.compare m key) s.entry = true ∧
      ∀ node ∈ us.map Slot.entry, ¬hits (hm.compare m key) node = true := by
  refine ⟨?_, fun node hmem => ?_⟩
  · rw [hits, compare_entry hbucket (by simp [hfirst.slots]), decide_eq_true_iff]
    exact hfirst.hit
  · obtain ⟨u, hu, rfl⟩ := List.mem_map.mp hmem
    rw [hits, compare_entry hbucket (by simp [hfirst.slots, hu]), decide_eq_true_iff]
    exact hfirst.before u hu

theorem find?_hit (hbucket : b.OnHeap m) (hfirst : hm.FirstHit b key us s vs) :
    (b.slots.map Slot.entry).find? (hits (hm.compare m key)) = some s.entry := by
  obtain ⟨hfound, hothers⟩ := hits_slots hbucket hfirst
  rw [List.find?_eq_some_iff_append]
  refine ⟨hfound, us.map Slot.entry, vs.map Slot.entry, by simp [hfirst.slots], ?_⟩
  intro node hmem
  simpa using hothers node hmem

theorem eraseP_hit (hbucket : b.OnHeap m) (hfirst : hm.FirstHit b key us s vs) :
    (b.slots.map Slot.entry).eraseP (hits (hm.compare m key)) = (us ++ vs).map Slot.entry := by
  obtain ⟨hfound, hothers⟩ := hits_slots hbucket hfirst
  rw [hfirst.slots, List.map_append, List.map_cons, List.eraseP_append_right _ hothers,
    List.eraseP_cons_of_pos hfound, List.map_append]

end Parts

/-! ### `find`, `has_key` and `erase` -/

/-- The bucket that an operation on `key`, which is read from `src`, works on. -/
structure HashMap.Located (hm : HashMap) (m : Mem Entry σ) (table : Addr) (pre : List Bucket)
    (b : Bucket) (post : List Bucket) (src : Src) (key : Buffer) : Prop where
  onHeap : hm.OnHeap m table (pre ++ b :: post)
  index : (pre.length : Int) = bucketIndex hm.capacity (hm.hashCode key)
  src_is : src.Is m key

section Operations

variable {hm : HashMap} {m : Mem Entry σ} {table : Addr} {pre post : List Bucket} {b : Bucket}
  {us vs : List Slot} {s : Slot} {src : Src} {key : Buffer} {alloc : Allocator}

namespace HashMap.Located

variable (hloc : hm.Located m table pre b post src key)

include hloc

theorem bucket : b.OnHeap m := hloc.onHeap.bucket b (by simp)

theorem addrs_live : ∀ a ∈ b.addrs, a ∈ m.live :=
  fun a ha => hloc.onHeap.live a (owned_of_mem (b := b) (by simp) a ha)

theorem run_list {β : Type} (f : Addr → MemM Entry σ β) :
    (hm.entryIndex src >>= fun i => hm.list i >>= f) m = f b.head m := by
  have hcapacity := hloc.onHeap.capacity
  rw [List.length_append, List.length_cons] at hcapacity
  rw [run_bind (entryIndex_ok hloc.src_is (by omega)), ← hloc.index,
    run_bind (list_ok hloc.onHeap)]

theorem search_miss (hmiss : ∀ s ∈ b.slots, hm.equal key s.keyBytes ≠ 0) :
    llistFind b.head (hm.cmp src) m = .ok (none, m) := by
  rw [llistFind_eq hloc.bucket.isList (cmp_ok hloc.onHeap hloc.src_is),
    find?_miss hloc.bucket hmiss]
  rfl

theorem search_hit (hfirst : hm.FirstHit b key us s vs) :
    llistFind b.head (hm.cmp src) m = .ok (some s.node, m) := by
  rw [llistFind_eq hloc.bucket.isList (cmp_ok hloc.onHeap hloc.src_is),
    find?_hit hloc.bucket hfirst]
  rfl

theorem readData_hit (hfirst : hm.FirstHit b key us s vs) :
    readData s.node m = .ok (s.entry.2, m) := by
  have hmem : s.entry ∈ b.slots.map Slot.entry := List.mem_map_of_mem (by simp [hfirst.slots])
  exact readData_ok (hloc.bucket.isList.node_live hmem) (hloc.bucket.isList.data _ hmem)

theorem find_miss (hmiss : ∀ s ∈ b.slots, hm.equal key s.keyBytes ≠ 0) :
    hm.find src m = .ok (none, m) := by
  rw [HashMap.find, hloc.run_list, run_bind (hloc.search_miss hmiss)]
  rfl

theorem find_hit (hfirst : hm.FirstHit b key us s vs) : hm.find src m = .ok (some s.value, m) := by
  rw [HashMap.find, hloc.run_list, run_bind (hloc.search_hit hfirst)]
  dsimp only
  rw [run_bind (hloc.readData_hit hfirst)]
  rfl

theorem hasKey_miss (hmiss : ∀ s ∈ b.slots, hm.equal key s.keyBytes ≠ 0) :
    hm.hasKey src m = .ok (0, m) := by
  rw [HashMap.hasKey, hloc.run_list, run_bind (hloc.search_miss hmiss)]
  rfl

theorem hasKey_hit (hfirst : hm.FirstHit b key us s vs) : hm.hasKey src m = .ok (1, m) := by
  rw [HashMap.hasKey, hloc.run_list, run_bind (hloc.search_hit hfirst)]
  rfl

theorem erase_miss (hmiss : ∀ s ∈ b.slots, hm.equal key s.keyBytes ≠ 0) :
    hm.erase src m = .ok ((-1, hm), m) := by
  rw [HashMap.erase, hloc.run_list, run_bind (llistDelet_none hloc.bucket.isList
    (cmp_ok hloc.onHeap hloc.src_is) (find?_miss hloc.bucket hmiss) _)]
  rfl

end HashMap.Located

theorem nodeDestroy_ok {a k v : Addr} (ha : a ∈ m.live) (hk : k ∈ m.live) (hv : v ∈ m.live)
    (hkv : v ≠ k) (hdata : m.dataOf a = some ⟨some k, some v⟩) :
    nodeDestroy a m = .ok ((), (m.freed k).freed v) := by
  rw [nodeDestroy, run_bind (readData_ok ha hdata)]
  change (freeBlock k >>= fun _ => freeBlock v) m = _
  rw [run_bind (freeBlock_ok hk), freeBlock_ok (by simp [hkv, hv])]

theorem Slot.addrs_ne (hnodup : s.addrs.Nodup) :
    s.node ≠ s.key ∧ s.node ≠ s.value ∧ s.value ≠ s.key := by
  simp only [Slot.addrs, List.nodup_cons, List.mem_cons, List.not_mem_nil, or_false, not_or] at hnodup
  exact ⟨hnodup.1.1, hnodup.1.2, Ne.symm hnodup.2.1⟩

/-- The blocks of one slot are live and not those of the rest of the map, which are live as well. -/
theorem HashMap.OnHeap.slot_apart {head : Addr}
    (hheap : hm.OnHeap m table (pre ++ ⟨head, us ++ s :: vs⟩ :: post)) :
    s.addrs.Nodup ∧ (∀ a ∈ s.addrs, a ∈ m.live) ∧
      (owned table (pre ++ ⟨head, us ++ vs⟩ :: post)).Nodup ∧
      ∀ a ∈ owned table (pre ++ ⟨head, us ++ vs⟩ :: post), a ∉ s.addrs ∧ a ∈ m.live := by
  obtain ⟨hslot, hrest, hapart⟩ :=
    List.nodup_append.mp (owned_slot_perm.nodup_iff.mp hheap.nodup)
  have hlive : ∀ a ∈ s.addrs ++ owned table (pre ++ ⟨head, us ++ vs⟩ :: post), a ∈ m.live :=
    fun a ha => hheap.live a (owned_slot_perm.mem_iff.mpr ha)
  refine ⟨hslot, fun a ha => hlive a (List.mem_append_left _ ha), hrest, fun a ha => ⟨?_, ?_⟩⟩
  · intro hs
    exact hapart a hs a ha rfl
  · exact hlive a (List.mem_append_right _ ha)

theorem HashMap.Located.erase_hit (hloc : hm.Located m table pre b post src key)
    (hfirst : hm.FirstHit b key us s vs) (hmin : intMin ≤ hm.size - 1) (hmax : hm.size - 1 ≤ intMax) :
    ∃ m', hm.erase src m = .ok ((0, { hm with size := hm.size - 1 }), m') ∧
      ({ hm with size := hm.size - 1 } : HashMap).OnHeap m' table
        (pre ++ ⟨b.head, us ++ vs⟩ :: post) ∧
      m.Trades m' (owned table (pre ++ b :: post))
        (owned table (pre ++ ⟨b.head, us ++ vs⟩ :: post)) := by
  have hbucket := hloc.bucket
  obtain ⟨m₁, hunlinked, hdelet⟩ := llistDelet_some hbucket.isList
    (cmp_ok hloc.onHeap hloc.src_is) (find?_hit hbucket hfirst) (some nodeDestroy)
  rw [eraseP_hit hbucket hfirst] at hunlinked
  obtain ⟨head, slots⟩ := b
  obtain rfl : slots = us ++ s :: vs := hfirst.slots
  -- the blocks that remain are live, and not the ones that go
  obtain ⟨hsnodup, hgone, hnodup, hkeep⟩ := hloc.onHeap.slot_apart
  obtain ⟨hnodeKey, hnodeValue, hvalueKey⟩ := Slot.addrs_ne hsnodup
  have hop : callNodeOp (some nodeDestroy) s.node m₁ = .ok ((), (m₁.freed s.key).freed s.value) := by
    refine nodeDestroy_ok ?_ ?_ ?_ hvalueKey hunlinked.data
    all_goals
      rw [hunlinked.live]
      exact hgone _ (by simp [Slot.addrs])
  have hnode : s.node ∈ ((m₁.freed s.key).freed s.value).live := by
    simp only [Mem.live_freed, hunlinked.live, Finset.mem_erase]
    exact ⟨hnodeValue, hnodeKey, hgone _ (by simp [Slot.addrs])⟩
  have hlive : ∀ a ∈ owned table (pre ++ ⟨head, us ++ vs⟩ :: post),
      a ∈ (((m₁.freed s.key).freed s.value).freed s.node).live := by
    intro a ha
    obtain ⟨hout, hold⟩ := hkeep a ha
    simp only [Slot.addrs, List.mem_cons, List.not_mem_nil, or_false, not_or] at hout
    simp only [Mem.live_freed, hunlinked.live, Finset.mem_erase]
    exact ⟨hout.1, hout.2.2, hout.2.1, hold⟩
  refine ⟨((m₁.freed s.key).freed s.value).freed s.node, ?_, ?_,
    .drop owned_slot_perm hloc.onHeap.nodup fun a => ?_⟩
  · rw [HashMap.erase, hloc.run_list, run_bind (hdelet _ hop hnode), if_pos rfl,
      run_bind (subInt_ok hmin hmax)]
    rfl
  · refine hloc.onHeap.update hunlinked.same (fun a ha => Or.inl (Bucket.list_addrs a ha)) ?_
      hnodup hlive
    have hin : ∀ a ∈ (⟨head, us ++ vs⟩ : Bucket).addrs,
        a ∈ (((m₁.freed s.key).freed s.value).freed s.node).live :=
      fun a ha => hlive a (owned_of_mem (b := ⟨head, us ++ vs⟩) (by simp) a ha)
    have hbytes := fun t (ht : t ∈ us ++ s :: vs) =>
      hbucket.bytes_same (Bucket.addrs_nodup hloc.onHeap.nodup) hloc.addrs_live hunlinked.same
        (fun a ha => Or.inl ha) ht
    exact ⟨hunlinked.isList.frame (fun _ _ => rfl) fun a ha => hin a (Bucket.list_addrs a ha),
      fun t ht => (hbytes t (mem_with ht s)).1, fun t ht => (hbytes t (mem_with ht s)).2⟩
  · simp only [Mem.live_freed, hunlinked.live, Finset.mem_erase, Slot.addrs, List.mem_cons,
      List.not_mem_nil, or_false]
    tauto

/-! ### `insert` -/

theorem memcpyTo_ok {a : Addr} {n : Int} {data : Buffer} (hlive : a ∈ m.live)
    (hsrc : src.Is m data) (hn : 0 ≤ n) (hdst : n ≤ (m.bytesOf a).length) (hfits : n ≤ data.length) :
    memcpyTo (some a) src n m
      = .ok ((), m.setBytes a (data.take n.toNat ++ (m.bytesOf a).drop n.toNat)) := by
  rw [memcpyTo, run_bind deref_ok, run_bind hsrc.read, run_bind (readBytes_ok hlive),
    memcpy_ok hn hdst hfits]
  exact writeBytes_ok hlive

/-- The heap with a copy of the front of `data` in a block of its own. -/
def Mem.stored (m : Mem Entry σ) (a : Addr) (n : Int) (data : Buffer) : Mem Entry σ :=
  (m.allocated a n).setBytes a (data.take n.toNat)

theorem memcpyTo_allocated {a : Addr} {n : Int} {data : Buffer} (hnew : a ∉ m.live)
    (hsrc : src.Is m data) (hn : 0 ≤ n) (hfits : n ≤ data.length) :
    memcpyTo (some a) src n (m.allocated a n) = .ok ((), m.stored a n data) := by
  have hlength : (((m.allocated a n).bytesOf a).length : Int) = n := by
    rw [m.bytesOf_allocated, List.length_replicate]
    omega
  have hlive : a ∈ (m.allocated a n).live := by simp
  have hcopy := memcpyTo_ok hlive (hsrc.allocated hnew) hn (by omega) hfits
  rw [List.drop_eq_nil_of_le (by omega), List.append_nil] at hcopy
  exact hcopy

@[simp] theorem live_stored (a : Addr) (n : Int) (data : Buffer) :
    (m.stored a n data).live = insert a m.live := rfl

theorem block_stored_of_ne {a c : Addr} (hne : c ≠ a) (n : Int) (data : Buffer) :
    (m.stored a n data).block c = m.block c := by
  rw [Mem.stored, Mem.block_setBytes_of_ne _ _ hne, Mem.block_allocated_of_ne _ _ _ hne]

theorem bytesOf_stored (a : Addr) (n : Int) (data : Buffer) :
    (m.stored a n data).bytesOf a = data.take n.toNat :=
  Mem.bytesOf_setBytes _ _ _

theorem Src.Is.stored {a : Addr} {n : Int} {data : Buffer} (hsrc : src.Is m key)
    (hnew : a ∉ m.live) : src.Is (m.stored a n data) key := by
  cases src with
  | caller given => exact hsrc
  | block c =>
      obtain ⟨hlive, rfl⟩ := hsrc
      have hne : c ≠ a := fun h => hnew (h ▸ hlive)
      refine ⟨by simp [hlive], ?_⟩
      rw [Mem.bytesOf, block_stored_of_ne hne, Mem.bytesOf]

theorem owned_snoc_perm : (owned table (pre ++ ⟨b.head, b.slots ++ [s]⟩ :: post)).Perm
    (s.addrs ++ owned table (pre ++ b :: post)) := by
  have hsplit : (⟨b.head, b.slots ++ []⟩ : Bucket) = b := by rw [List.append_nil]
  have hslot : (owned table (pre ++ ⟨b.head, b.slots ++ [s]⟩ :: post)).Perm
      (s.addrs ++ owned table (pre ++ ⟨b.head, b.slots ++ []⟩ :: post)) := owned_slot_perm
  rwa [hsplit] at hslot

theorem HashMap.OnHeap.add_slot {m' : Mem Entry σ} (hheap : hm.OnHeap m table (pre ++ b :: post))
    (hfresh : ∀ a ∈ s.addrs, a ∉ m.live) (hnodup : s.addrs.Nodup)
    (hsame : Mem.SameOff (s.addrs ++ b.head :: (b.slots.map Slot.entry).map Prod.fst) m m')
    (hlive : ∀ a, a ∈ m'.live ↔ a ∈ s.addrs ∨ a ∈ m.live)
    (hlist : m'.IsList b.head 16 (b.slots.map Slot.entry ++ [s.entry]))
    (hkey : m'.bytesOf s.key = s.keyBytes) (hvalue : m'.bytesOf s.value = s.valueBytes) (size : Int) :
    ({ hm with size := size } : HashMap).OnHeap m' table
      (pre ++ ⟨b.head, b.slots ++ [s]⟩ :: post) := by
  have halive : ∀ a ∈ b.addrs, a ∈ m.live :=
    fun a ha => hheap.live a (owned_of_mem (b := b) (by simp) a ha)
  have hbytes := fun t (ht : t ∈ b.slots) =>
    (hheap.bucket b (by simp)).bytes_same (Bucket.addrs_nodup hheap.nodup) halive hsame
      (fun a ha => (List.mem_append.mp ha).symm.imp_right (hfresh a)) ht
  refine hheap.update hsame ?_ ⟨?_, ?_, ?_⟩ ?_ ?_
  · intro a ha
    rcases List.mem_append.mp ha with hs | hb
    · exact Or.inr (hfresh a hs)
    · exact Or.inl (Bucket.list_addrs a hb)
  · rw [List.map_append]
    exact hlist
  · intro t ht
    rcases List.mem_append.mp ht with hold | hnew
    · exact (hbytes t hold).1
    · rw [List.mem_singleton.mp hnew]
      exact hkey
  · intro t ht
    rcases List.mem_append.mp ht with hold | hnew
    · exact (hbytes t hold).2
    · rw [List.mem_singleton.mp hnew]
      exact hvalue
  · rw [owned_snoc_perm.nodup_iff, List.nodup_append]
    refine ⟨hnodup, hheap.nodup, ?_⟩
    rintro a hs c hold rfl
    exact hfresh a hs (hheap.live a hold)
  · intro a ha
    rw [hlive]
    exact (List.mem_append.mp (owned_snoc_perm.mem_iff.mp ha)).imp_right (hheap.live a)

/-- What `malloc` answers to an `insert` of a new key, which does not fail. -/
structure Mem.Grants (m : Mem Entry σ) (alloc : Allocator) (key : Buffer) (keySize : Int) (value : Buffer)
    (valueSize : Int) (k v n : Addr) : Prop where
  keyBlock : m.answer alloc keySize = some k
  valueBlock : (m.stored k keySize key).answer alloc valueSize = some v
  nodeBlock : ((m.stored k keySize key).stored v valueSize value).answer alloc (16 + 16) = some n

theorem Mem.exists_grants (htotal : alloc.Total) {keySize valueSize : Int} (hkeySize : 0 ≤ keySize)
    (hvalueSize : 0 ≤ valueSize) (m : Mem Entry σ) (key value : Buffer) :
    ∃ k v n, m.Grants alloc key keySize value valueSize k v n := by
  obtain ⟨k, hk⟩ := Mem.exists_answer htotal hkeySize m
  obtain ⟨v, hv⟩ := Mem.exists_answer htotal hvalueSize (m.stored k keySize key)
  obtain ⟨n, hn⟩ := Mem.exists_answer htotal (by decide : (0 : Int) ≤ 16 + 16)
    ((m.stored k keySize key).stored v valueSize value)
  exact ⟨k, v, n, hk, hv, hn⟩

/-- A key that is not in the map: two copies are made, and the list is as it was when the node is added. -/
theorem HashMap.Located.insert_copies (hloc : hm.Located m table pre b post src key)
    (hmiss : ∀ s ∈ b.slots, hm.equal key s.keyBytes ≠ 0) {vsrc : Src} {value : Buffer}
    (hvsrc : vsrc.Is m value) {keySize valueSize : Int} (hkeySize : 0 ≤ keySize ∧ keySize ≤ key.length)
    (hvalueSize : 0 ≤ valueSize ∧ valueSize ≤ value.length) {k v : Addr}
    (hk : m.answer alloc keySize = some k)
    (hv : (m.stored k keySize key).answer alloc valueSize = some v) :
    hm.insert alloc (some src) keySize (some vsrc) valueSize m = (do
        if (← llistInsert alloc b.head (⟨some k, some v⟩ : Entry) llistBackward) ≠ 0 then
          return (-1, hm)
        else
          return (0, { hm with size := ← incr hm.size }))
        ((m.stored k keySize key).stored v valueSize value) ∧
      ((m.stored k keySize key).stored v valueSize value).IsList b.head 16
        (b.slots.map Slot.entry) := by
  have hbucket := hloc.bucket
  have hknew := Mem.answer_fresh hk
  have hvnew := Mem.answer_fresh hv
  rw [live_stored, Finset.mem_insert, not_or] at hvnew
  have hkey := memcpyTo_allocated hknew hloc.src_is hkeySize.1 hkeySize.2
  have hvalue := memcpyTo_allocated (Mem.answer_fresh hv) (hvsrc.stored hknew) hvalueSize.1
    hvalueSize.2
  refine ⟨?_, hbucket.isList.frame (fun a ha => ?_) fun a ha => ?_⟩
  · rw [HashMap.insert, hloc.run_list, run_bind (hloc.search_miss hmiss)]
    dsimp only
    rw [run_bind (mallocBlock_some hk), run_bind hkey, run_bind (mallocBlock_some hv),
      run_bind hvalue]
  · have halive := hbucket.isList.live a ha
    have hav : a ≠ v := fun h => hvnew.2 (h ▸ halive)
    have hak : a ≠ k := fun h => hknew (h ▸ halive)
    rw [block_stored_of_ne hav, block_stored_of_ne hak]
  · simp [hbucket.isList.live a ha]

/-- A key that is not in the map, and whose node is added at the end of the bucket. What is left to do
is to count it. -/
theorem HashMap.Located.insert_miss (hloc : hm.Located m table pre b post src key)
    (hmiss : ∀ s ∈ b.slots, hm.equal key s.keyBytes ≠ 0)
    {vsrc : Src} {value : Buffer} (hvsrc : vsrc.Is m value) {keySize valueSize : Int}
    (hkeySize : 0 ≤ keySize ∧ keySize ≤ key.length)
    (hvalueSize : 0 ≤ valueSize ∧ valueSize ≤ value.length) {k v n : Addr}
    (hgrants : m.Grants alloc key keySize value valueSize k v n) :
    ∃ m' s, s.keyBytes = key.take keySize.toNat ∧ s.valueBytes = value.take valueSize.toNat ∧
      hm.insert alloc (some src) keySize (some vsrc) valueSize m = (do
        let size ← incr hm.size
        return (0, { hm with size := size })) m' ∧
      (∀ size, ({ hm with size := size } : HashMap).OnHeap m' table
        (pre ++ ⟨b.head, b.slots ++ [s]⟩ :: post)) ∧
      m.Trades m' (owned table (pre ++ b :: post))
        (owned table (pre ++ ⟨b.head, b.slots ++ [s]⟩ :: post)) := by
  obtain ⟨hk, hv, hn⟩ := hgrants
  have hbucket := hloc.bucket
  obtain ⟨hcopies, hlist⟩ := hloc.insert_copies hmiss hvsrc hkeySize hvalueSize hk hv
  have hknew := Mem.answer_fresh hk
  have hvnew := Mem.answer_fresh hv
  rw [live_stored, Finset.mem_insert, not_or] at hvnew
  have hnnew := Mem.answer_fresh hn
  simp only [live_stored, Finset.mem_insert, not_or] at hnnew
  obtain ⟨m', hinsert, hinserted⟩ := llistInsert_backward hlist (by decide) ⟨some k, some v⟩ hn
  have hoff : ∀ a, a ∉ m.live → a ≠ n →
      m'.block a = ((m.stored k keySize key).stored v valueSize value).block a := by
    intro a ha hne
    apply hinserted.same a
    intro hmem
    rcases List.mem_cons.mp hmem with h | h
    · exact hne h
    · exact ha (hbucket.isList.live a h)
  let s : Slot := ⟨n, k, v, key.take keySize.toNat, value.take valueSize.toNat⟩
  have hfresh : ∀ a ∈ s.addrs, a ∉ m.live := by
    intro a ha
    simp only [s, Slot.addrs, List.mem_cons, List.not_mem_nil, or_false] at ha
    rcases ha with rfl | rfl | rfl
    · exact hnnew.2.2
    · exact hknew
    · exact hvnew.2
  have hlive : ∀ a, a ∈ m'.live ↔ a ∈ s.addrs ∨ a ∈ m.live := by
    intro a
    simp only [s, hinserted.live, live_stored, Finset.mem_insert, Slot.addrs, List.mem_cons,
      List.not_mem_nil, or_false]
    tauto
  refine ⟨m', s, rfl, rfl, ?_, hloc.onHeap.add_slot hfresh ?_ ?_ hlive hinserted.isList ?_ ?_,
    .add owned_snoc_perm hfresh hlive⟩
  · rw [hcopies, run_bind hinsert, if_neg (by decide)]
  · simp only [s, Slot.addrs, List.nodup_cons, List.mem_cons, List.not_mem_nil, or_false, not_or]
    exact ⟨⟨hnnew.2.1, hnnew.1⟩, Ne.symm hvnew.1, id, List.nodup_nil⟩
  · intro a ha
    simp only [s, Slot.addrs, List.mem_append, List.mem_cons, List.not_mem_nil, or_false, not_or] at ha
    rw [hinserted.same a (by simp only [List.mem_cons, not_or]; tauto),
      block_stored_of_ne ha.1.2.2, block_stored_of_ne ha.1.2.1]
  · rw [Mem.bytesOf, hoff k hknew (Ne.symm hnnew.2.1), block_stored_of_ne (Ne.symm hvnew.1)]
    exact bytesOf_stored k keySize key
  · rw [Mem.bytesOf, hoff v hvnew.2 (Ne.symm hnnew.1)]
    exact bytesOf_stored v valueSize value

/-- The heap after the value of a slot has been freed and a copy of the front of `data` put in its
place. -/
def Mem.revalued (m : Mem Entry σ) (s : Slot) (v : Addr) (n : Int) (data : Buffer) : Mem Entry σ :=
  (((m.freed s.value).allocated v n).setData s.node ⟨some s.key, some v⟩).setBytes v
    (data.take n.toNat)

theorem live_revalued (v : Addr) (n : Int) (data : Buffer) (a : Addr) :
    a ∈ (m.revalued s v n data).live ↔ a = v ∨ a ≠ s.value ∧ a ∈ m.live := by
  simp only [Mem.revalued, Mem.live_setBytes, Mem.live_setData, Mem.live_allocated, Mem.live_freed,
    Finset.mem_insert, Finset.mem_erase]

theorem block_revalued_of_ne {v a : Addr} (hv : a ≠ v) (hnode : a ≠ s.node) (n : Int)
    (data : Buffer) : (m.revalued s v n data).block a = m.block a := by
  rw [Mem.revalued, Mem.block_setBytes_of_ne _ _ hv, Mem.block_setData_of_ne _ _ _ hnode,
    Mem.block_allocated_of_ne _ _ _ hv, Mem.block_freed]

theorem isList_revalued {head v : Addr} {n : Int} {data : Buffer}
    (hlist : m.IsList head 16 ((us ++ s :: vs).map Slot.entry))
    (hne : ∀ a ∈ head :: ((us ++ s :: vs).map Slot.entry).map Prod.fst, a ≠ s.value ∧ a ≠ v) :
    (m.revalued s v n data).IsList head 16
      ((us ++ { s with value := v, valueBytes := data.take n.toNat } :: vs).map Slot.entry) := by
  have hmade : ((m.freed s.value).allocated v n).IsList head 16
      ((us ++ s :: vs).map Slot.entry) := by
    refine hlist.frame (fun a ha => ?_) fun a ha => ?_
    · rw [Mem.block_allocated_of_ne _ _ _ (hne a ha).2, Mem.block_freed]
    · simp [hlist.live a ha, (hne a ha).1]
  rw [List.map_append, List.map_cons] at hmade ⊢
  have hset := hmade.setData (y := (⟨some s.key, some v⟩ : Entry))
  refine hset.frame (fun a ha => Mem.block_setBytes_of_ne _ _ (hne a ?_).2 _) hset.live
  rw [List.map_append, List.map_append, List.map_cons, List.map_cons]
  rw [List.map_append, List.map_cons] at ha
  exact ha

/-- The new block may be where the old value was, and is none of the other live ones. -/
theorem Mem.ne_answered {a v : Addr} (hnew : v ∉ (m.freed s.value).live) (ha : a ∈ m.live)
    (hvalue : a ≠ s.value) : a ≠ v := by
  rintro rfl
  exact hnew (Finset.mem_erase.mpr ⟨hvalue, ha⟩)

/-- The other slots keep their bytes. -/
theorem HashMap.OnHeap.bytes_revalued {head v : Addr}
    (hheap : hm.OnHeap m table (pre ++ ⟨head, us ++ s :: vs⟩ :: post))
    (hnew : v ∉ (m.freed s.value).live) (n : Int) (data : Buffer) :
    ∀ t ∈ us ++ vs, (m.revalued s v n data).bytesOf t.key = t.keyBytes ∧
      (m.revalued s v n data).bytesOf t.value = t.valueBytes := by
  intro t ht
  have hbucket := hheap.bucket ⟨head, us ++ s :: vs⟩ (by simp)
  obtain ⟨_, _, _, hothers⟩ := hheap.slot_apart
  have hkeep : ∀ a ∈ t.addrs, (m.revalued s v n data).block a = m.block a := by
    intro a ha
    obtain ⟨hout, halive⟩ := hothers a (owned_of_mem (b := ⟨head, us ++ vs⟩) (by simp) a
      (Bucket.addrs_of_mem ht a ha))
    simp only [Slot.addrs, List.mem_cons, List.not_mem_nil, or_false, not_or] at hout
    exact block_revalued_of_ne (Mem.ne_answered hnew halive hout.2.2) hout.1 n data
  have hold : t ∈ us ++ s :: vs := mem_with ht s
  rw [Mem.bytesOf, hkeep t.key (by simp [Slot.addrs]), Mem.bytesOf,
    hkeep t.value (by simp [Slot.addrs])]
  exact ⟨hbucket.keys t hold, hbucket.values t hold⟩

/-- The blocks of the map with the new one in the place of the old are still apart, and live. -/
theorem HashMap.OnHeap.owned_revalued {head v : Addr}
    (hheap : hm.OnHeap m table (pre ++ ⟨head, us ++ s :: vs⟩ :: post))
    (hnew : v ∉ (m.freed s.value).live) (n : Int) (data bytes : Buffer) :
    (owned table (pre ++ ⟨head, us ++ { s with value := v, valueBytes := bytes } :: vs⟩ :: post)).Nodup ∧
      ∀ a ∈ owned table
          (pre ++ ⟨head, us ++ { s with value := v, valueBytes := bytes } :: vs⟩ :: post),
        a ∈ (m.revalued s v n data).live := by
  obtain ⟨hsnodup, hslot, hrest, hothers⟩ := hheap.slot_apart
  obtain ⟨hnodeKey, hnodeValue, hvalueKey⟩ := Slot.addrs_ne hsnodup
  have hnode := hslot s.node (by simp [Slot.addrs])
  have hkey := hslot s.key (by simp [Slot.addrs])
  simp only [Slot.addrs, List.mem_cons, List.not_mem_nil, or_false, not_or] at hothers
  constructor
  · rw [owned_slot_perm.nodup_iff, List.nodup_append]
    refine ⟨?_, hrest, ?_⟩
    · simp only [Slot.addrs, List.nodup_cons, List.mem_cons, List.not_mem_nil, or_false, not_or]
      exact ⟨⟨hnodeKey, Mem.ne_answered hnew hnode hnodeValue⟩,
        Mem.ne_answered hnew hkey (Ne.symm hvalueKey), id, List.nodup_nil⟩
    · rintro a ha c hc rfl
      obtain ⟨hout, halive⟩ := hothers a hc
      simp only [Slot.addrs, List.mem_cons, List.not_mem_nil, or_false] at ha
      rcases ha with rfl | rfl | rfl
      · exact hout.1 rfl
      · exact hout.2.1 rfl
      · exact Mem.ne_answered hnew halive hout.2.2 rfl
  · intro a ha
    rw [live_revalued]
    rcases List.mem_append.mp (owned_slot_perm.mem_iff.mp ha) with hs | hold
    · simp only [Slot.addrs, List.mem_cons, List.not_mem_nil, or_false] at hs
      rcases hs with rfl | rfl | rfl
      · exact Or.inr ⟨hnodeValue, hnode⟩
      · exact Or.inr ⟨Ne.symm hvalueKey, hkey⟩
      · exact Or.inl rfl
    · exact Or.inr ⟨(hothers a hold).1.2.2, (hothers a hold).2⟩

/-- With its value replaced a slot is one of the map as before. -/
theorem HashMap.OnHeap.revalued {head v : Addr} {n : Int} {data : Buffer}
    (hheap : hm.OnHeap m table (pre ++ ⟨head, us ++ s :: vs⟩ :: post))
    (hnew : v ∉ (m.freed s.value).live) :
    hm.OnHeap (m.revalued s v n data) table
      (pre ++ ⟨head, us ++ { s with value := v, valueBytes := data.take n.toNat } :: vs⟩ :: post) := by
  have hbucket := hheap.bucket ⟨head, us ++ s :: vs⟩ (by simp)
  have hmem : s ∈ us ++ s :: vs := by simp
  obtain ⟨hsnodup, hslot, _, _⟩ := hheap.slot_apart
  obtain ⟨hnodeKey, _, hvalueKey⟩ := Slot.addrs_ne hsnodup
  have hbytes := hheap.bytes_revalued hnew n data
  obtain ⟨hnodup, hlive⟩ := hheap.owned_revalued hnew n data (data.take n.toNat)
  have hlist : ∀ a ∈ head :: ((us ++ s :: vs).map Slot.entry).map Prod.fst,
      a ≠ s.value ∧ a ≠ v := by
    intro a ha
    have hpayload := Bucket.payload_notMem (Bucket.addrs_nodup hheap.nodup) hmem
    have hvalue : a ≠ s.value := fun h => hpayload.2 (h ▸ ha)
    exact ⟨hvalue, Mem.ne_answered hnew (hbucket.isList.live a ha) hvalue⟩
  have hsame : Mem.SameOff [s.node, v] m (m.revalued s v n data) := by
    intro a ha
    simp only [List.mem_cons, List.not_mem_nil, or_false, not_or] at ha
    exact block_revalued_of_ne ha.2 ha.1 n data
  refine hheap.update hsame (fun a ha => ?_) ⟨isList_revalued hbucket.isList hlist, ?_, ?_⟩ hnodup
    hlive
  · simp only [List.mem_cons, List.not_mem_nil, or_false] at ha
    have haddrs : ∀ a ∈ s.addrs, a ∈ Bucket.addrs ⟨head, us ++ s :: vs⟩ :=
      Bucket.addrs_of_mem (b := ⟨head, us ++ s :: vs⟩) hmem
    rcases ha with rfl | rfl
    · exact Or.inl (haddrs _ (by simp [Slot.addrs]))
    · by_cases hvalue : a = s.value
      · exact Or.inl (haddrs a (by simp [Slot.addrs, hvalue]))
      · exact Or.inr fun halive => Mem.ne_answered hnew halive hvalue rfl
  · intro t ht
    rcases List.mem_append.mp ht with hu | hv
    · exact (hbytes t (List.mem_append_left vs hu)).1
    · rcases List.mem_cons.mp hv with rfl | hv
      · have hkey := hslot s.key (by simp [Slot.addrs])
        have hkeep := block_revalued_of_ne (m := m)
          (Mem.ne_answered hnew hkey (Ne.symm hvalueKey)) (Ne.symm hnodeKey) n data
        exact (congrArg Block.bytes hkeep).trans (hbucket.keys s hmem)
      · exact (hbytes t (List.mem_append_right us hv)).1
  · intro t ht
    rcases List.mem_append.mp ht with hu | hv
    · exact (hbytes t (List.mem_append_left vs hu)).2
    · rcases List.mem_cons.mp hv with rfl | hv
      · exact Mem.bytesOf_setBytes _ _ _
      · exact (hbytes t (List.mem_append_right us hv)).2

theorem HashMap.OnHeap.trades_revalued {head v : Addr} {n : Int} {data : Buffer}
    (hheap : hm.OnHeap m table (pre ++ ⟨head, us ++ s :: vs⟩ :: post))
    (hnew : v ∉ (m.freed s.value).live) :
    m.Trades (m.revalued s v n data) (owned table (pre ++ ⟨head, us ++ s :: vs⟩ :: post))
      (owned table (pre ++ ⟨head,
        us ++ { s with value := v, valueBytes := data.take n.toNat } :: vs⟩ :: post)) := by
  let others := s.node :: s.key :: owned table (pre ++ ⟨head, us ++ vs⟩ :: post)
  have hold : (owned table (pre ++ ⟨head, us ++ s :: vs⟩ :: post)).Perm ([s.value] ++ others) := by
    refine owned_slot_perm.trans ?_
    rw [List.perm_iff_count]
    intro a
    simp only [others, Slot.addrs, List.count_append, List.count_cons, List.count_nil]
    omega
  have hcopy : (owned table (pre ++ ⟨head,
      us ++ { s with value := v, valueBytes := data.take n.toNat } :: vs⟩ :: post)).Perm
      ([v] ++ others) := by
    refine owned_slot_perm.trans ?_
    rw [List.perm_iff_count]
    intro a
    simp only [others, Slot.addrs, List.count_append, List.count_cons, List.count_nil]
    omega
  have hdrop : m.Trades (m.freed s.value) (owned table (pre ++ ⟨head, us ++ s :: vs⟩ :: post))
      others := by
    refine .drop hold hheap.nodup fun a => ?_
    rw [Mem.live_freed, Finset.mem_erase, List.mem_singleton]
    tauto
  refine hdrop.trans (.add hcopy (fun a ha => ?_) fun a => ?_)
  · rw [List.mem_singleton.mp ha]
    exact hnew
  · rw [live_revalued, Mem.live_freed, Finset.mem_erase, List.mem_singleton]

theorem Src.Is.freed {a : Addr} (hsrc : src.Is m key) (hother : src ≠ .block a) :
    src.Is (m.freed a) key := by
  cases src with
  | caller given => exact hsrc
  | block c =>
      have hne : c ≠ a := fun h => hother (h ▸ rfl)
      exact ⟨Finset.mem_erase.mpr ⟨hne, hsrc.1⟩, hsrc.2⟩

theorem Src.Is.setData {a : Addr} {entry : Entry} (hsrc : src.Is m key) :
    src.Is (m.setData a entry) key := by
  cases src with
  | caller given => exact hsrc
  | block c =>
      refine ⟨hsrc.1, ?_⟩
      rw [← hsrc.2, Mem.bytesOf_setData]

/-- A key that is in the map: its value is freed, and the node is as it was. -/
theorem HashMap.Located.insert_freed (hloc : hm.Located m table pre b post src key)
    (hfirst : hm.FirstHit b key us s vs) (alloc : Allocator) (keySize : Int) (vsrc : Src)
    (valueSize : Int) :
    hm.insert alloc (some src) keySize (some vsrc) valueSize m = (do
        let newValue ← mallocBlock alloc valueSize
        writeData s.node { ← readData s.node with value := newValue }
        memcpyTo newValue vsrc valueSize
        return (0, hm) : MemM Entry σ (Int × HashMap)) (m.freed s.value) ∧
      s.node ∈ (m.freed s.value).live ∧ (m.freed s.value).dataOf s.node = some s.entry.2 := by
  have hmem : s ∈ b.slots := by simp [hfirst.slots]
  have hlive : ∀ a ∈ s.addrs, a ∈ m.live := fun a ha =>
    hloc.addrs_live a (Bucket.addrs_of_mem hmem a ha)
  refine ⟨?_, Finset.mem_erase.mpr ⟨fun heq => ?_, hlive _ (by simp [Slot.addrs])⟩,
    hloc.bucket.isList.data s.entry (List.mem_map_of_mem hmem)⟩
  · rw [HashMap.insert, hloc.run_list, run_bind (hloc.search_hit hfirst)]
    dsimp only
    rw [run_bind (hloc.readData_hit hfirst)]
    change (freeBlock s.value >>= _) m = _
    rw [run_bind (freeBlock_ok (hlive _ (by simp [Slot.addrs])))]
  · apply (Bucket.payload_notMem (Bucket.addrs_nodup hloc.onHeap.nodup) hmem).2
    rw [← heq]
    exact List.mem_cons_of_mem _ (List.mem_map.mpr ⟨s.entry, List.mem_map_of_mem hmem, rfl⟩)

/-- The node points to the new block before anything is copied into that. -/
theorem HashMap.Located.insert_revalue (hloc : hm.Located m table pre b post src key)
    (hfirst : hm.FirstHit b key us s vs) (keySize : Int) (vsrc : Src) {valueSize : Int} {v : Addr}
    (hv : (m.freed s.value).answer alloc valueSize = some v) :
    s.node ≠ v ∧
      hm.insert alloc (some src) keySize (some vsrc) valueSize m = (do
        memcpyTo (some v) vsrc valueSize
        return (0, hm) : MemM Entry σ (Int × HashMap))
          (((m.freed s.value).allocated v valueSize).setData s.node ⟨some s.key, some v⟩) := by
  obtain ⟨hinsert, hnode, hdata⟩ := hloc.insert_freed hfirst alloc keySize vsrc valueSize
  have hnodev : s.node ≠ v := fun h => Mem.answer_fresh hv (h ▸ hnode)
  have hnode' : s.node ∈ ((m.freed s.value).allocated v valueSize).live := by
    rw [Mem.live_allocated, Finset.mem_insert]
    exact Or.inr hnode
  have hreread : readData s.node ((m.freed s.value).allocated v valueSize)
      = .ok (s.entry.2, (m.freed s.value).allocated v valueSize) := by
    apply readData_ok hnode'
    rw [Mem.dataOf_allocated, Function.update_of_ne hnodev]
    exact hdata
  refine ⟨hnodev, ?_⟩
  rw [hinsert, run_bind (mallocBlock_some hv), run_bind hreread, run_bind (writeData_ok hnode')]
  rfl

/-- A copy of the new value takes its place. -/
theorem HashMap.Located.insert_hit (hloc : hm.Located m table pre b post src key)
    (hfirst : hm.FirstHit b key us s vs) {vsrc : Src} {value : Buffer}
    (hvsrc : vsrc.Is m value) (hother : vsrc ≠ .block s.value) {valueSize : Int} (keySize : Int)
    (hvalueSize : 0 ≤ valueSize ∧ valueSize ≤ value.length) {v : Addr}
    (hv : (m.freed s.value).answer alloc valueSize = some v) :
    ∃ m' s', s'.keyBytes = s.keyBytes ∧ s'.valueBytes = value.take valueSize.toNat ∧
      hm.insert alloc (some src) keySize (some vsrc) valueSize m = .ok ((0, hm), m') ∧
      hm.OnHeap m' table (pre ++ ⟨b.head, us ++ s' :: vs⟩ :: post) ∧
      m.Trades m' (owned table (pre ++ b :: post))
        (owned table (pre ++ ⟨b.head, us ++ s' :: vs⟩ :: post)) := by
  obtain ⟨hnodev, hinsert⟩ := hloc.insert_revalue hfirst keySize vsrc hv
  have hheap := hloc.onHeap
  obtain ⟨head, slots⟩ := b
  obtain rfl : slots = us ++ s :: vs := hfirst.slots
  refine ⟨m.revalued s v valueSize value, { s with value := v, valueBytes := value.take valueSize.toNat },
    rfl, rfl, ?_, hheap.revalued (Mem.answer_fresh hv), hheap.trades_revalued (Mem.answer_fresh hv)⟩
  have hbytes : (((m.freed s.value).allocated v valueSize).setData s.node
      ⟨some s.key, some v⟩).bytesOf v = List.replicate valueSize.toNat none := by
    rw [Mem.bytesOf, Mem.block_setData_of_ne _ _ _ (Ne.symm hnodev)]
    exact Mem.bytesOf_allocated _ _ _
  have hgiven : vsrc.Is (((m.freed s.value).allocated v valueSize).setData s.node
      ⟨some s.key, some v⟩) value :=
    ((hvsrc.freed hother).allocated (Mem.answer_fresh hv)).setData
  have hcopy := memcpyTo_ok (a := v) (by simp) hgiven hvalueSize.1
    (by rw [hbytes, List.length_replicate]; omega) hvalueSize.2
  rw [hbytes, List.drop_replicate, Nat.sub_self, List.replicate_zero, List.append_nil] at hcopy
  rw [hinsert]
  exact run_bind hcopy

end Operations

end Gittest
