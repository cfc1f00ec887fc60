import Gittest.HashMap
import Gittest.Proof.LinkListOps

/-!
# The hash map on the heap

`hm.OnHeap m table buckets`: the heap `m` holds the array of `hm` at `table`, and for each bucket a
list whose nodes point to the bytes of a key and of a value. All the blocks are live and different.
An operation works on one bucket and on fresh blocks, and leaves the rest as it was.
-/

namespace Gittest

variable {σ : Type}

/-- A node of a bucket with the blocks it points to. -/
structure Slot where
  node : Addr
  key : Addr
  value : Addr
  keyBytes : Buffer
  valueBytes : Buffer

structure Bucket where
  head : Addr
  slots : List Slot

def Slot.entry (s : Slot) : Addr × Entry := (s.node, ⟨some s.key, some s.value⟩)

def Slot.addrs (s : Slot) : List Addr := [s.node, s.key, s.value]

def Bucket.addrs (b : Bucket) : List Addr := b.head :: b.slots.flatMap Slot.addrs

def owned (table : Addr) (buckets : List Bucket) : List Addr :=
  table :: buckets.flatMap Bucket.addrs

structure Bucket.OnHeap (b : Bucket) (m : Mem Entry σ) : Prop where
  isList : m.IsList b.head 16 (b.slots.map Slot.entry)
  keys : ∀ s ∈ b.slots, m.bytesOf s.key = s.keyBytes
  values : ∀ s ∈ b.slots, m.bytesOf s.value = s.valueBytes

structure HashMap.OnHeap (hm : HashMap) (m : Mem Entry σ) (table : Addr) (buckets : List Bucket) :
    Prop where
  entryList : hm.entryList = some table
  capacity : hm.capacity = buckets.length
  extent : 8 * hm.capacity ≤ (m.block table).extent
  cells : ∀ (i : Nat) (b : Bucket), buckets[i]? = some b → m.cellOf table i = some (some b.head)
  bucket : ∀ b ∈ buckets, b.OnHeap m
  nodup : (owned table buckets).Nodup
  live : ∀ a ∈ owned table buckets, a ∈ m.live

variable {hm : HashMap} {m m' : Mem Entry σ} {table : Addr} {buckets pre post : List Bucket}
  {b : Bucket} {us vs : List Slot} {s s' : Slot}

theorem Bucket.addrs_of_mem (hmem : s ∈ b.slots) : ∀ a ∈ s.addrs, a ∈ b.addrs :=
  fun _ ha => List.mem_cons_of_mem _ (List.mem_flatMap.mpr ⟨s, hmem, ha⟩)

theorem Bucket.list_addrs : ∀ a ∈ b.head :: (b.slots.map Slot.entry).map Prod.fst, a ∈ b.addrs := by
  intro a ha
  rcases List.mem_cons.mp ha with rfl | ha
  · exact List.mem_cons_self ..
  · obtain ⟨entry, hentry, rfl⟩ := List.mem_map.mp ha
    obtain ⟨s, hs, rfl⟩ := List.mem_map.mp hentry
    exact Bucket.addrs_of_mem hs _ (List.mem_cons_self ..)

theorem owned_of_mem (hmem : b ∈ buckets) : ∀ a ∈ b.addrs, a ∈ owned table buckets :=
  fun _ ha => List.mem_cons_of_mem _ (List.mem_flatMap.mpr ⟨b, hmem, ha⟩)

theorem Bucket.addrs_perm : b.addrs.Perm
    ((b.head :: (b.slots.map Slot.entry).map Prod.fst)
      ++ b.slots.flatMap fun s => [s.key, s.value]) := by
  rw [List.cons_append]
  apply List.Perm.cons _
  induction b.slots with
  | nil => exact List.Perm.nil
  | cons s slots ih =>
      rw [List.perm_iff_count] at ih ⊢
      intro a
      have hcount := ih a
      simp only [List.flatMap_cons, List.map_cons, Slot.addrs, Slot.entry, List.count_append,
        List.count_cons, List.count_nil] at hcount ⊢
      omega

theorem Bucket.payload_notMem (hnodup : b.addrs.Nodup) (hmem : s ∈ b.slots) :
    s.key ∉ b.head :: (b.slots.map Slot.entry).map Prod.fst ∧
      s.value ∉ b.head :: (b.slots.map Slot.entry).map Prod.fst := by
  have hapart := (List.nodup_append.mp (Bucket.addrs_perm.nodup_iff.mp hnodup)).2.2
  constructor
  · intro hkey
    exact hapart _ hkey s.key (List.mem_flatMap.mpr ⟨s, hmem, by simp⟩) rfl
  · intro hvalue
    exact hapart _ hvalue s.value (List.mem_flatMap.mpr ⟨s, hmem, by simp⟩) rfl

theorem Bucket.addrs_nodup (hnodup : (owned table (pre ++ b :: post)).Nodup) : b.addrs.Nodup := by
  have hsub : List.Sublist b.addrs (owned table (pre ++ b :: post)) := by
    rw [owned, List.flatMap_append, List.flatMap_cons]
    exact ((List.sublist_append_left _ _).trans (List.sublist_append_right _ _)).cons _
  exact hsub.nodup hnodup

theorem Bucket.OnHeap.frame (hheap : b.OnHeap m) (hblock : ∀ a ∈ b.addrs, m'.block a = m.block a)
    (hlive : ∀ a ∈ b.addrs, a ∈ m'.live) : b.OnHeap m' where
  isList := hheap.isList.frame (fun a ha => hblock a (Bucket.list_addrs a ha))
    fun a ha => hlive a (Bucket.list_addrs a ha)
  keys := by
    intro s hs
    rw [Mem.bytesOf, hblock _ (Bucket.addrs_of_mem hs s.key (by simp [Slot.addrs]))]
    exact hheap.keys s hs
  values := by
    intro s hs
    rw [Mem.bytesOf, hblock _ (Bucket.addrs_of_mem hs s.value (by simp [Slot.addrs]))]
    exact hheap.values s hs

theorem Bucket.OnHeap.bytes_same {touched : List Addr} (hheap : b.OnHeap m)
    (hnodup : b.addrs.Nodup) (hlive : ∀ a ∈ b.addrs, a ∈ m.live)
    (hsame : Mem.SameOff touched m m')
    (htouched : ∀ a ∈ touched, a ∈ b.head :: (b.slots.map Slot.entry).map Prod.fst ∨ a ∉ m.live)
    (hmem : s ∈ b.slots) : m'.bytesOf s.key = s.keyBytes ∧ m'.bytesOf s.value = s.valueBytes := by
  obtain ⟨hkey, hvalue⟩ := Bucket.payload_notMem hnodup hmem
  have hkeyLive := hlive s.key (Bucket.addrs_of_mem hmem _ (by simp [Slot.addrs]))
  have hvalueLive := hlive s.value (Bucket.addrs_of_mem hmem _ (by simp [Slot.addrs]))
  have hkeyOff : s.key ∉ touched := fun h => (htouched _ h).elim hkey fun h => h hkeyLive
  have hvalueOff : s.value ∉ touched := fun h => (htouched _ h).elim hvalue fun h => h hvalueLive
  rw [Mem.bytesOf, hsame _ hkeyOff, Mem.bytesOf, hsame _ hvalueOff]
  exact ⟨hheap.keys s hmem, hheap.values s hmem⟩

/-! ### What is live besides -/

/-- The live blocks are those of `base` and these. -/
def Mem.Owns (m : Mem Entry σ) (base : Finset Addr) (blocks : List Addr) : Prop :=
  (∀ a ∈ blocks, a ∉ base) ∧ ∀ a, a ∈ m.live ↔ a ∈ base ∨ a ∈ blocks

/-- The blocks `old` have made way for `new`, and whatever else is live has stayed. -/
def Mem.Trades (m m' : Mem Entry σ) (old new : List Addr) : Prop :=
  ∀ base, m.Owns base old → m'.Owns base new

namespace Mem.Trades

variable {old mid new gone added : List Addr} {m₁ : Mem Entry σ}

theorem refl : m.Trades m old old := fun _ howns => howns

theorem trans (h₁ : m.Trades m₁ old mid) (h₂ : m₁.Trades m' mid new) : m.Trades m' old new :=
  fun base howns => h₂ base (h₁ base howns)

theorem drop (hperm : old.Perm (gone ++ new)) (hnodup : old.Nodup)
    (hlive : ∀ a, a ∈ m'.live ↔ a ∈ m.live ∧ a ∉ gone) : m.Trades m' old new := by
  rintro base ⟨hapart, howns⟩
  have hdisjoint := (List.nodup_append.mp (hperm.nodup_iff.mp hnodup)).2.2
  refine ⟨fun a ha => hapart a (hperm.mem_iff.mpr (List.mem_append_right _ ha)), fun a => ?_⟩
  rw [hlive, howns, hperm.mem_iff, List.mem_append]
  constructor
  · tauto
  · rintro (hbase | hnew)
    · refine ⟨Or.inl hbase, fun hgone => hapart a ?_ hbase⟩
      exact hperm.mem_iff.mpr (List.mem_append_left _ hgone)
    · exact ⟨Or.inr (Or.inr hnew), fun hgone => hdisjoint a hgone a hnew rfl⟩

theorem add (hperm : new.Perm (added ++ old)) (hfresh : ∀ a ∈ added, a ∉ m.live)
    (hlive : ∀ a, a ∈ m'.live ↔ a ∈ added ∨ a ∈ m.live) : m.Trades m' old new := by
  rintro base ⟨hapart, howns⟩
  refine ⟨fun a ha hbase => ?_, fun a => ?_⟩
  · rcases List.mem_append.mp (hperm.mem_iff.mp ha) with hadded | hold
    · exact hfresh a hadded ((howns a).mpr (Or.inl hbase))
    · exact hapart a hold hbase
  · rw [hlive, howns, hperm.mem_iff, List.mem_append]
    tauto

end Mem.Trades

/-! ### Rearrangements of the blocks owned -/

theorem owned_slot_perm {h : Addr} : (owned table (pre ++ ⟨h, us ++ s :: vs⟩ :: post)).Perm
    (s.addrs ++ owned table (pre ++ ⟨h, us ++ vs⟩ :: post)) := by
  rw [List.perm_iff_count]
  intro a
  simp only [owned, Bucket.addrs, List.flatMap_append, List.flatMap_cons, List.count_append,
    List.count_cons]
  omega

theorem owned_clear_perm : (owned table (pre ++ b :: post)).Perm
    (b.slots.flatMap Slot.addrs ++ owned table (pre ++ ⟨b.head, []⟩ :: post)) := by
  rw [List.perm_iff_count]
  intro a
  simp only [owned, Bucket.addrs, List.flatMap_append, List.flatMap_cons, List.flatMap_nil,
    List.count_append, List.count_cons, List.count_nil]
  omega

theorem owned_bucket_perm : (owned table (pre ++ b :: post)).Perm
    (b.addrs ++ owned table (pre ++ post)) := by
  rw [List.perm_iff_count]
  intro a
  simp only [owned, List.flatMap_append, List.flatMap_cons, List.count_append, List.count_cons]
  omega

theorem owned_apart (hnodup : (owned table (pre ++ b :: post)).Nodup) :
    ∀ a ∈ owned table (pre ++ post), a ∉ b.addrs := by
  intro a ha hb
  have hsplit := List.nodup_append.mp (owned_bucket_perm.nodup_iff.mp hnodup)
  exact hsplit.2.2 a hb a ha rfl

theorem getElem?_replace {b' c : Bucket} {i : Nat}
    (hget : (pre ++ b' :: post)[i]? = some c) :
    i = pre.length ∧ c = b' ∨ i ≠ pre.length ∧ (pre ++ b :: post)[i]? = some c := by
  by_cases hi : i = pre.length
  · subst hi
    rw [List.getElem?_append_right le_rfl, Nat.sub_self] at hget
    exact Or.inl ⟨rfl, (Option.some.inj hget).symm⟩
  · refine Or.inr ⟨hi, ?_⟩
    rw [List.getElem?_append] at hget ⊢
    split at hget
    · rename_i hlt
      rwa [if_pos hlt]
    · rename_i hge
      obtain ⟨j, hj⟩ : ∃ j, i - pre.length = j + 1 := ⟨i - pre.length - 1, by omega⟩
      rw [if_neg hge]
      rw [hj, List.getElem?_cons_succ] at hget ⊢
      exact hget

/-- The map after an operation on one bucket: what remains to be seen is that bucket. -/
theorem HashMap.OnHeap.update {slots : List Slot} {touched : List Addr} {size : Int}
    (hheap : hm.OnHeap m table (pre ++ b :: post)) (hsame : Mem.SameOff touched m m')
    (htouched : ∀ a ∈ touched, a ∈ b.addrs ∨ a ∉ m.live)
    (hbucket : Bucket.OnHeap ⟨b.head, slots⟩ m')
    (hnodup : (owned table (pre ++ ⟨b.head, slots⟩ :: post)).Nodup)
    (hlive : ∀ a ∈ owned table (pre ++ ⟨b.head, slots⟩ :: post), a ∈ m'.live) :
    ({ hm with size := size } : HashMap).OnHeap m' table (pre ++ ⟨b.head, slots⟩ :: post) := by
  have hkeep : ∀ a ∈ owned table (pre ++ post), m'.block a = m.block a := by
    intro a ha
    apply hsame a
    intro htouch
    rcases htouched a htouch with hb | hdead
    · exact owned_apart hheap.nodup a ha hb
    · refine hdead (hheap.live a (owned_bucket_perm.mem_iff.mpr ?_))
      exact List.mem_append_right _ ha
  have hothers : ∀ c ∈ pre ++ post, c.OnHeap m' := by
    intro c hc
    have hold : c ∈ pre ++ b :: post := mem_with hc b
    have hnew : c ∈ pre ++ ⟨b.head, slots⟩ :: post := mem_with hc _
    exact (hheap.bucket c hold).frame (fun a ha => hkeep a (owned_of_mem hc a ha))
      fun a ha => hlive a (owned_of_mem hnew a ha)
  have htable : m'.block table = m.block table := hkeep table (List.mem_cons_self ..)
  constructor
  case entryList => exact hheap.entryList
  case capacity =>
    have hcapacity := hheap.capacity
    rw [List.length_append, List.length_cons] at hcapacity ⊢
    exact hcapacity
  case extent =>
    rw [htable]
    exact hheap.extent
  case cells =>
    intro i c hget
    rw [Mem.cellOf, htable]
    rcases getElem?_replace (b := b) hget with ⟨rfl, rfl⟩ | ⟨_, hold⟩
    · exact hheap.cells pre.length b (by simp)
    · exact hheap.cells i c hold
  case bucket =>
    intro c hc
    rcases List.mem_append.mp hc with hpre | hpost
    · exact hothers c (List.mem_append_left post hpre)
    · rcases List.mem_cons.mp hpost with rfl | hpost
      · exact hbucket
      · exact hothers c (List.mem_append_right pre hpost)
  case nodup => exact hnodup
  case live => exact hlive

end Gittest
