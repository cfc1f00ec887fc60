import Gittest.Lib.BigEndian
import Gittest.Lib.Calls
import Gittest.Lib.KeyedMap
import Gittest.Proof.HashMapTable

/-!
# The hash map as a finite map

Keys count up to `equal`. Any sequence of calls on a map that `init` has prepared behaves as the same
calls on a function from the classes of keys to what they are bound to. The one limit is the `int`
that counts the keys.
-/

namespace Gittest

open Calls KeyedMap

variable {σ : Type}

/-- The callbacks of a map: `equal` is an equivalence, and equal keys have equal hash codes. -/
structure KeyOps where
  hashCode : Buffer → Int
  equal : Buffer → Buffer → Int
  equal_refl : ∀ a, equal a a = 0
  equal_symm : ∀ a b, equal a b = 0 → equal b a = 0
  equal_trans : ∀ a b c, equal a b = 0 → equal b c = 0 → equal a c = 0
  hashCode_eq : ∀ a b, equal a b = 0 → hashCode a = hashCode b

namespace KeyOps

variable (keys : KeyOps)

def setoid : Setoid Buffer where
  r a b := keys.equal a b = 0
  iseqv := ⟨keys.equal_refl, fun h => keys.equal_symm _ _ h, fun h => keys.equal_trans _ _ _ h⟩

/-- Keys up to `equal`. -/
abbrev Class : Type := Quotient keys.setoid

def toClass (key : Buffer) : keys.Class := Quotient.mk keys.setoid key

theorem toClass_eq_iff (a b : Buffer) : keys.toClass a = keys.toClass b ↔ keys.equal a b = 0 :=
  Quotient.eq (r := keys.setoid)

instance : DecidableEq keys.Class :=
  have (a b : Buffer) : Decidable (keys.setoid.r a b) :=
    inferInstanceAs (Decidable (keys.equal a b = 0))
  @Quotient.decidableEq _ keys.setoid this

end KeyOps

/-! ### Calls -/

/-- A key that is passed: bytes of the caller, or what `find` returns for them. -/
inductive KeyArg where
  | bytes (key : Buffer)
  | found (key : Buffer)

inductive MapCall where
  | insert (key : KeyArg) (keySize : Int) (value : Buffer) (valueSize : Int)
  | find (key : KeyArg)
  | hasKey (key : KeyArg)
  | erase (key : KeyArg)
  | clear
  | getSize

/-- The result of a call; of the pointer that `find` returns, the bytes it points to. -/
inductive MapResult where
  | code (ret : Int)
  | value (bytes : Option Buffer)

def KeyArg.src (hm : HashMap) : KeyArg → MemM Entry σ Src
  | .bytes key => return .caller key
  | .found key => do return .block (← deref (← hm.find (.caller key)))

def MapCall.run (alloc : Allocator) (hm : HashMap) : MapCall → MemM Entry σ (MapResult × HashMap)
  | .insert key keySize value valueSize => do
      let src ← key.src hm
      let (ret, hm) ← hm.insert alloc (some src) keySize (some (.caller value)) valueSize
      return (.code ret, hm)
  | .find key => do
      match ← hm.find (← key.src hm) with
      | none => return (.value none, hm)
      | some a => return (.value (some (← readBytes a)), hm)
  | .hasKey key => do return (.code (← hm.hasKey (← key.src hm)), hm)
  | .erase key => do
      let (ret, hm) ← hm.erase (← key.src hm)
      return (.code ret, hm)
  | .clear => do
      let (ret, hm) ← hm.clear
      return (.code ret, hm)
  | .getSize => return (.code hm.getSize, hm)

def MapCall.exec (alloc : Allocator) (s : HashMap × Mem Entry σ) (call : MapCall) :
    Except Fault (MapResult × HashMap × Mem Entry σ) := do
  let ((result, hm), m) ← call.run alloc s.1 s.2
  return (result, hm, m)

/-! ### The finite map -/

abbrev Bindings (keys : KeyOps) : Type := keys.Class → Option Buffer

section Spec

variable {keys : KeyOps}

def Bindings.bound (M : Bindings keys) : Set keys.Class := {c | (M c).isSome}

def KeyArg.read (M : Bindings keys) : KeyArg → Buffer
  | .bytes key => key
  | .found key => (M (keys.toClass key)).getD []

noncomputable def MapCall.spec (M : Bindings keys) : MapCall → MapResult × Bindings keys
  | .insert key _ value valueSize =>
      (.code 0, Function.update M (keys.toClass (key.read M)) (some (value.take valueSize.toNat)))
  | .find key => (.value (M (keys.toClass (key.read M))), M)
  | .hasKey key => (.code (if (M (keys.toClass (key.read M))).isSome then 1 else 0), M)
  | .erase key =>
      if (M (keys.toClass (key.read M))).isSome then
        (.code 0, Function.update M (keys.toClass (key.read M)) none)
      else
        (.code (-1), M)
  | .clear => (.code 0, fun _ => none)
  | .getSize => (.code M.bound.ncard, M)

/-- What `find` returned is passed on as a key only if it was not `NULL`. -/
def KeyArg.Legal (M : Bindings keys) : KeyArg → Prop
  | .bytes _ => True
  | .found key => keys.toClass key ∈ M.bound

/-- The sizes do not exceed the buffers, and what is copied of the key is equal to it. -/
def MapCall.Legal (M : Bindings keys) : MapCall → Prop
  | .insert key keySize value valueSize =>
      key.Legal M ∧ (0 ≤ keySize ∧ keySize ≤ (key.read M).length) ∧
        keys.equal (key.read M) ((key.read M).take keySize.toNat) = 0 ∧
        0 ≤ valueSize ∧ valueSize ≤ value.length
  | .find key => key.Legal M
  | .hasKey key => key.Legal M
  | .erase key => key.Legal M
  | .clear => True
  | .getSize => True

/-- A new key would be bound, and there are as many as an `int` can count. -/
def MapCall.Overflows (M : Bindings keys) : MapCall → Prop
  | .insert key _ _ _ => keys.toClass (key.read M) ∉ M.bound ∧ intMax ≤ M.bound.ncard
  | _ => False

end Spec

/-! ### What the heap holds -/

def Slot.binding (s : Slot) : Buffer × Buffer := (s.keyBytes, s.valueBytes)

def bindings (buckets : List Bucket) : List (Buffer × Buffer) :=
  (buckets.flatMap Bucket.slots).map Slot.binding

/-- Every slot is in the bucket that its hash code picks. -/
def Placed (hm : HashMap) (buckets : List Bucket) : Prop :=
  ∀ (i : Nat) (b : Bucket), buckets[i]? = some b →
    ∀ s ∈ b.slots, (i : Int) = bucketIndex hm.capacity (hm.hashCode s.keyBytes)

/-- The map on the heap has these bindings. -/
structure HashMap.Binds (hm : HashMap) (keys : KeyOps) (m : Mem Entry σ) (table : Addr)
    (buckets : List Bucket) (M : Bindings keys) : Prop where
  hashCode : hm.hashCode = keys.hashCode
  equal : hm.equal = keys.equal
  capacity_pos : 0 < hm.capacity
  onHeap : hm.OnHeap m table buckets
  placed : Placed hm buckets
  represents : Represents keys.setoid (bindings buckets) M
  size : hm.size = slotCount buckets
  size_le : hm.size ≤ intMax

section Relation

variable {keys : KeyOps} {hm : HashMap} {m : Mem Entry σ} {table : Addr}
  {buckets pre post : List Bucket} {b : Bucket} {us vs : List Slot} {s : Slot} {M : Bindings keys}
  {src : Src} {key : Buffer} {alloc : Allocator}

theorem bindings_perm {h : Addr} : (bindings (pre ++ ⟨h, us ++ s :: vs⟩ :: post)).Perm
    (s.binding :: bindings (pre ++ ⟨h, us ++ vs⟩ :: post)) := by
  have hslots : ((pre ++ ⟨h, us ++ s :: vs⟩ :: post).flatMap Bucket.slots).Perm
      (s :: (pre ++ ⟨h, us ++ vs⟩ :: post).flatMap Bucket.slots) := by
    simp only [List.flatMap_append, List.flatMap_cons, List.append_assoc, List.cons_append]
    rw [← List.append_assoc, ← List.append_assoc]
    exact List.perm_middle
  exact hslots.map _

theorem slotCount_eq : slotCount buckets = (bindings buckets).length := by
  rw [slotCount, bindings, List.length_map]

theorem HashMap.Binds.size_eq (hbinds : hm.Binds keys m table buckets M) :
    hm.size = M.bound.ncard := by
  rw [hbinds.size, slotCount_eq, Bindings.bound, hbinds.represents.ncard_eq]

theorem Placed.replace {b' : Bucket} (hplaced : Placed hm (pre ++ b :: post))
    (hslots : ∀ s ∈ b'.slots, (pre.length : Int) = bucketIndex hm.capacity (hm.hashCode s.keyBytes)) :
    Placed hm (pre ++ b' :: post) := by
  intro i c hget
  rcases getElem?_replace (b := b) hget with ⟨rfl, rfl⟩ | ⟨_, hold⟩
  · exact hslots
  · exact hplaced i c hold

theorem HashMap.firstHit_or_miss (hm : HashMap) (b : Bucket) (key : Buffer) :
    (∀ s ∈ b.slots, hm.equal key s.keyBytes ≠ 0) ∨ ∃ us s vs, hm.FirstHit b key us s vs := by
  cases hfind : b.slots.find? fun s => decide (hm.equal key s.keyBytes = 0) with
  | none =>
      rw [List.find?_eq_none] at hfind
      exact Or.inl fun s hs => by simpa using hfind s hs
  | some s =>
      obtain ⟨hhit, us, vs, hslots, hbefore⟩ := List.find?_eq_some_iff_append.mp hfind
      exact Or.inr ⟨us, s, vs, hslots, of_decide_eq_true hhit, fun u hu => by simpa using hbefore u hu⟩

theorem HashMap.Binds.none_of_miss (hbinds : hm.Binds keys m table (pre ++ b :: post) M)
    (hindex : (pre.length : Int) = bucketIndex hm.capacity (hm.hashCode key))
    (hmiss : ∀ s ∈ b.slots, hm.equal key s.keyBytes ≠ 0) : M (keys.toClass key) = none := by
  rw [hbinds.represents.none_iff]
  intro hmem
  obtain ⟨entry, hentry, hclass⟩ := List.mem_map.mp hmem
  obtain ⟨s, hs, rfl⟩ := List.mem_map.mp hentry
  obtain ⟨c, hc, hsc⟩ := List.mem_flatMap.mp hs
  obtain ⟨i, hi⟩ := List.mem_iff_getElem?.mp hc
  have hequal : keys.equal key s.keyBytes = 0 := (keys.toClass_eq_iff _ _).mp hclass.symm
  have hhash : hm.hashCode key = hm.hashCode s.keyBytes := by
    rw [hbinds.hashCode]
    exact keys.hashCode_eq _ _ hequal
  have hsame : i = pre.length := by
    have hplaced := hbinds.placed i c hi s hsc
    rw [← hhash] at hplaced
    omega
  rw [hsame, List.getElem?_append_right le_rfl, Nat.sub_self] at hi
  cases hi
  apply hmiss s hsc
  rw [hbinds.equal]
  exact hequal

/-- **The bucket of a key.** A key is bound if and only if it is found in its bucket. -/
theorem HashMap.Binds.locate (hbinds : hm.Binds keys m table buckets M) (hsrc : src.Is m key) :
    ∃ pre b post, buckets = pre ++ b :: post ∧ hm.Located m table pre b post src key ∧
      ((M (keys.toClass key) = none ∧ ∀ s ∈ b.slots, hm.equal key s.keyBytes ≠ 0) ∨
        ∃ us s vs, hm.FirstHit b key us s vs ∧ M (keys.toClass key) = some s.valueBytes) := by
  obtain ⟨pre, b, post, rfl, hpre⟩ := hbinds.onHeap.pick hbinds.capacity_pos (hm.hashCode key)
  refine ⟨pre, b, post, rfl, ⟨hbinds.onHeap, hpre, hsrc⟩, ?_⟩
  rcases hm.firstHit_or_miss b key with hmiss | ⟨us, s, vs, hfirst⟩
  · exact Or.inl ⟨hbinds.none_of_miss hpre hmiss, hmiss⟩
  · refine Or.inr ⟨us, s, vs, hfirst, ?_⟩
    have hmem : s.binding ∈ bindings (pre ++ b :: post) := by
      refine List.mem_map_of_mem (List.mem_flatMap.mpr ⟨b, by simp, ?_⟩)
      rw [hfirst.slots]
      simp
    have hhit := hfirst.hit
    rw [hbinds.equal] at hhit
    rw [(keys.toClass_eq_iff _ _).mpr hhit]
    exact hbinds.represents.value_of_mem hmem

/-! ### One call -/

theorem KeyArg.src_ok (hbinds : hm.Binds keys m table buckets M) {key : KeyArg}
    (hlegal : key.Legal M) : ∃ src, key.src hm m = .ok (src, m) ∧ src.Is m (key.read M) := by
  cases key with
  | bytes key => exact ⟨.caller key, rfl, rfl⟩
  | found key =>
      obtain ⟨pre, b, post, rfl, hloc, ⟨hnone, _⟩ | ⟨us, s, vs, hfirst, hvalue⟩⟩ :=
        hbinds.locate (show Src.Is (.caller key) m key from rfl)
      · rw [KeyArg.Legal, Bindings.bound, Set.mem_ofPred_eq, hnone] at hlegal
        cases hlegal
      · refine ⟨.block s.value, ?_, ?_⟩
        · rw [KeyArg.src, run_bind (hloc.find_hit hfirst), run_bind deref_ok]
          rfl
        · have hmem : s ∈ b.slots := by simp [hfirst.slots]
          rw [KeyArg.read, hvalue]
          refine ⟨hloc.addrs_live _ (Bucket.addrs_of_mem hmem _ (by simp [Slot.addrs])), ?_⟩
          exact hloc.bucket.values s hmem

section Calls

variable {key : KeyArg}

theorem MapCall.exec_find (hbinds : hm.Binds keys m table buckets M) (hlegal : key.Legal M) :
    (MapCall.find key).exec alloc (hm, m)
      = .ok (.value (M (keys.toClass (key.read M))), hm, m) := by
  obtain ⟨src, hsrc, his⟩ := KeyArg.src_ok hbinds hlegal
  obtain ⟨pre, b, post, rfl, hloc, ⟨hnone, hmiss⟩ | ⟨us, s, vs, hfirst, hvalue⟩⟩ :=
    hbinds.locate his
  · rw [MapCall.exec, MapCall.run, run_bind hsrc, run_bind (hloc.find_miss hmiss), hnone]
    rfl
  · have hmem : s ∈ b.slots := by simp [hfirst.slots]
    have hlive := hloc.addrs_live s.value (Bucket.addrs_of_mem hmem _ (by simp [Slot.addrs]))
    rw [MapCall.exec, MapCall.run, run_bind hsrc, run_bind (hloc.find_hit hfirst), hvalue]
    dsimp only
    rw [run_bind (readBytes_ok hlive), hloc.bucket.values s hmem]
    rfl

theorem MapCall.exec_hasKey (hbinds : hm.Binds keys m table buckets M) (hlegal : key.Legal M) :
    (MapCall.hasKey key).exec alloc (hm, m)
      = .ok (.code (if (M (keys.toClass (key.read M))).isSome then 1 else 0), hm, m) := by
  obtain ⟨src, hsrc, his⟩ := KeyArg.src_ok hbinds hlegal
  obtain ⟨pre, b, post, rfl, hloc, ⟨hnone, hmiss⟩ | ⟨us, s, vs, hfirst, hvalue⟩⟩ :=
    hbinds.locate his
  · rw [MapCall.exec, MapCall.run, run_bind hsrc, run_bind (hloc.hasKey_miss hmiss), hnone]
    rfl
  · rw [MapCall.exec, MapCall.run, run_bind hsrc, run_bind (hloc.hasKey_hit hfirst), hvalue]
    rfl

theorem HashMap.Binds.update {size : Int} {slots : List Slot} {m' : Mem Entry σ}
    {M' : Bindings keys} (hbinds : hm.Binds keys m table (pre ++ b :: post) M)
    (hheap : ({ hm with size := size } : HashMap).OnHeap m' table (pre ++ ⟨b.head, slots⟩ :: post))
    (hslots : ∀ s ∈ slots, (pre.length : Int) = bucketIndex hm.capacity (hm.hashCode s.keyBytes))
    (hrep : Represents keys.setoid (bindings (pre ++ ⟨b.head, slots⟩ :: post)) M')
    (hsize : size = (bindings (pre ++ ⟨b.head, slots⟩ :: post)).length) (hle : size ≤ intMax) :
    ({ hm with size := size } : HashMap).Binds keys m' table (pre ++ ⟨b.head, slots⟩ :: post) M' where
  hashCode := hbinds.hashCode
  equal := hbinds.equal
  capacity_pos := hbinds.capacity_pos
  onHeap := hheap
  placed := hbinds.placed.replace hslots
  represents := hrep
  size := by
    rw [slotCount_eq]
    exact hsize
  size_le := hle

theorem HashMap.Binds.size_eq_length (hbinds : hm.Binds keys m table buckets M) :
    hm.size = (bindings buckets).length := by
  rw [hbinds.size, slotCount_eq]

theorem HashMap.Binds.slots_placed (hbinds : hm.Binds keys m table (pre ++ b :: post) M) :
    ∀ s ∈ b.slots, (pre.length : Int) = bucketIndex hm.capacity (hm.hashCode s.keyBytes) :=
  hbinds.placed pre.length b (by simp)

theorem MapCall.exec_erase (alloc : Allocator) (hbinds : hm.Binds keys m table buckets M)
    (hlegal : key.Legal M) :
    ∃ hm' m' buckets', (MapCall.erase key).exec alloc (hm, m)
        = .ok (((MapCall.erase key).spec M).1, hm', m') ∧
      hm'.Binds keys m' table buckets' ((MapCall.erase key).spec M).2 ∧
      m.Trades m' (owned table buckets) (owned table buckets') := by
  obtain ⟨src, hsrc, his⟩ := KeyArg.src_ok hbinds hlegal
  obtain ⟨pre, b, post, rfl, hloc, ⟨hnone, hmiss⟩ | ⟨us, s, vs, hfirst, hvalue⟩⟩ :=
    hbinds.locate his
  · refine ⟨hm, m, pre ++ b :: post, ?_, ?_, .refl⟩
    · rw [MapCall.exec, MapCall.run, run_bind hsrc, run_bind (hloc.erase_miss hmiss), MapCall.spec,
        hnone]
      rfl
    · rw [MapCall.spec, hnone]
      exact hbinds
  · have hhit := hfirst.hit
    rw [hbinds.equal] at hhit
    have hsize := hbinds.size_eq_length
    have hle := hbinds.size_le
    obtain ⟨head, slots⟩ := b
    obtain rfl : slots = us ++ s :: vs := hfirst.slots
    rw [bindings_perm.length_eq, List.length_cons] at hsize
    push_cast at hsize
    have hmin : intMin ≤ hm.size - 1 := le_trans (by decide : intMin ≤ 0) (by omega)
    obtain ⟨m', herase, hheap, htrades⟩ := hloc.erase_hit hfirst hmin (by omega)
    have hcount : hm.size - 1 = (bindings (pre ++ ⟨head, us ++ vs⟩ :: post)).length := by omega
    refine ⟨_, m', _, ?_, hbinds.update hheap (fun t ht => ?_) ?_ hcount (by omega), htrades⟩
    · rw [MapCall.exec, MapCall.run, run_bind hsrc, run_bind herase, MapCall.spec, hvalue]
      rfl
    · exact hbinds.slots_placed t (mem_with ht _)
    · rw [MapCall.spec, hvalue, (keys.toClass_eq_iff _ _).mpr hhit]
      exact (hbinds.represents.perm bindings_perm).erase

/-- A new key is bound, or counted once too often. -/
theorem HashMap.Binds.insert_miss (hbinds : hm.Binds keys m table buckets M) {key value : Buffer} {vsrc : Src}
    (hsrc : src.Is m key) (hvsrc : vsrc.Is m value) (hnone : M (keys.toClass key) = none)
    {keySize valueSize : Int} (hkeySize : 0 ≤ keySize ∧ keySize ≤ key.length)
    (hcovers : keys.equal key (key.take keySize.toNat) = 0)
    (hvalueSize : 0 ≤ valueSize ∧ valueSize ≤ value.length) {k v n : Addr}
    (hgrants : m.Grants alloc key keySize value valueSize k v n) :
    ∃ m' buckets', hm.insert alloc (some src) keySize (some vsrc) valueSize m
        = (if hm.size < intMax then .ok ((0, { hm with size := hm.size + 1 }), m')
          else .error .signedOverflow) ∧
      (hm.size < intMax → ({ hm with size := hm.size + 1 } : HashMap).Binds keys m' table buckets'
        (Function.update M (keys.toClass key) (some (value.take valueSize.toNat)))) ∧
      m.Trades m' (owned table buckets) (owned table buckets') := by
  obtain ⟨pre, b, post, rfl, hloc, ⟨_, hmiss⟩ | ⟨us, s, vs, hfirst, hvalue⟩⟩ := hbinds.locate hsrc
  · obtain ⟨m', s, hskey, hsvalue, hinsert, hheap, htrades⟩ :=
      hloc.insert_miss hmiss hvsrc hkeySize hvalueSize hgrants
    refine ⟨m', pre ++ ⟨b.head, b.slots ++ [s]⟩ :: post, ?_, fun hlt => ?_, htrades⟩
    · by_cases hlt : hm.size < intMax
      · rw [hinsert.trans (run_bind (incr_ok hlt)), if_pos hlt]
        rfl
      · rw [hinsert.trans (run_bind_error (if_neg hlt)), if_neg hlt]
    · have hclass : keys.toClass key = keys.toClass s.keyBytes := by
        rw [keys.toClass_eq_iff, hskey]
        exact hcovers
      have hperm : (bindings (pre ++ ⟨b.head, b.slots ++ [s]⟩ :: post)).Perm
          (s.binding :: bindings (pre ++ b :: post)) := by
        have hsplit : bindings (pre ++ ⟨b.head, b.slots ++ []⟩ :: post)
            = bindings (pre ++ b :: post) := by rw [List.append_nil]
        rw [← hsplit]
        exact bindings_perm
      have hsize := hbinds.size_eq_length
      refine hbinds.update (hheap _) (fun t ht => ?_) ?_ ?_ (by omega)
      · rcases List.mem_append.mp ht with hold | hnew
        · exact hbinds.slots_placed t hold
        · obtain rfl := List.mem_singleton.mp hnew
          rw [hloc.index, hbinds.hashCode, hskey, keys.hashCode_eq _ _ hcovers]
      · rw [hclass, ← hsvalue]
        rw [hclass] at hnone
        exact (hbinds.represents.insert hnone).perm hperm.symm
      · rw [hperm.length_eq, List.length_cons]
        push_cast
        omega
  · rw [hnone] at hvalue
    cases hvalue

theorem MapCall.exec_insert_miss (hbinds : hm.Binds keys m table buckets M) (htotal : alloc.Total)
    {keySize valueSize : Int} {value : Buffer}
    (hlegal : (MapCall.insert key keySize value valueSize).Legal M)
    (hnone : M (keys.toClass (key.read M)) = none) :
    ∃ m' buckets', (MapCall.insert key keySize value valueSize).exec alloc (hm, m)
        = (if hm.size < intMax then .ok (.code 0, { hm with size := hm.size + 1 }, m')
          else .error .signedOverflow) ∧
      (hm.size < intMax → ({ hm with size := hm.size + 1 } : HashMap).Binds keys m' table buckets'
        ((MapCall.insert key keySize value valueSize).spec M).2) ∧
      m.Trades m' (owned table buckets) (owned table buckets') := by
  obtain ⟨hkey, hkeySize, hcovers, hvalueSize⟩ := hlegal
  obtain ⟨src, hsrc, his⟩ := KeyArg.src_ok hbinds hkey
  have hgiven : (Src.caller value).Is m value := rfl
  obtain ⟨k, v, n, hgrants⟩ :=
    Mem.exists_grants htotal hkeySize.1 hvalueSize.1 m (key.read M) value
  obtain ⟨m', buckets', hinsert, hbinds', htrades⟩ :=
    hbinds.insert_miss his hgiven hnone hkeySize hcovers hvalueSize hgrants
  refine ⟨m', buckets', ?_, hbinds', htrades⟩
  rw [MapCall.exec, MapCall.run, run_bind hsrc]
  by_cases hlt : hm.size < intMax
  · rw [if_pos hlt] at hinsert ⊢
    rw [run_bind hinsert]
    rfl
  · rw [if_neg hlt] at hinsert ⊢
    rw [run_bind_error hinsert]
    rfl

/-- A bound key gets a copy of a value that is not the block it is bound to. -/
theorem HashMap.Binds.insert_hit (hbinds : hm.Binds keys m table buckets M)
    {key value : Buffer} {vsrc : Src} (hsrc : src.Is m key) (hvsrc : vsrc.Is m value)
    (hsome : M (keys.toClass key) ≠ none)
    (hother : ∀ a, hm.find src m = .ok (some a, m) → vsrc ≠ .block a) {valueSize : Int} (keySize : Int)
    (hvalueSize : 0 ≤ valueSize ∧ valueSize ≤ value.length)
    (hgrants : ∀ a, hm.find src m = .ok (some a, m) → ∃ v, (m.freed a).answer alloc valueSize = some v) :
    ∃ m' buckets', hm.insert alloc (some src) keySize (some vsrc) valueSize m = .ok ((0, hm), m') ∧
      hm.Binds keys m' table buckets'
        (Function.update M (keys.toClass key) (some (value.take valueSize.toNat))) ∧
      m.Trades m' (owned table buckets) (owned table buckets') := by
  obtain ⟨pre, b, post, rfl, hloc, ⟨hnone, _⟩ | ⟨us, s, vs, hfirst, hvalue⟩⟩ := hbinds.locate hsrc
  · exact absurd hnone hsome
  · have hhit := hfirst.hit
    rw [hbinds.equal] at hhit
    have hsize := hbinds.size_eq_length
    obtain ⟨v, hv⟩ := hgrants s.value (hloc.find_hit hfirst)
    obtain ⟨m', s', hskey, hsvalue, hinsert, hheap, htrades⟩ := hloc.insert_hit hfirst hvsrc
      (hother s.value (hloc.find_hit hfirst)) keySize hvalueSize hv
    obtain ⟨head, slots⟩ := b
    obtain rfl : slots = us ++ s :: vs := hfirst.slots
    refine ⟨m', _, hinsert, hbinds.update hheap (fun t ht => ?_) ?_ ?_ hbinds.size_le, htrades⟩
    · have hplaced := hbinds.slots_placed
      simp only [List.mem_append, List.mem_cons] at ht hplaced
      rcases ht with hu | rfl | hv
      · exact hplaced t (Or.inl hu)
      · rw [hskey]
        exact hplaced s (Or.inr (Or.inl rfl))
      · exact hplaced t (Or.inr (Or.inr hv))
    · have hbinding : s'.binding = (s.keyBytes, value.take valueSize.toNat) := by
        rw [Slot.binding, hskey, hsvalue]
      rw [(keys.toClass_eq_iff _ _).mpr hhit]
      refine Represents.perm bindings_perm.symm ?_
      rw [hbinding]
      exact (hbinds.represents.perm bindings_perm).replace
    · rw [hsize, bindings_perm.length_eq, bindings_perm.length_eq]
      rfl

theorem MapCall.exec_insert_hit (hbinds : hm.Binds keys m table buckets M) (htotal : alloc.Total)
    {keySize valueSize : Int} {value : Buffer}
    (hlegal : (MapCall.insert key keySize value valueSize).Legal M)
    (hsome : M (keys.toClass (key.read M)) ≠ none) :
    ∃ m' buckets', (MapCall.insert key keySize value valueSize).exec alloc (hm, m)
        = .ok (.code 0, hm, m') ∧
      hm.Binds keys m' table buckets' ((MapCall.insert key keySize value valueSize).spec M).2 ∧
      m.Trades m' (owned table buckets) (owned table buckets') := by
  obtain ⟨hkey, _, _, hvalueSize⟩ := hlegal
  obtain ⟨src, hsrc, his⟩ := KeyArg.src_ok hbinds hkey
  have hgiven : (Src.caller value).Is m value := rfl
  obtain ⟨m', buckets', hinsert, hbinds', htrades⟩ :=
    hbinds.insert_hit his hgiven hsome (by simp) keySize hvalueSize
      fun a _ => Mem.exists_answer htotal hvalueSize.1 (m.freed a)
  refine ⟨m', buckets', ?_, hbinds', htrades⟩
  rw [MapCall.exec, MapCall.run, run_bind hsrc, run_bind hinsert]
  rfl

theorem MapCall.exec_clear (alloc : Allocator) (hbinds : hm.Binds keys m table buckets M) :
    ∃ m' buckets', MapCall.clear.exec alloc (hm, m) = .ok (.code 0, { hm with size := 0 }, m') ∧
      ({ hm with size := 0 } : HashMap).Binds keys m' table buckets' (fun _ => none) ∧
      m.Trades m' (owned table buckets) (owned table buckets') := by
  obtain ⟨m', hclear, hheap, htrades⟩ := hbinds.onHeap.clear_ok hbinds.size hbinds.size_le
  have hempty : (buckets.map Bucket.emptied).flatMap Bucket.slots = [] := by
    rw [List.flatMap_eq_nil_iff]
    intro b hb
    obtain ⟨c, _, rfl⟩ := List.mem_map.mp hb
    rfl
  refine ⟨m', buckets.map Bucket.emptied, ?_, ⟨hbinds.hashCode, hbinds.equal, hbinds.capacity_pos,
    hheap, fun i b hget s hs => ?_, ?_, ?_, (by decide : (0 : Int) ≤ intMax)⟩, htrades⟩
  · rw [MapCall.exec, MapCall.run, run_bind hclear]
    rfl
  · have hmem := List.mem_flatMap.mpr ⟨b, List.mem_of_getElem? hget, hs⟩
    rw [hempty] at hmem
    cases hmem
  · rw [bindings, hempty]
    exact Represents.nil
  · rw [slotCount, hempty]
    rfl

theorem MapCall.exec_refines (hbinds : hm.Binds keys m table buckets M) (htotal : alloc.Total)
    {call : MapCall} (hlegal : call.Legal M) (hfits : ¬call.Overflows M) :
    ∃ hm' m' buckets', call.exec alloc (hm, m) = .ok ((call.spec M).1, hm', m') ∧
      hm'.Binds keys m' table buckets' (call.spec M).2 ∧
      m.Trades m' (owned table buckets) (owned table buckets') := by
  cases call with
  | insert key keySize value valueSize =>
      by_cases hnone : M (keys.toClass (key.read M)) = none
      · obtain ⟨m', buckets', hexec, hbinds', htrades⟩ := exec_insert_miss hbinds htotal hlegal hnone
        have hlt : hm.size < intMax := by
          by_contra hnot
          refine hfits ⟨?_, ?_⟩
          · rw [Bindings.bound, Set.mem_ofPred_eq, hnone]
            exact Bool.false_ne_true
          · rw [← hbinds.size_eq]
            omega
        rw [if_pos hlt] at hexec
        exact ⟨_, m', buckets', hexec, hbinds' hlt, htrades⟩
      · obtain ⟨m', buckets', hexec, hbinds', htrades⟩ := exec_insert_hit hbinds htotal hlegal hnone
        exact ⟨hm, m', buckets', hexec, hbinds', htrades⟩
  | find key => exact ⟨hm, m, buckets, exec_find hbinds hlegal, hbinds, .refl⟩
  | hasKey key => exact ⟨hm, m, buckets, exec_hasKey hbinds hlegal, hbinds, .refl⟩
  | erase key => exact exec_erase alloc hbinds hlegal
  | clear =>
      obtain ⟨m', buckets', hexec, hbinds', htrades⟩ := exec_clear alloc hbinds
      exact ⟨_, m', buckets', hexec, hbinds', htrades⟩
  | getSize =>
      refine ⟨hm, m, buckets, ?_, hbinds, .refl⟩
      change Except.ok (MapResult.code hm.size, hm, m) = _
      rw [hbinds.size_eq]
      rfl

end Calls

end Relation

/-! ### The refinement -/

theorem HashMap.init_binds {keys : KeyOps} {alloc : Allocator} {capacity : Int} {hm : HashMap}
    {m₀ m : Mem Entry σ} (hcapacity : 1 ≤ capacity)
    (hinit : (HashMap.new keys.hashCode keys.equal capacity).init alloc m₀ = .ok ((0, hm), m)) :
    ∃ table buckets, hm.Binds keys m table buckets (fun _ => none) ∧
      m.Owns m₀.live (owned table buckets) := by
  obtain ⟨⟨table, buckets, hheap, hslots, howns⟩, hsize, hcapacity, hhash, hequal⟩ :=
    HashMap.init_ok hcapacity hinit
  have hempty : buckets.flatMap Bucket.slots = [] := List.flatMap_eq_nil_iff.mpr hslots
  refine ⟨table, buckets, ⟨hhash, hequal, by omega, hheap, fun i b hget s hs => ?_, ?_, ?_, ?_⟩,
    howns⟩
  · have hmem := List.mem_flatMap.mpr ⟨b, List.mem_of_getElem? hget, hs⟩
    rw [hempty] at hmem
    cases hmem
  · rw [bindings, hempty]
    exact Represents.nil
  · rw [hsize, slotCount, hempty]
    rfl
  · rw [hsize]
    decide

/-- **The run.** From any map on the heap, to the end or to a key too many. -/
theorem HashMap.Binds.runCalls_refines {keys : KeyOps} {alloc : Allocator} {hm : HashMap}
    {m : Mem Entry σ} {table : Addr} {buckets : List Bucket} {M : Bindings keys}
    (hbinds : hm.Binds keys m table buckets M) (htotal : alloc.Total) {calls : List MapCall}
    (hlegal : Admissible MapCall.spec MapCall.Legal M calls) :
    ∃ pre post results hm' m' buckets', ∃ M' : Bindings keys, calls = pre ++ post ∧
      runCalls (MapCall.exec alloc) (hm, m) pre = .ok (results, hm', m') ∧
      runSpec MapCall.spec M pre = (results, M') ∧
      hm'.Binds keys m' table buckets' M' ∧
      m.Trades m' (owned table buckets) (owned table buckets') ∧
      ∀ call ∈ post.head?, call.Legal M' ∧ call.Overflows M' := by
  let rel (s : HashMap × Mem Entry σ) (M : Bindings keys) : Prop :=
    ∃ buckets', s.1.Binds keys s.2 table buckets' M ∧
      m.Trades s.2 (owned table buckets) (owned table buckets')
  have hstart : rel (hm, m) M := ⟨buckets, hbinds, .refl⟩
  have hstep : ∀ (s : HashMap × Mem Entry σ) (M : Bindings keys) (call : MapCall), rel s M →
      (call.Legal M ∧ ¬call.Overflows M) →
      ∃ result s' M', call.exec alloc s = .ok (result, s') ∧ call.spec M = (result, M') ∧ rel s' M' := by
    rintro s M call ⟨buckets₁, hbinds₁, htrades₁⟩ ⟨hcall, hfits⟩
    obtain ⟨hm', m', buckets', hexec, hbinds', htrades'⟩ :=
      MapCall.exec_refines hbinds₁ htotal hcall hfits
    exact ⟨_, (hm', m'), _, hexec, rfl, buckets', hbinds', htrades₁.trans htrades'⟩
  obtain ⟨pre, post, results, ⟨hm', m'⟩, M', rfl, hrun, hfollows, ⟨buckets', hbinds', htrades⟩, hstop⟩ :=
    runCalls_follows hstep hstart calls
  have hspec := hfollows.runSpec_eq
  refine ⟨pre, post, results, hm', m', buckets', M', rfl, hrun, hspec, hbinds', htrades, ?_⟩
  intro call hcall
  have hrest := hlegal.append_right
  rw [hspec] at hrest
  cases post with
  | nil => cases hcall
  | cons first post =>
      cases hcall
      refine ⟨hrest.1, ?_⟩
      by_contra hnot
      exact hstop _ rfl ⟨hrest.1, hnot⟩

/-- **The hash map refines a finite map.** Any sequence of calls runs to its end with the results that
it has on the finite map, or up to an `insert` of one key more than an `int` can count. -/
theorem hashMap_refines_finite_map {keys : KeyOps} {alloc : Allocator} (htotal : alloc.Total)
    {capacity : Int} (hcapacity : 1 ≤ capacity) {hm : HashMap} {m₀ m : Mem Entry σ}
    (hinit : (HashMap.new keys.hashCode keys.equal capacity).init alloc m₀ = .ok ((0, hm), m))
    {calls : List MapCall}
    (hlegal : Admissible MapCall.spec MapCall.Legal (fun _ => none : Bindings keys) calls) :
    ∃ pre post results hm' m' table buckets, ∃ M : Bindings keys, calls = pre ++ post ∧
      runCalls (MapCall.exec alloc) (hm, m) pre = .ok (results, hm', m') ∧
      runSpec MapCall.spec (fun _ => none) pre = (results, M) ∧
      hm'.Binds keys m' table buckets M ∧ hm'.getSize = M.bound.ncard ∧
      ∀ call ∈ post.head?, call.Overflows M := by
  obtain ⟨table, _, hbinds, _⟩ := HashMap.init_binds hcapacity hinit
  obtain ⟨pre, post, results, hm', m', buckets, M, hsplit, hrun, hspec, hbinds', _, hstop⟩ :=
    hbinds.runCalls_refines htotal hlegal
  exact ⟨pre, post, results, hm', m', table, buckets, M, hsplit, hrun, hspec, hbinds',
    hbinds'.size_eq, fun call hcall => (hstop call hcall).2⟩

/-- Keys that are equal if their bytes are, with one hash code for all. -/
def plainKeys : KeyOps where
  hashCode _ := -7
  equal a b := if a = b then 0 else 1
  equal_refl := by simp
  equal_symm := by
    intro a b h
    rw [if_pos (by_contra fun hne => by simp [hne] at h : a = b).symm]
  equal_trans := by
    intro a b c hab hbc
    have hab : a = b := by_contra fun hne => by simp [hne] at hab
    rw [hab]
    exact hbc
  hashCode_eq := by simp

theorem hashMap_refines_finite_map_pair :
    ∃ (hm : HashMap) (m : Mem Entry Unit),
      (HashMap.new plainKeys.hashCode plainKeys.equal 2).init nextAddress (.empty ())
        = .ok ((0, hm), m) ∧
      ∃ pre post results hm' m' table buckets, ∃ M : Bindings plainKeys,
        [.insert (.bytes [some 1]) 1 [some 2] 1, .hasKey (.found [some 1]), .getSize] = pre ++ post ∧
        runCalls (MapCall.exec nextAddress) (hm, m) pre = .ok (results, hm', m') ∧
        runSpec MapCall.spec (fun _ => none) pre = (results, M) ∧
        hm'.Binds plainKeys m' table buckets M ∧ hm'.getSize = M.bound.ncard ∧
        ∀ call ∈ post.head?, call.Overflows M := by
  obtain ⟨hm, m, hinit⟩ : ∃ (hm : HashMap) (m : Mem Entry Unit),
      (HashMap.new plainKeys.hashCode plainKeys.equal 2).init nextAddress (.empty ())
        = .ok ((0, hm), m) := ⟨_, _, rfl⟩
  refine ⟨hm, m, hinit, hashMap_refines_finite_map nextAddress_total (by decide) hinit ?_⟩
  refine ⟨⟨trivial, by decide, by decide, by decide⟩, ?_, trivial, trivial⟩
  simp [MapCall.Legal, KeyArg.Legal, Bindings.bound, MapCall.spec, KeyArg.read]

/-! ### The limit -/

section Limit

variable {keys : KeyOps} {alloc : Allocator} {hm : HashMap} {m : Mem Entry σ} {table : Addr}
  {buckets : List Bucket} {M : Bindings keys}

theorem MapCall.exec_overflows (hbinds : hm.Binds keys m table buckets M) (htotal : alloc.Total)
    {call : MapCall} (hlegal : call.Legal M) (hoverflow : call.Overflows M) :
    call.exec alloc (hm, m) = .error .signedOverflow := by
  cases call with
  | insert key keySize value valueSize =>
      obtain ⟨hnew, hfull⟩ := hoverflow
      have hnone : M (keys.toClass (key.read M)) = none := by
        rw [Bindings.bound, Set.mem_ofPred_eq] at hnew
        simpa using hnew
      obtain ⟨m', buckets', hexec, _⟩ := exec_insert_miss hbinds htotal hlegal hnone
      rw [hexec, if_neg (by rw [hbinds.size_eq]; omega)]
  | find key => exact hoverflow.elim
  | hasKey key => exact hoverflow.elim
  | erase key => exact hoverflow.elim
  | clear => exact hoverflow.elim
  | getSize => exact hoverflow.elim

/-- A run that comes to its end has the bindings that the calls have on the finite map. -/
theorem HashMap.Binds.of_runCalls (hbinds : hm.Binds keys m table buckets M) (htotal : alloc.Total)
    {calls : List MapCall} (hlegal : Admissible MapCall.spec MapCall.Legal M calls)
    {results : List MapResult} {hm' : HashMap} {m' : Mem Entry σ}
    (hrun : runCalls (MapCall.exec alloc) (hm, m) calls = .ok (results, hm', m')) :
    ∃ buckets', hm'.Binds keys m' table buckets' (runSpec MapCall.spec M calls).2 := by
  obtain ⟨pre, post, results', hm₁, m₁, buckets', M', hsplit, hpre, hspec, hbinds', _, hstop⟩ :=
    hbinds.runCalls_refines htotal hlegal
  cases post with
  | nil =>
      rw [List.append_nil] at hsplit
      subst hsplit
      rw [hpre] at hrun
      cases hrun
      rw [hspec]
      exact ⟨buckets', hbinds'⟩
  | cons call post =>
      obtain ⟨hcall, hoverflow⟩ := hstop call rfl
      rw [hsplit, runCalls_append_error hpre (MapCall.exec_overflows hbinds' htotal hcall hoverflow)] at hrun
      cases hrun

def insertKey (key : Buffer) : MapCall := .insert (.bytes key) key.length [] 0

theorem insertKey_legal (M : Bindings keys) (key : Buffer) : (insertKey key).Legal M := by
  refine ⟨trivial, ⟨by omega, le_rfl⟩, ?_, le_rfl, le_rfl⟩
  rw [Int.toNat_natCast, KeyArg.read, List.take_length]
  exact keys.equal_refl key

theorem insertKeys_admissible (M : Bindings keys) (ks : List Buffer) :
    Admissible MapCall.spec MapCall.Legal M (ks.map insertKey) := by
  induction ks generalizing M with
  | nil => trivial
  | cons key ks ih => exact ⟨insertKey_legal M key, ih _⟩

theorem bound_insertKeys (M : Bindings keys) (ks : List Buffer) (key : Buffer)
    (hkey : keys.toClass key ∈ M.bound ∨ key ∈ ks) :
    keys.toClass key ∈ (runSpec MapCall.spec M (ks.map insertKey)).2.bound := by
  induction ks generalizing M with
  | nil => exact hkey.resolve_right (List.not_mem_nil)
  | cons k ks ih =>
      apply ih (insertKey k |>.spec M).2
      by_cases hclass : keys.toClass key = keys.toClass k
      · left
        rw [hclass, Bindings.bound, Set.mem_ofPred_eq]
        change (Function.update M (keys.toClass k) _ (keys.toClass k)).isSome = true
        rw [Function.update_self]
        rfl
      · rcases hkey with hbound | hmem
        · left
          change (Function.update M (keys.toClass k) _ (keys.toClass key)).isSome = true
          rw [Function.update_of_ne hclass]
          exact hbound
        · rcases List.mem_cons.mp hmem with rfl | hmem
          · exact absurd rfl hclass
          · exact Or.inr hmem

theorem insertKeys_overflows (hbinds : hm.Binds keys m table buckets M) (htotal : alloc.Total)
    {ks : List Buffer} (hnodup : (ks.map keys.toClass).Nodup) (hmany : intMax < ks.length) :
    runCalls (MapCall.exec alloc) (hm, m) (ks.map insertKey) = .error .signedOverflow := by
  obtain ⟨pre, post, results, hm', m', buckets', M', hsplit, hrun, hspec, hbinds', _, hstop⟩ :=
    hbinds.runCalls_refines htotal (insertKeys_admissible M ks)
  cases post with
  | nil =>
      rw [List.append_nil] at hsplit
      have hle := hbinds'.represents.length_le hnodup fun c hc => by
        obtain ⟨key, hkey, rfl⟩ := List.mem_map.mp hc
        have hbound := bound_insertKeys M ks key (Or.inr hkey)
        rw [hsplit, hspec] at hbound
        exact hbound
      have hsize := hbinds'.size_eq_length
      have hmax := hbinds'.size_le
      rw [List.length_map] at hle
      omega
  | cons call post =>
      obtain ⟨hlegal, hoverflow⟩ := hstop call rfl
      rw [hsplit]
      exact runCalls_append_error hrun (MapCall.exec_overflows hbinds' htotal hlegal hoverflow)

end Limit

/-- Keys of four bytes. -/
def distinctKeys (n : Nat) : List Buffer := (List.range n).map fun i => (BigEndian.bytes 4 i).map some

theorem distinctKeys_nodup {n : Nat} (hn : n ≤ 4294967296) :
    ((distinctKeys n).map plainKeys.toClass).Nodup := by
  rw [distinctKeys, List.map_map]
  refine List.nodup_range.map_on fun i hi j hj heq => ?_
  have hequal := (plainKeys.toClass_eq_iff _ _).mp heq
  have hkeys : (BigEndian.bytes 4 i).map some = (BigEndian.bytes 4 j).map some :=
    by_contra fun hne => by simp [plainKeys, hne] at hequal
  have hbytes := List.map_injective_iff.mpr (Option.some_injective _) hkeys
  have hvalue := congrArg BigEndian.value hbytes
  rw [BigEndian.value_bytes, BigEndian.value_bytes] at hvalue
  rw [List.mem_range] at hi hj
  omega

theorem distinctKeys_overflow {alloc : Allocator} {hm : HashMap} {m : Mem Entry σ} {table : Addr}
    {buckets : List Bucket} {M : Bindings plainKeys} (hbinds : hm.Binds plainKeys m table buckets M)
    (htotal : alloc.Total) {n : Nat} (hmany : intMax < n) (hn : n ≤ 4294967296) :
    runCalls (MapCall.exec alloc) (hm, m) ((distinctKeys n).map insertKey) = .error .signedOverflow := by
  refine insertKeys_overflows hbinds htotal (distinctKeys_nodup hn) ?_
  rw [distinctKeys, List.length_map, List.length_range]
  exact hmany

/-- 2^31 different keys are inserted, and `size` overflows. -/
theorem hashMap_size_overflows : ∃ (hm : HashMap) (m : Mem Entry Unit),
    (HashMap.new plainKeys.hashCode plainKeys.equal 1).init nextAddress (.empty ())
      = .ok ((0, hm), m) ∧
    Admissible MapCall.spec MapCall.Legal (fun _ => none : Bindings plainKeys)
      ((distinctKeys 2147483648).map insertKey) ∧
    runCalls (MapCall.exec nextAddress) (hm, m) ((distinctKeys 2147483648).map insertKey)
      = .error .signedOverflow := by
  obtain ⟨hm, m, hinit⟩ : ∃ (hm : HashMap) (m : Mem Entry Unit),
      (HashMap.new plainKeys.hashCode plainKeys.equal 1).init nextAddress (.empty ())
        = .ok ((0, hm), m) := ⟨_, _, rfl⟩
  obtain ⟨table, buckets, hbinds, _⟩ := HashMap.init_binds (by decide) hinit
  generalize hn : 2147483648 = n
  refine ⟨hm, m, hinit, insertKeys_admissible _ _, ?_⟩
  exact distinctKeys_overflow hbinds nextAddress_total (by rw [← hn]; decide) (by omega)

end Gittest
