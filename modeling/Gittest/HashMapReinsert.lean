import Gittest.HashMapFiniteMap

/-!
# A stored value is inserted again

`find` returns a pointer to the copy that the map has made of a value. If that is passed to `insert`, the
source of the copy is a block of the map.
-/

namespace Gittest

open Calls Outcome

variable {σ : Type} {keys : KeyOps} {hm : HashMap} {m : Mem Entry σ} {table : Addr}
  {pre post buckets : List Bucket} {b : Bucket} {us vs : List Slot} {s s' : Slot} {M : Bindings keys}
  {src src' : Src} {key key' value : Buffer} {alloc : Allocator}

/-- `insert(key, keySize, find(key'), valueSize)` -/
def HashMap.reinsert (alloc : Allocator) (hm : HashMap) (key : Src) (keySize : Int) (key' : Src)
    (valueSize : Int) : MemM Entry σ (Int × HashMap) := do
  let value ← hm.find key'
  hm.insert alloc (some key) keySize (value.map .block) valueSize

/-! ### Where the values are -/

theorem values_sublist (slots : List Slot) :
    (slots.map Slot.value).Sublist (slots.flatMap Slot.addrs) := by
  induction slots with
  | nil => exact List.Sublist.refl _
  | cons s slots ih => exact ((ih.cons_cons s.value).cons s.key).cons s.node

theorem owned_values_sublist (table : Addr) (buckets : List Bucket) :
    ((buckets.flatMap Bucket.slots).map Slot.value).Sublist (owned table buckets) := by
  apply List.Sublist.cons
  induction buckets with
  | nil => exact List.Sublist.refl _
  | cons b buckets ih =>
      rw [List.flatMap_cons, List.flatMap_cons, List.map_append]
      exact ((values_sublist b.slots).cons b.head).append ih

/-- No two slots share the block of their value. -/
theorem HashMap.OnHeap.slot_of_value (hheap : hm.OnHeap m table buckets)
    (hs : s ∈ buckets.flatMap Bucket.slots) (hs' : s' ∈ buckets.flatMap Bucket.slots)
    (hvalue : s.value = s'.value) : s = s' :=
  List.inj_on_of_nodup_map ((owned_values_sublist table buckets).nodup hheap.nodup) hs hs' hvalue

/-- The slot of a key that is bound. -/
theorem HashMap.Binds.exists_slot (hbinds : hm.Binds keys m table buckets M) (hsrc : src.Is m key)
    (hbound : M (keys.toClass key) = some value) :
    ∃ s ∈ buckets.flatMap Bucket.slots, hm.find src m = .ok (some s.value, m) ∧
      keys.equal key s.keyBytes = 0 ∧ (Src.block s.value).Is m value := by
  obtain ⟨pre, b, post, rfl, hloc, ⟨hnone, _⟩ | ⟨us, s, vs, hfirst, hvalue⟩⟩ := hbinds.locate hsrc
  · rw [hnone] at hbound
    cases hbound
  · have hmem : s ∈ b.slots := by simp [hfirst.slots]
    have hhit := hfirst.hit
    rw [hbinds.equal] at hhit
    obtain rfl : s.valueBytes = value := Option.some.inj (hvalue.symm.trans hbound)
    refine ⟨s, List.mem_flatMap.mpr ⟨b, by simp, hmem⟩, hloc.find_hit hfirst, hhit, ?_,
      hloc.bucket.values s hmem⟩
    exact hloc.addrs_live _ (Bucket.addrs_of_mem hmem _ (by simp [Slot.addrs]))

/-! ### Its own value -/

/-- An allocator that never answers `a`. -/
def avoiding (a : Addr) : Allocator where
  answer _ live _ := some ((insert a live).sup id + 1)
  fresh := by
    intro n live size b hanswer hmem
    exact nextAddress.fresh n (insert a live) size b hanswer (Finset.mem_insert_of_mem hmem)

theorem avoiding_total (a : Addr) : (avoiding a).Total := fun _ live _ => ⟨(insert a live).sup id + 1, rfl⟩

theorem Mem.answer_avoiding {a v : Addr} {size : Int} (hanswer : m.answer (avoiding a) size = some v) :
    v ≠ a := by
  rw [Mem.answer] at hanswer
  split at hanswer
  · cases hanswer
  · rintro rfl
    exact nextAddress.fresh 0 (insert v m.live) 0 v hanswer (Finset.mem_insert_self v m.live)

/-- The value is freed before it is copied. -/
theorem HashMap.Located.insert_own_value (hloc : hm.Located m table pre b post src key)
    (hfirst : hm.FirstHit b key us s vs) (keySize : Int) {valueSize : Int} {v : Addr}
    (hv : (m.freed s.value).answer alloc valueSize = some v) (hne : v ≠ s.value) :
    hm.insert alloc (some src) keySize (some (.block s.value)) valueSize m = .error .deadBlock := by
  obtain ⟨_, hinsert⟩ := hloc.insert_revalue hfirst keySize (.block s.value) hv
  have hcopy : memcpyTo (some v) (.block s.value) valueSize
      (((m.freed s.value).allocated v valueSize).setData s.node ⟨some s.key, some v⟩)
        = .error .deadBlock := by
    rw [memcpyTo, run_bind deref_ok]
    apply run_bind_error
    apply if_neg
    rw [Mem.live_setData, Mem.live_allocated, Mem.live_freed, Finset.mem_insert, Finset.mem_erase]
    rintro (h | h)
    · exact hne h.symm
    · exact h.1 rfl
  rw [hinsert]
  exact run_bind_error hcopy

/-! ### Which values can be inserted again -/

/-- Wherever `malloc` puts the copy, the key is bound to the value, and nothing else changes. -/
def HashMap.ReinsertsSafely (hm : HashMap) (m : Mem Entry σ) (M : Bindings keys) (src src' : Src)
    (key value : Buffer) (keySize : Int) : Prop :=
  ∀ alloc : Allocator, alloc.Total → ∃ m' table buckets,
    hm.reinsert alloc src keySize src' value.length m = .ok ((0, hm), m') ∧
      hm.Binds keys m' table buckets (Function.update M (keys.toClass key) (some value))

theorem HashMap.Located.of_equal (hloc : hm.Located m table pre b post src key) (hsrc' : src'.Is m key')
    (hhash : hm.hashCode key = hm.hashCode key') : hm.Located m table pre b post src' key' :=
  ⟨hloc.onHeap, by rw [← hhash]; exact hloc.index, hsrc'⟩

theorem HashMap.FirstHit.of_equal (hfirst : hm.FirstHit b key us s vs) (hequal : hm.equal = keys.equal)
    (hkeys : keys.equal key key' = 0) : hm.FirstHit b key' us s vs := by
  have hhit := hfirst.hit
  have hbefore := hfirst.before
  rw [hequal] at hhit hbefore
  refine ⟨hfirst.slots, ?_, fun u hu hzero => hbefore u hu ?_⟩
  · rw [hequal]
    exact keys.equal_trans _ _ _ (keys.equal_symm _ _ hkeys) hhit
  · rw [hequal] at hzero
    exact keys.equal_trans _ _ _ hkeys hzero

/-- The value of another key is copied out of a block that stays. -/
theorem HashMap.Binds.reinsert_other (hbinds : hm.Binds keys m table buckets M) (hsrc : src.Is m key)
    (hsrc' : src'.Is m key') (hbound : keys.toClass key ∈ M.bound)
    (hbound' : M (keys.toClass key') = some value) (hkeys : keys.equal key key' ≠ 0) (keySize : Int) :
    hm.ReinsertsSafely m M src src' key value keySize := by
  intro alloc htotal
  obtain ⟨old, hold⟩ := Option.isSome_iff_exists.mp hbound
  obtain ⟨s, hs, hfind, hequal, _⟩ := hbinds.exists_slot hsrc hold
  obtain ⟨s', hs', hfind', hequal', hvsrc⟩ := hbinds.exists_slot hsrc' hbound'
  have hother : ∀ a, hm.find src m = .ok (some a, m) → Src.block s'.value ≠ .block a := by
    intro a ha hsame
    rw [hfind] at ha
    cases ha
    obtain rfl := hbinds.onHeap.slot_of_value hs' hs (Src.block.inj hsame)
    exact hkeys (keys.equal_trans _ _ _ hequal (keys.equal_symm _ _ hequal'))
  obtain ⟨m', buckets', hinsert, hbinds', _⟩ := hbinds.insert_hit hsrc hvsrc (by rw [hold]; simp) hother
    keySize ⟨by omega, le_rfl⟩ fun a _ => Mem.exists_answer htotal (by omega) (m.freed a)
  rw [Int.toNat_natCast, List.take_length] at hbinds'
  refine ⟨m', table, buckets', ?_, hbinds'⟩
  rw [HashMap.reinsert, run_bind hfind']
  exact hinsert

/-- The value of the key itself is freed first, and the copy may be made elsewhere. -/
theorem HashMap.Binds.reinsert_same (hbinds : hm.Binds keys m table buckets M) (hsrc : src.Is m key)
    (hsrc' : src'.Is m key') (hbound' : M (keys.toClass key') = some value)
    (hkeys : keys.equal key key' = 0) (keySize : Int) :
    ¬hm.ReinsertsSafely m M src src' key value keySize := by
  intro hsafe
  obtain ⟨pre, b, post, rfl, hloc, ⟨hnone, _⟩ | ⟨us, s, vs, hfirst, _⟩⟩ := hbinds.locate hsrc
  · rw [(keys.toClass_eq_iff _ _).mpr hkeys, hbound'] at hnone
    cases hnone
  · have hhash : hm.hashCode key = hm.hashCode key' := by
      rw [hbinds.hashCode]
      exact keys.hashCode_eq _ _ hkeys
    have hfind := (hloc.of_equal hsrc' hhash).find_hit (hfirst.of_equal hbinds.equal hkeys)
    obtain ⟨m', _, _, hreinsert, _⟩ := hsafe (avoiding s.value) (avoiding_total s.value)
    obtain ⟨v, hv⟩ := Mem.exists_answer (avoiding_total s.value) (Int.natCast_nonneg value.length)
      (m.freed s.value)
    have hfail := hloc.insert_own_value hfirst keySize hv (Mem.answer_avoiding hv)
    rw [HashMap.reinsert, run_bind hfind] at hreinsert
    rw [Option.map_some, hfail] at hreinsert
    cases hreinsert

/-- **A stored value is inserted again** safely, after any calls, if and only if it is not that of the key
itself. -/
theorem hashMap_reinserts_safely {capacity : Int} (hcapacity : 1 ≤ capacity) (htotal : alloc.Total)
    {hm' : HashMap} {m₀ m' : Mem Entry σ}
    (hinit : (HashMap.new keys.hashCode keys.equal capacity).init alloc m₀ = .ok ((0, hm), m))
    {calls : List MapCall} {results : List MapResult}
    (hlegal : Admissible MapCall.spec MapCall.Legal (fun _ => none : Bindings keys) calls)
    (hrun : runCalls (MapCall.exec alloc) (hm, m) calls = .ok (results, hm', m'))
    (hspec : (runSpec MapCall.spec (fun _ => none) calls).2 = M)
    (hsrc : src.Is m' key) (hsrc' : src'.Is m' key') (hbound : keys.toClass key ∈ M.bound)
    (hbound' : M (keys.toClass key') = some value) {keySize : Int} :
    hm'.ReinsertsSafely m' M src src' key value keySize ↔ keys.equal key key' ≠ 0 := by
  obtain ⟨table, _, hbinds, _⟩ := HashMap.init_binds hcapacity hinit
  obtain ⟨buckets, hbinds'⟩ := hbinds.of_runCalls htotal hlegal hrun
  rw [hspec] at hbinds'
  constructor
  · intro hsafe hkeys
    exact hbinds'.reinsert_same hsrc hsrc' hbound' hkeys keySize hsafe
  · intro hkeys
    exact hbinds'.reinsert_other hsrc hsrc' hbound hbound' hkeys keySize

/-- Two keys are bound. -/
def bindTwo : List MapCall :=
  [.insert (.bytes [some 1]) 1 [some 2] 1, .insert (.bytes [some 3]) 1 [some 4] 1]

theorem hashMap_reinserts_safely_two : ∃ (hm hm' : HashMap) (m m' : Mem Entry Unit) (results : List MapResult),
    (HashMap.new plainKeys.hashCode plainKeys.equal 2).init nextAddress (.empty ()) = .ok ((0, hm), m) ∧
    runCalls (MapCall.exec nextAddress) (hm, m) bindTwo = .ok (results, hm', m') ∧
    hm'.ReinsertsSafely m' (Function.update (Function.update (fun _ => none : Bindings plainKeys)
        (plainKeys.toClass [some 1]) (some [some 2])) (plainKeys.toClass [some 3]) (some [some 4]))
      (.caller [some 1]) (.caller [some 3]) [some 1] [some 4] 1 := by
  obtain ⟨hm, m, hinit, hok⟩ : ∃ (hm : HashMap) (m : Mem Entry Unit),
      (HashMap.new plainKeys.hashCode plainKeys.equal 2).init nextAddress (.empty ())
        = .ok ((0, hm), m) ∧
      Meets (fun _ => True) (fun _ => False) (runCalls (MapCall.exec nextAddress) (hm, m) bindTwo) :=
    ⟨_, _, rfl, by decide +kernel⟩
  obtain ⟨⟨results, hm', m'⟩, hrun, _⟩ := hok.exists_ok
  have hlegal : Admissible MapCall.spec MapCall.Legal (fun _ => none : Bindings plainKeys) bindTwo :=
    ⟨⟨trivial, by decide, by decide, by decide⟩, ⟨trivial, by decide, by decide, by decide⟩, trivial⟩
  have hne : plainKeys.toClass [some 1] ≠ plainKeys.toClass [some 3] := by
    rw [Ne, plainKeys.toClass_eq_iff]
    decide
  have hkey : (Src.caller [some 1]).Is m' [some 1] := rfl
  have hkey' : (Src.caller [some 3]).Is m' [some 3] := rfl
  have hspec : (runSpec MapCall.spec (fun _ => none) bindTwo).2
      = Function.update (Function.update (fun _ => none : Bindings plainKeys)
        (plainKeys.toClass [some 1]) (some [some 2])) (plainKeys.toClass [some 3]) (some [some 4]) := rfl
  refine ⟨hm, hm', m, m', results, hinit, hrun, (hashMap_reinserts_safely (by decide)
    nextAddress_total hinit hlegal hrun hspec hkey hkey' ?_ (Function.update_self ..)).mpr (by decide)⟩
  rw [Bindings.bound, Set.mem_ofPred_eq, Function.update_of_ne hne, Function.update_self]
  rfl

/-- The value of the only key is inserted again under that key: the copy reads the block that was freed. -/
theorem hashMap_reinsert_reads_freed : ∃ (hm hm' : HashMap) (m m' : Mem Entry Unit)
    (results : List MapResult),
    (HashMap.new plainKeys.hashCode plainKeys.equal 2).init nextAddress (.empty ()) = .ok ((0, hm), m) ∧
    runCalls (MapCall.exec nextAddress) (hm, m) [.insert (.bytes [some 1]) 1 [some 2] 1]
      = .ok (results, hm', m') ∧
    hm'.reinsert nextAddress (.caller [some 1]) 1 (.caller [some 1]) 1 m' = .error .deadBlock ∧
    ∀ M : Bindings plainKeys,
      ¬hm'.ReinsertsSafely m' M (.caller [some 1]) (.caller [some 1]) [some 1] [some 2] 1 := by
  obtain ⟨hm, m, hinit, hdead⟩ : ∃ (hm : HashMap) (m : Mem Entry Unit),
      (HashMap.new plainKeys.hashCode plainKeys.equal 2).init nextAddress (.empty ())
        = .ok ((0, hm), m) ∧
      Meets (fun result => Meets (fun _ => False) (· = .deadBlock)
          (result.2.1.reinsert nextAddress (.caller [some 1]) 1 (.caller [some 1]) 1 result.2.2))
        (fun _ => False)
        (runCalls (MapCall.exec nextAddress) (hm, m) [.insert (.bytes [some 1]) 1 [some 2] 1]) :=
    ⟨_, _, rfl, by decide +kernel⟩
  obtain ⟨⟨results, hm', m'⟩, hrun, hfault⟩ := hdead.exists_ok
  obtain ⟨_, hreinsert, rfl⟩ := hfault.exists_error
  refine ⟨hm, hm', m, m', results, hinit, hrun, hreinsert, fun M hsafe => ?_⟩
  obtain ⟨_, _, _, hok, _⟩ := hsafe nextAddress nextAddress_total
  rw [List.length_singleton, Int.natCast_one, hreinsert] at hok
  cases hok

end Gittest
