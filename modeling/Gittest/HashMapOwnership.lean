import Gittest.HashMapFiniteMap

/-!
# The hash map owns its memory

Of the blocks that are live, a map owns its array, the heads of its lists, and for every entry a node and
the copies of a key and of a value; the others were live before `init`. The destructor frees what the map
owns. Nothing is freed twice or used after that, as it would be a fault.
-/

namespace Gittest

open Calls

variable {σ : Type}

theorem HashMap.Binds.destroy_ok {keys : KeyOps} {hm : HashMap} {m : Mem Entry σ} {table : Addr}
    {buckets : List Bucket} {M : Bindings keys} (hbinds : hm.Binds keys m table buckets M)
    {base : Finset Addr} (howns : m.Owns base (owned table buckets)) :
    ∃ m', hm.destroy m = .ok ((), m') ∧ m'.live = base := by
  obtain ⟨m', hdestroy, htrades⟩ := hbinds.onHeap.destroy_ok
  refine ⟨m', hdestroy, ?_⟩
  ext a
  simpa using (htrades base howns).2 a

/-- **Ownership.** After any sequence of calls, up to an `insert` of one key more than an `int` can count,
the live blocks are the ones before `init` and those of the array, the heads, the nodes, the keys and the
values, each of which is in one place; after the destructor they are the ones before `init`. -/
theorem hashMap_owns_its_memory {keys : KeyOps} {alloc : Allocator} (htotal : alloc.Total)
    {capacity : Int} (hcapacity : 1 ≤ capacity) {hm : HashMap} {m₀ m : Mem Entry σ}
    (hinit : (HashMap.new keys.hashCode keys.equal capacity).init alloc m₀ = .ok ((0, hm), m))
    {calls : List MapCall}
    (hlegal : Admissible MapCall.spec MapCall.Legal (fun _ => none : Bindings keys) calls) :
    ∃ pre post results hm' m' table buckets, ∃ M : Bindings keys, calls = pre ++ post ∧
      runCalls (MapCall.exec alloc) (hm, m) pre = .ok (results, hm', m') ∧
      hm'.Binds keys m' table buckets M ∧ (owned table buckets).Nodup ∧
      m'.Owns m₀.live (owned table buckets) ∧
      (∃ m'', hm'.destroy m' = .ok ((), m'') ∧ m''.live = m₀.live) ∧
      ∀ call ∈ post.head?, call.Overflows M := by
  obtain ⟨table, _, hbinds, howns⟩ := HashMap.init_binds hcapacity hinit
  obtain ⟨pre, post, results, hm', m', buckets, M, hsplit, hrun, _, hbinds', htrades, hstop⟩ :=
    hbinds.runCalls_refines htotal hlegal
  have howns' := htrades m₀.live howns
  exact ⟨pre, post, results, hm', m', table, buckets, M, hsplit, hrun, hbinds',
    hbinds'.onHeap.nodup, howns', hbinds'.destroy_ok howns', fun call hcall => (hstop call hcall).2⟩

theorem hashMap_owns_its_memory_four :
    ∃ (hm : HashMap) (m : Mem Entry Unit),
      (HashMap.new plainKeys.hashCode plainKeys.equal 2).init nextAddress (.empty ())
        = .ok ((0, hm), m) ∧
      ∃ pre post results hm' m' table buckets, ∃ M : Bindings plainKeys,
        [.insert (.bytes [some 1]) 1 [some 2] 1, .insert (.bytes [some 1]) 1 [some 3, some 4] 2,
          .erase (.found [some 1]), .clear] = pre ++ post ∧
        runCalls (MapCall.exec nextAddress) (hm, m) pre = .ok (results, hm', m') ∧
        hm'.Binds plainKeys m' table buckets M ∧ (owned table buckets).Nodup ∧
        m'.Owns (Mem.empty (α := Entry) ()).live (owned table buckets) ∧
        (∃ m'', hm'.destroy m' = .ok ((), m'') ∧ m''.live = (Mem.empty (α := Entry) ()).live) ∧
        ∀ call ∈ post.head?, call.Overflows M := by
  obtain ⟨hm, m, hinit⟩ : ∃ (hm : HashMap) (m : Mem Entry Unit),
      (HashMap.new plainKeys.hashCode plainKeys.equal 2).init nextAddress (.empty ())
        = .ok ((0, hm), m) := ⟨_, _, rfl⟩
  refine ⟨hm, m, hinit, hashMap_owns_its_memory nextAddress_total (by decide) hinit ?_⟩
  refine ⟨⟨trivial, by decide, by decide, by decide⟩, ⟨trivial, by decide, by decide, by decide⟩, ?_,
    trivial, trivial⟩
  simp [MapCall.Legal, KeyArg.Legal, Bindings.bound, MapCall.spec, KeyArg.read]

/-- 2^31 different keys are inserted, and no state is left after the last call. -/
theorem hashMap_inserts_overflow : ∃ (hm : HashMap) (m : Mem Entry Unit),
    (HashMap.new plainKeys.hashCode plainKeys.equal 2).init nextAddress (.empty ())
      = .ok ((0, hm), m) ∧
    Admissible MapCall.spec MapCall.Legal (fun _ => none : Bindings plainKeys)
      ((distinctKeys 2147483648).map insertKey) ∧
    ¬∃ results hm' m', runCalls (MapCall.exec nextAddress) (hm, m)
      ((distinctKeys 2147483648).map insertKey) = .ok (results, hm', m') := by
  obtain ⟨hm, m, hinit⟩ : ∃ (hm : HashMap) (m : Mem Entry Unit),
      (HashMap.new plainKeys.hashCode plainKeys.equal 2).init nextAddress (.empty ())
        = .ok ((0, hm), m) := ⟨_, _, rfl⟩
  obtain ⟨table, buckets, hbinds, _⟩ := HashMap.init_binds (by decide) hinit
  generalize hn : 2147483648 = n
  refine ⟨hm, m, hinit, insertKeys_admissible _ _, ?_⟩
  rintro ⟨results, hm', m', hrun⟩
  have hfail := distinctKeys_overflow hbinds nextAddress_total (by rw [← hn]; decide : intMax < (n : Int))
    (by omega)
  rw [hrun] at hfail
  cases hfail

end Gittest
