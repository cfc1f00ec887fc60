import Gittest.HashMapFiniteMap
import Gittest.Lib.Transition

/-!
# The hash map and a failed insert

Of the three allocations of an `insert` of a new key, and the one of an `insert` of a key that is in the
map, only that of the list node is checked. Where it fails the map is as it was, but the two copies remain;
where one of the others fails, the code copies to `NULL`.
-/

namespace Gittest

open Outcome Transition

variable {σ : Type}

/-! ### What each failure comes to -/

section Refused

variable {hm : HashMap} {m : Mem Entry σ} {table : Addr} {pre post : List Bucket} {b : Bucket}
  {us vs : List Slot} {s : Slot} {src vsrc : Src} {key value : Buffer} {keySize valueSize : Int}
  {alloc : Allocator}

theorem memcpyTo_null (src : Src) (n : Int) : memcpyTo none src n m = .error .nullPointer := rfl

namespace HashMap.Located

theorem insert_key_refused (hloc : hm.Located m table pre b post src key)
    (hmiss : ∀ s ∈ b.slots, hm.equal key s.keyBytes ≠ 0) (hk : m.answer alloc keySize = none) :
    hm.insert alloc (some src) keySize (some vsrc) valueSize m = .error .nullPointer := by
  rw [HashMap.insert, hloc.run_list, run_bind (hloc.search_miss hmiss)]
  dsimp only
  rw [run_bind (mallocBlock_none hk), run_bind_error (memcpyTo_null src keySize)]

theorem insert_value_refused (hloc : hm.Located m table pre b post src key)
    (hmiss : ∀ s ∈ b.slots, hm.equal key s.keyBytes ≠ 0)
    (hkeySize : 0 ≤ keySize ∧ keySize ≤ key.length) {k : Addr} (hk : m.answer alloc keySize = some k)
    (hv : (m.stored k keySize key).answer alloc valueSize = none) :
    hm.insert alloc (some src) keySize (some vsrc) valueSize m = .error .nullPointer := by
  have hkey := memcpyTo_allocated (Mem.answer_fresh hk) hloc.src_is hkeySize.1 hkeySize.2
  rw [HashMap.insert, hloc.run_list, run_bind (hloc.search_miss hmiss)]
  dsimp only
  rw [run_bind (mallocBlock_some hk), run_bind hkey, run_bind (mallocBlock_none hv),
    run_bind_error (memcpyTo_null vsrc valueSize)]

/-- The one failure that is reported. -/
theorem insert_node_refused (hloc : hm.Located m table pre b post src key)
    (hmiss : ∀ s ∈ b.slots, hm.equal key s.keyBytes ≠ 0) (hvsrc : vsrc.Is m value)
    (hkeySize : 0 ≤ keySize ∧ keySize ≤ key.length)
    (hvalueSize : 0 ≤ valueSize ∧ valueSize ≤ value.length) {k v : Addr}
    (hk : m.answer alloc keySize = some k)
    (hv : (m.stored k keySize key).answer alloc valueSize = some v)
    (hn : ((m.stored k keySize key).stored v valueSize value).answer alloc (16 + 16) = none) :
    hm.insert alloc (some src) keySize (some vsrc) valueSize m
      = .ok ((-1, hm), ((m.stored k keySize key).stored v valueSize value).refused) := by
  obtain ⟨hcopies, hlist⟩ := hloc.insert_copies hmiss hvsrc hkeySize hvalueSize hk hv
  rw [hcopies, run_bind (llistInsert_refused hlist _ _ hn)]
  rfl

theorem insert_hit_refused (hloc : hm.Located m table pre b post src key)
    (hfirst : hm.FirstHit b key us s vs) (hv : (m.freed s.value).answer alloc valueSize = none) :
    hm.insert alloc (some src) keySize (some vsrc) valueSize m = .error .nullPointer := by
  obtain ⟨hinsert, hnode, hdata⟩ := hloc.insert_freed hfirst alloc keySize vsrc valueSize
  have hnode' : s.node ∈ (m.freed s.value).refused.live := hnode
  have hdata' : (m.freed s.value).refused.dataOf s.node = some s.entry.2 := hdata
  rw [hinsert, run_bind (mallocBlock_none hv), run_bind (readData_ok hnode' hdata'),
    run_bind (writeData_ok hnode'), run_bind_error (memcpyTo_null vsrc valueSize)]

end HashMap.Located

end Refused

/-! ### Every reachable map -/

section Reachable

variable {keys : KeyOps} {hm hm' : HashMap} {m m' : Mem Entry σ} {table : Addr} {buckets : List Bucket}
  {M : Bindings keys} {src vsrc : Src} {key value : Buffer} {keySize valueSize : Int}
  {alloc : Allocator}

theorem HashMap.OnHeap.frame (hheap : hm.OnHeap m table buckets)
    (hblock : ∀ a ∈ owned table buckets, m'.block a = m.block a)
    (hlive : ∀ a ∈ owned table buckets, a ∈ m'.live) : hm.OnHeap m' table buckets where
  entryList := hheap.entryList
  capacity := hheap.capacity
  extent := by
    rw [hblock table (List.mem_cons_self ..)]
    exact hheap.extent
  cells := by
    intro i b hget
    rw [Mem.cellOf, hblock table (List.mem_cons_self ..)]
    exact hheap.cells i b hget
  bucket := fun b hb => (hheap.bucket b hb).frame (fun a ha => hblock a (owned_of_mem hb a ha))
    fun a ha => hlive a (owned_of_mem hb a ha)
  nodup := hheap.nodup
  live := hlive

/-- The map after an `insert` whose node was refused: it is as it was, and the copies are live besides. -/
theorem HashMap.Binds.copies_left (hbinds : hm.Binds keys m table buckets M) {k v : Addr}
    (hk : m.answer alloc keySize = some k)
    (hv : (m.stored k keySize key).answer alloc valueSize = some v) :
    hm.Binds keys ((m.stored k keySize key).stored v valueSize value).refused table buckets M := by
  have hknew := Mem.answer_fresh hk
  have hvnew := Mem.answer_fresh hv
  rw [live_stored, Finset.mem_insert, not_or] at hvnew
  refine ⟨hbinds.hashCode, hbinds.equal, hbinds.capacity_pos, ?_, hbinds.placed, hbinds.represents,
    hbinds.size, hbinds.size_le⟩
  refine hbinds.onHeap.frame (fun a ha => ?_) fun a ha => ?_
  · have halive := hbinds.onHeap.live a ha
    have hak : a ≠ k := fun h => hknew (h ▸ halive)
    have hav : a ≠ v := fun h => hvnew.2 (h ▸ halive)
    exact (block_stored_of_ne hav _ _).trans (block_stored_of_ne hak _ _)
  · simp [Mem.refused, hbinds.onHeap.live a ha]

/-- Whatever `malloc` answers, an `insert` that does not fault leaves a map. -/
theorem HashMap.Binds.of_insert (hbinds : hm.Binds keys m table buckets M) (hsrc : src.Is m key)
    (hvsrc : vsrc.Is m value) (hother : ∀ a, hm.find src m = .ok (some a, m) → vsrc ≠ .block a)
    (hkeySize : 0 ≤ keySize ∧ keySize ≤ key.length)
    (hcovers : keys.equal key (key.take keySize.toNat) = 0)
    (hvalueSize : 0 ≤ valueSize ∧ valueSize ≤ value.length) {ret : Int}
    (hinsert : hm.insert alloc (some src) keySize (some vsrc) valueSize m = .ok ((ret, hm'), m')) :
    ∃ buckets', ∃ M' : Bindings keys, hm'.Binds keys m' table buckets' M' := by
  obtain ⟨pre, b, post, hsplit, hloc, ⟨hnone, hmiss⟩ | ⟨us, s, vs, hfirst, hvalue⟩⟩ :=
    hbinds.locate hsrc
  · cases hk : m.answer alloc keySize with
    | none =>
        rw [hloc.insert_key_refused hmiss hk] at hinsert
        cases hinsert
    | some k =>
        cases hv : (m.stored k keySize key).answer alloc valueSize with
        | none =>
            rw [hloc.insert_value_refused hmiss hkeySize hk hv] at hinsert
            cases hinsert
        | some v =>
            cases hn : ((m.stored k keySize key).stored v valueSize value).answer alloc (16 + 16) with
            | none =>
                rw [hloc.insert_node_refused hmiss hvsrc hkeySize hvalueSize hk hv hn] at hinsert
                cases hinsert
                exact ⟨buckets, M, hbinds.copies_left hk hv⟩
            | some n =>
                obtain ⟨m₁, buckets', hrun, hbinds', _⟩ := hbinds.insert_miss hsrc hvsrc hnone hkeySize
                  hcovers hvalueSize ⟨hk, hv, hn⟩
                rw [hrun] at hinsert
                split at hinsert
                · rename_i hlt
                  cases hinsert
                  exact ⟨buckets', _, hbinds' hlt⟩
                · cases hinsert
  · cases hv : (m.freed s.value).answer alloc valueSize with
    | none =>
        rw [hloc.insert_hit_refused hfirst hv] at hinsert
        cases hinsert
    | some v =>
        have hgrants : ∀ a, hm.find src m = .ok (some a, m) →
            ∃ v, (m.freed a).answer alloc valueSize = some v := by
          intro a hfind
          rw [hloc.find_hit hfirst] at hfind
          cases hfind
          exact ⟨v, hv⟩
        obtain ⟨m₁, buckets', hrun, hbinds', _⟩ := hbinds.insert_hit hsrc hvsrc
          (by rw [hvalue]; simp) hother keySize hvalueSize hgrants
        rw [hrun] at hinsert
        cases hinsert
        exact ⟨buckets', _, hbinds'⟩

/-- The state after a call that does not fault. -/
def MapCall.step (alloc : Allocator) (s : HashMap × Mem Entry σ) (call : MapCall) :
    Option (HashMap × Mem Entry σ) :=
  match call.exec alloc s with
  | .ok (_, s') => some s'
  | .error _ => none

/-- The call is legal for what the map holds. -/
def MapCall.LegalIn (keys : KeyOps) (s : HashMap × Mem Entry σ) (call : MapCall) : Prop :=
  ∀ table buckets, ∀ M : Bindings keys, s.1.Binds keys s.2 table buckets M → call.Legal M

theorem MapCall.binds_of_step (hbinds : hm.Binds keys m table buckets M) {call : MapCall}
    (hlegal : call.Legal M) (hstep : call.step alloc (hm, m) = some (hm', m')) :
    ∃ buckets', ∃ M' : Bindings keys, hm'.Binds keys m' table buckets' M' := by
  unfold MapCall.step at hstep
  cases call with
  | insert key keySize value valueSize =>
      obtain ⟨hkey, hkeySize, hcovers, hvalueSize⟩ := hlegal
      obtain ⟨src, hsrc, his⟩ := KeyArg.src_ok hbinds hkey
      rw [MapCall.exec, MapCall.run, run_bind hsrc] at hstep
      cases hinsert : hm.insert alloc (some src) keySize (some (.caller value)) valueSize m with
      | error fault =>
          rw [run_bind_error hinsert] at hstep
          cases hstep
      | ok result =>
          obtain ⟨⟨ret, hm₁⟩, m₁⟩ := result
          rw [run_bind hinsert] at hstep
          cases hstep
          have hgiven : (Src.caller value).Is m value := rfl
          exact hbinds.of_insert his hgiven (by simp) hkeySize hcovers hvalueSize hinsert
  | find key =>
      rw [MapCall.exec_find hbinds hlegal] at hstep
      cases hstep
      exact ⟨buckets, M, hbinds⟩
  | hasKey key =>
      rw [MapCall.exec_hasKey hbinds hlegal] at hstep
      cases hstep
      exact ⟨buckets, M, hbinds⟩
  | erase key =>
      obtain ⟨hm₁, m₁, buckets', hexec, hbinds', _⟩ := MapCall.exec_erase alloc hbinds hlegal
      rw [hexec] at hstep
      cases hstep
      exact ⟨buckets', _, hbinds'⟩
  | clear =>
      obtain ⟨m₁, buckets', hexec, hbinds', _⟩ := MapCall.exec_clear alloc hbinds
      rw [hexec] at hstep
      cases hstep
      exact ⟨buckets', _, hbinds'⟩
  | getSize =>
      cases hstep
      exact ⟨buckets, M, hbinds⟩

/-- After `init` and any calls, of which some may have failed. -/
theorem HashMap.binds_of_run {capacity : Int} (hcapacity : 1 ≤ capacity) {m₀ : Mem Entry σ}
    (hinit : (HashMap.new keys.hashCode keys.equal capacity).init alloc m₀ = .ok ((0, hm), m))
    {calls : List MapCall} (hlegal : Along (MapCall.step alloc) (MapCall.LegalIn keys) (hm, m) calls)
    (hrun : run (MapCall.step alloc) (hm, m) calls = some (hm', m')) :
    ∃ table buckets, ∃ M : Bindings keys, hm'.Binds keys m' table buckets M := by
  obtain ⟨table, buckets, hbinds, _⟩ := HashMap.init_binds hcapacity hinit
  let inv (s : HashMap × Mem Entry σ) : Prop :=
    ∃ buckets, ∃ M : Bindings keys, s.1.Binds keys s.2 table buckets M
  have hstep : ∀ (s : HashMap × Mem Entry σ) (call : MapCall) s', inv s → call.LegalIn keys s →
      call.step alloc s = some s' → inv s' :=
    fun s call s' ⟨_, _, hbinds⟩ hlegal hs => MapCall.binds_of_step hbinds (hlegal _ _ _ hbinds) hs
  obtain ⟨buckets', M, hbinds'⟩ := run_of_along hstep (⟨buckets, _, hbinds⟩ : inv (hm, m)) hlegal hrun
  exact ⟨table, buckets', M, hbinds'⟩

end Reachable

/-! ### No failure is clean -/

/-- How many times an `insert` calls `malloc`, by what `has_key` says of its key. -/
def insertMallocs (hasKey : Int) : Nat := if hasKey = 1 then 1 else 3

/-- The `insert` returns -1, a caller sees no difference, and no block is left behind. -/
def HashMap.FailsCleanly (alloc : Allocator) (hm : HashMap) (m : Mem Entry σ) (key : Src) (keySize : Int)
    (value : Src) (valueSize : Int) : Prop :=
  ∃ hm' m', hm.insert alloc (some key) keySize (some value) valueSize m = .ok ((-1, hm'), m') ∧
    (∀ k, (hm'.find (.caller k) m').map Prod.fst = (hm.find (.caller k) m).map Prod.fst) ∧
    (∀ k, (hm'.hasKey (.caller k) m').map Prod.fst = (hm.hasKey (.caller k) m).map Prod.fst) ∧
    hm'.getSize = hm.getSize ∧ m'.live ⊆ m.live

theorem HashMap.FailsCleanly.ne_error {alloc : Allocator} {hm : HashMap} {m : Mem Entry σ}
    {key value : Src} {keySize valueSize : Int} {fault : Fault}
    (hclean : hm.FailsCleanly alloc m key keySize value valueSize) :
    hm.insert alloc (some key) keySize (some value) valueSize m ≠ .error fault := by
  obtain ⟨hm', m', hinsert, _⟩ := hclean
  rw [hinsert]
  simp

/-- **No failure is clean.** Whichever of its allocations fails, and whatever has happened to the map before,
an `insert` does not fail as it should. -/
theorem hashMap_insert_not_clean {keys : KeyOps} {alloc : Allocator} {capacity : Int}
    (hcapacity : 1 ≤ capacity) {hm hm' : HashMap} {m₀ m m' : Mem Entry σ}
    (hinit : (HashMap.new keys.hashCode keys.equal capacity).init alloc m₀ = .ok ((0, hm), m))
    {calls : List MapCall} (hlegal : Along (MapCall.step alloc) (MapCall.LegalIn keys) (hm, m) calls)
    (hrun : run (MapCall.step alloc) (hm, m) calls = some (hm', m'))
    {src vsrc : Src} {key value : Buffer} (hsrc : src.Is m' key) (hvsrc : vsrc.Is m' value)
    {keySize valueSize : Int} (hkeySize : 0 ≤ keySize ∧ keySize ≤ key.length)
    (hvalueSize : 0 ≤ valueSize ∧ valueSize ≤ value.length)
    {ret : Int} (hret : hm'.hasKey src m' = .ok (ret, m')) {failing : Allocator} {j : Nat}
    (hj : j < insertMallocs ret) (hrefuses : failing.Refuses (m'.mallocs + j)) :
    ¬hm'.FailsCleanly failing m' src keySize vsrc valueSize := by
  intro hclean
  obtain ⟨table, buckets, M, hbinds⟩ := HashMap.binds_of_run hcapacity hinit hlegal hrun
  obtain ⟨pre, b, post, rfl, hloc, ⟨_, hmiss⟩ | ⟨us, s, vs, hfirst, _⟩⟩ := hbinds.locate hsrc
  · rw [hloc.hasKey_miss hmiss] at hret
    cases hret
    cases hk : m'.answer failing keySize with
    | none => exact hclean.ne_error (hloc.insert_key_refused hmiss hk)
    | some k =>
        cases hv : (m'.stored k keySize key).answer failing valueSize with
        | none => exact hclean.ne_error (hloc.insert_value_refused hmiss hkeySize hk hv)
        | some v =>
            have hn : ((m'.stored k keySize key).stored v valueSize value).answer failing (16 + 16)
                = none := by
              have hj : j = 0 ∨ j = 1 ∨ j = 2 := by
                change j < 3 at hj
                omega
              rcases hj with rfl | rfl | rfl
              · rw [Mem.answer_refused hrefuses] at hk
                cases hk
              · have hrefuses' : failing.Refuses (m'.stored k keySize key).mallocs := hrefuses
                rw [Mem.answer_refused hrefuses'] at hv
                cases hv
              · exact Mem.answer_refused hrefuses _
            have hinsert := hloc.insert_node_refused hmiss hvsrc hkeySize hvalueSize hk hv hn
            obtain ⟨hm'', m'', hclean, _, _, _, hlive⟩ := hclean
            rw [hinsert] at hclean
            cases hclean
            exact Mem.answer_fresh hk (hlive (by simp [Mem.refused]))
  · rw [hloc.hasKey_hit hfirst] at hret
    cases hret
    obtain rfl : j = 0 := by
      change j < 1 at hj
      omega
    have hrefuses' : failing.Refuses (m'.freed s.value).mallocs := hrefuses
    exact hclean.ne_error (hloc.insert_hit_refused hfirst (Mem.answer_refused hrefuses' _))

theorem hashMap_insert_not_clean_node : ∃ (hm : HashMap) (m : Mem Entry Unit),
    (HashMap.new plainKeys.hashCode plainKeys.equal 2).init nextAddress (.empty ()) = .ok ((0, hm), m) ∧
    hm.hasKey (.caller [some 1]) m = .ok (0, m) ∧ (failsAt 5).Refuses (m.mallocs + 2) ∧
    ¬hm.FailsCleanly (failsAt 5) m (.caller [some 1]) 1 (.caller [some 2]) 1 := by
  obtain ⟨hm, m, hinit, hret, hmallocs⟩ : ∃ (hm : HashMap) (m : Mem Entry Unit),
      (HashMap.new plainKeys.hashCode plainKeys.equal 2).init nextAddress (.empty ())
        = .ok ((0, hm), m) ∧ hm.hasKey (.caller [some 1]) m = .ok (0, m) ∧ m.mallocs = 3 :=
    ⟨_, _, rfl, rfl, rfl⟩
  have hkey : (Src.caller [some 1]).Is m [some 1] := rfl
  have hvalue : (Src.caller [some 2]).Is m [some 2] := rfl
  have hrefuses : (failsAt 5).Refuses (m.mallocs + 2) := by
    rw [hmallocs]
    exact fun _ _ => rfl
  have hnone : Along (MapCall.step nextAddress) (MapCall.LegalIn plainKeys) (hm, m) [] := trivial
  exact ⟨hm, m, hinit, hret, hrefuses, hashMap_insert_not_clean (by decide) hinit hnone rfl hkey hvalue
    (by decide) (by decide) hret (by decide) hrefuses⟩

/-- A key is inserted in an empty map of two lists. If the sixth `malloc` fails, that of the node, the copies
of the key and of the value are left; if the fourth fails, the key is copied to `NULL`. -/
theorem hashMap_insert_leaks : ∃ (hm hm' : HashMap) (m m' : Mem Entry Unit),
    (HashMap.new plainKeys.hashCode plainKeys.equal 2).init nextAddress (.empty ()) = .ok ((0, hm), m) ∧
    hm.insert (failsAt 5) (some (.caller [some 1])) 1 (some (.caller [some 2])) 1 m
      = .ok ((-1, hm'), m') ∧ m.live.card = 3 ∧ m'.live.card = 5 ∧
    ¬hm.FailsCleanly (failsAt 5) m (.caller [some 1]) 1 (.caller [some 2]) 1 ∧
    hm.insert (failsAt 3) (some (.caller [some 1])) 1 (some (.caller [some 2])) 1 m
      = .error .nullPointer := by
  obtain ⟨hm, m, hinit, hnull, hcard, hnode⟩ : ∃ (hm : HashMap) (m : Mem Entry Unit),
      (HashMap.new plainKeys.hashCode plainKeys.equal 2).init nextAddress (.empty ())
        = .ok ((0, hm), m) ∧
      hm.insert (failsAt 3) (some (.caller [some 1])) 1 (some (.caller [some 2])) 1 m
        = .error .nullPointer ∧ m.live.card = 3 ∧
      Meets (fun result => result.1.1 = -1 ∧ result.2.live.card = 5) (fun _ => False)
        (hm.insert (failsAt 5) (some (.caller [some 1])) 1 (some (.caller [some 2])) 1 m) :=
    ⟨_, _, rfl, rfl, rfl, by decide +kernel⟩
  obtain ⟨⟨⟨ret, hm'⟩, m'⟩, hinsert, rfl, hcard'⟩ := hnode.exists_ok
  change m'.live.card = 5 at hcard'
  refine ⟨hm, hm', m, m', hinit, hinsert, hcard, hcard', ?_, hnull⟩
  rintro ⟨hm'', m'', hclean, _, _, _, hlive⟩
  rw [hinsert] at hclean
  cases hclean
  have hle := Finset.card_le_card hlive
  omega

end Gittest
