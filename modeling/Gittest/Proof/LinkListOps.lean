import Gittest.Lib.Circular
import Gittest.Lib.Outcome
import Gittest.LinkList

/-!
# The linked list, function by function

`m.IsList ptr size nodes`: in the heap `m` the nodes hang circularly on the head at `ptr`, live and with
these payloads. Each function is described by what it makes of `nodes`, and by the blocks it leaves
alone.
-/

namespace Gittest

open Outcome

variable {α σ : Type}

/-- The list at `ptr` has payloads of this size and these nodes, given by address and payload. -/
structure Mem.IsList (m : Mem α σ) (ptr : Addr) (size : Int) (nodes : List (Addr × α)) : Prop where
  size : m.sizeOf ptr = some size
  circular : Circular m.nextOf m.prevOf ptr (nodes.map Prod.fst)
  live : ∀ a ∈ ptr :: nodes.map Prod.fst, a ∈ m.live
  data : ∀ node ∈ nodes, m.dataOf node.1 = some node.2

namespace Mem.IsList

variable {m m' : Mem α σ} {ptr : Addr} {size : Int} {nodes : List (Addr × α)}

theorem head_live (hlist : m.IsList ptr size nodes) : ptr ∈ m.live :=
  hlist.live ptr (List.mem_cons_self ..)

theorem node_live (hlist : m.IsList ptr size nodes) {node : Addr × α} (hmem : node ∈ nodes) :
    node.1 ∈ m.live :=
  hlist.live _ (List.mem_cons_of_mem ptr (List.mem_map_of_mem hmem))

theorem head_notMem (hlist : m.IsList ptr size nodes) : ptr ∉ nodes.map Prod.fst :=
  (List.nodup_cons.mp hlist.circular.nodup).1

theorem nodup (hlist : m.IsList ptr size nodes) : (nodes.map Prod.fst).Nodup :=
  (List.nodup_cons.mp hlist.circular.nodup).2

theorem frame (hlist : m.IsList ptr size nodes)
    (hblock : ∀ a ∈ ptr :: nodes.map Prod.fst, m'.block a = m.block a)
    (hlive : ∀ a ∈ ptr :: nodes.map Prod.fst, a ∈ m'.live) : m'.IsList ptr size nodes where
  size := by
    rw [sizeOf, hblock ptr (List.mem_cons_self ..)]
    exact hlist.size
  circular := by
    apply hlist.circular.congr
    intro a ha
    rw [nextOf, prevOf, hblock a ha]
    exact ⟨rfl, rfl⟩
  live := hlive
  data := by
    intro node hmem
    rw [dataOf, hblock _ (List.mem_cons_of_mem ptr (List.mem_map_of_mem hmem))]
    exact hlist.data node hmem

theorem frame_off {s : List Addr} (hlist : m.IsList ptr size nodes) (hsame : SameOff s m m')
    (hoff : ∀ a ∈ ptr :: nodes.map Prod.fst, a ∉ s ∧ a ∈ m'.live) : m'.IsList ptr size nodes :=
  hlist.frame (fun a ha => hsame a (hoff a ha).1) fun a ha => (hoff a ha).2

theorem refused (hlist : m.IsList ptr size nodes) : m.refused.IsList ptr size nodes :=
  hlist.frame (fun _ _ => rfl) hlist.live

theorem freed {a : Addr} (hlist : m.IsList ptr size nodes) (hnot : a ∉ ptr :: nodes.map Prod.fst) :
    (m.freed a).IsList ptr size nodes := by
  refine hlist.frame (fun _ _ => rfl) fun b hb => ?_
  exact Finset.mem_erase.mpr ⟨fun h => hnot (h ▸ hb), hlist.live b hb⟩

theorem length_lt_card (hlist : m.IsList ptr size nodes) : nodes.length < m.live.card := by
  have hsub : (ptr :: nodes.map Prod.fst).toFinset ⊆ m.live := by
    intro a ha
    exact hlist.live a (List.mem_toFinset.mp ha)
  have hcard := Finset.card_le_card hsub
  rw [List.toFinset_card_of_nodup hlist.circular.nodup, List.length_cons, List.length_map] at hcard
  exact hcard

theorem setData {a : Addr} {x y : α} {us vs : List (Addr × α)}
    (hlist : m.IsList ptr size (us ++ (a, x) :: vs)) :
    (m.setData a y).IsList ptr size (us ++ (a, y) :: vs) where
  size := (congrFun (m.sizeOf_setData a y) ptr).trans hlist.size
  circular := by
    have hcirc := hlist.circular
    rw [List.map_append, List.map_cons] at hcirc ⊢
    rw [nextOf_setData, prevOf_setData]
    exact hcirc
  live := by
    intro b hb
    exact hlist.live b (by simpa using hb)
  data := by
    have hcirc := hlist.circular
    rw [List.map_append, List.map_cons] at hcirc
    intro node hmem
    rw [dataOf_setData]
    rcases List.mem_append.mp hmem with hus | hvs
    · have hne : node.1 ≠ a := fun h =>
        hcirc.notMem (h ▸ by simp only [List.mem_cons, List.mem_append, List.mem_map]; grind)
      rw [Function.update_of_ne hne, hlist.data node (by simp [hus])]
    · rcases List.mem_cons.mp hvs with rfl | hvs
      · exact Function.update_self a _ _
      · have hne : node.1 ≠ a := fun h =>
          hcirc.notMem (h ▸ by simp only [List.mem_cons, List.mem_append, List.mem_map]; grind)
        rw [Function.update_of_ne hne, hlist.data node (by simp [hvs])]

end Mem.IsList

/-! ### `llist_creat` -/

theorem llistCreat_ok {m₀ : Mem α σ} {alloc : Allocator} {ptr : Addr} (size : Int)
    (hanswer : m₀.answer alloc 24 = some ptr) :
    ∃ m, llistCreat alloc size m₀ = .ok (some ptr, m) := by
  rw [llistCreat, run_bind (mallocBlock_some hanswer)]
  dsimp only
  rw [run_bind (writeSize_ok (by simp)), run_bind (writeNext_ok (by simp)),
    run_bind (writePrev_ok (by simp))]
  exact ⟨_, rfl⟩

theorem llistCreat_none {m₀ : Mem α σ} {alloc : Allocator} (size : Int)
    (hanswer : m₀.answer alloc 24 = none) : llistCreat alloc size m₀ = .ok (none, m₀.refused) := by
  rw [llistCreat, run_bind (mallocBlock_none hanswer)]
  rfl

theorem llistCreat_mallocs {m₀ m : Mem α σ} {alloc : Allocator} {size : Int} {ptr : Option Addr}
    (hmade : llistCreat alloc size m₀ = .ok (ptr, m)) : m.mallocs = m₀.mallocs + 1 := by
  cases hanswer : m₀.answer alloc 24 with
  | none =>
      rw [llistCreat_none size hanswer] at hmade
      cases hmade
      rfl
  | some a =>
      rw [llistCreat, run_bind (mallocBlock_some hanswer)] at hmade
      dsimp only at hmade
      rw [run_bind (writeSize_ok (by simp)), run_bind (writeNext_ok (by simp)),
        run_bind (writePrev_ok (by simp))] at hmade
      cases hmade
      rfl

theorem llistCreat_some {m₀ m : Mem α σ} {alloc : Allocator} {size : Int} {ptr : Addr}
    (hmade : llistCreat alloc size m₀ = .ok (some ptr, m)) :
    m.IsList ptr size [] ∧ ptr ∉ m₀.live ∧ m.live = insert ptr m₀.live ∧
      Mem.SameOff [ptr] m₀ m ∧ m.env = m₀.env := by
  cases hanswer : m₀.answer alloc 24 with
  | none =>
      rw [llistCreat, run_bind (mallocBlock_none hanswer)] at hmade
      cases hmade
  | some a =>
      rw [llistCreat, run_bind (mallocBlock_some hanswer)] at hmade
      dsimp only at hmade
      rw [run_bind (writeSize_ok (by simp)), run_bind (writeNext_ok (by simp)),
        run_bind (writePrev_ok (by simp))] at hmade
      cases hmade
      refine ⟨⟨by simp, Circular.singleton (by simp) (by simp), by simp, by simp⟩,
        Mem.answer_fresh hanswer, rfl, fun b hb => ?_, rfl⟩
      have hne : b ≠ ptr := by simpa using hb
      rw [Mem.block_setPrev_of_ne _ _ _ hne, Mem.block_setNext_of_ne _ _ _ hne,
        Mem.block_setSize_of_ne _ _ _ hne, Mem.block_allocated_of_ne _ _ _ hne]

/-! ### Searching -/

/-- `cmp` finds the node equal to its key. -/
def hits (f : α → Int) (node : Addr × α) : Bool := f node.2 = 0

section Search

variable {m : Mem α σ} {ptr : Addr} {size : Int} {cmp : LlistCmp α σ} {f : α → Int}

theorem findFrom_eq {rest : List (Addr × α)} {a cur : Addr} {rounds : Nat}
    (hlinked : Linked m.nextOf a (rest.map Prod.fst) ptr) (hcur : m.nextOf a = some cur)
    (hptr : ptr ∉ rest.map Prod.fst) (hlive : ∀ node ∈ rest, node.1 ∈ m.live)
    (hcmp : ∀ node ∈ rest, cmp node.1 m = .ok (f node.2, m)) (hrounds : rest.length < rounds) :
    findFrom cmp ptr rounds cur m
      = .ok (((rest.find? (hits f)).map Prod.fst).getD ptr, m) := by
  induction rest generalizing a cur rounds with
  | nil =>
      obtain ⟨rounds, rfl⟩ : ∃ n, rounds = n + 1 := ⟨rounds - 1, by simp at hrounds; omega⟩
      have hend : cur = ptr := Option.some.inj (hcur.symm.trans hlinked)
      rw [findFrom, if_pos hend, hend]
      rfl
  | cons node rest ih =>
      obtain ⟨rounds, rfl⟩ : ∃ n, rounds = n + 1 := ⟨rounds - 1, by simp at hrounds; omega⟩
      have hnode : cur = node.1 := Option.some.inj (hcur.symm.trans hlinked.1)
      subst hnode
      have hne : node.1 ≠ ptr := fun h => hptr (by simp [h])
      rw [findFrom, if_neg hne, run_bind (hcmp node (by simp))]
      by_cases hzero : f node.2 = 0
      · rw [if_pos hzero, List.find?_cons_of_pos (by simpa [hits] using hzero)]
        rfl
      · obtain ⟨next, hnext⟩ := hlinked.2.exists_next
        rw [if_neg hzero, List.find?_cons_of_neg (by simpa [hits] using hzero),
          run_bind (readNext_ok (hlive node (by simp)) hnext)]
        refine ih hlinked.2 hnext ?_ ?_ ?_ ?_
        · exact fun h => hptr (List.mem_cons_of_mem _ h)
        · exact fun p hp => hlive p (List.mem_cons_of_mem _ hp)
        · exact fun p hp => hcmp p (List.mem_cons_of_mem _ hp)
        · rw [List.length_cons] at hrounds
          omega

theorem loopBound_ok : loopBound m = .ok (m.live.card, m) := rfl

theorem findNode_eq {nodes : List (Addr × α)} (hlist : m.IsList ptr size nodes)
    (hcmp : ∀ node ∈ nodes, cmp node.1 m = .ok (f node.2, m)) :
    findNode ptr cmp m
      = .ok (((nodes.find? (hits f)).map Prod.fst).getD ptr, m) := by
  obtain ⟨cur, hcur⟩ := hlist.circular.forth.exists_next
  rw [findNode, run_bind loopBound_ok, run_bind (readNext_ok hlist.head_live hcur)]
  exact findFrom_eq hlist.circular.forth hcur hlist.head_notMem
    (fun node hmem => hlist.node_live hmem) hcmp hlist.length_lt_card

end Search

/-! ### Linking in and out -/

namespace Mem

variable (m : Mem α σ)

/-- A node is put in between `p` and `q`. -/
def linkedIn (a : Addr) (x : α) (size : Int) (p q : Addr) : Mem α σ :=
  (((((m.allocated a size).setData a x).setNext a q).setPrev a p).setPrev q a).setNext p a

/-- What lies between `p` and `q` is taken out. -/
def linkedOut (p q : Addr) : Mem α σ := (m.setPrev q p).setNext p q

variable {m} {ptr a p q : Addr} {x : α} {size : Int} {us vs : List (Addr × α)}

theorem sameOff_linkedIn : SameOff [a, p, q] m (m.linkedIn a x size p q) := by
  intro b hb
  simp only [List.mem_cons, List.not_mem_nil, or_false, not_or] at hb
  obtain ⟨ha, hp, hq⟩ := hb
  rw [linkedIn, block_setNext_of_ne _ _ _ hp, block_setPrev_of_ne _ _ _ hq,
    block_setPrev_of_ne _ _ _ ha, block_setNext_of_ne _ _ _ ha, block_setData_of_ne _ _ _ ha,
    block_allocated_of_ne _ _ _ ha]

theorem sameOff_linkedOut : SameOff [p, q] m (m.linkedOut p q) := by
  intro b hb
  simp only [List.mem_cons, List.not_mem_nil, or_false, not_or] at hb
  rw [linkedOut, block_setNext_of_ne _ _ _ hb.1, block_setPrev_of_ne _ _ _ hb.2]

theorem IsList.linkedIn {bytes : Int} (hlist : m.IsList ptr size (us ++ vs)) (hnew : a ∉ m.live)
    (hp : (ptr :: us.map Prod.fst).getLast? = some p)
    (hq : (vs.map Prod.fst ++ [ptr]).head? = some q) :
    (m.linkedIn a x bytes p q).IsList ptr size (us ++ (a, x) :: vs) where
  size := by
    have hne : ptr ≠ a := fun h => hnew (h ▸ hlist.head_live)
    simp only [Mem.linkedIn, sizeOf_setNext, sizeOf_setPrev, sizeOf_setData, sizeOf_allocated]
    rw [Function.update_of_ne hne, hlist.size]
  circular := by
    have hcirc := hlist.circular
    rw [List.map_append] at hcirc
    have hnotin : a ∉ ptr :: (us.map Prod.fst ++ vs.map Prod.fst) := by
      rw [← List.map_append]
      exact fun h => hnew (hlist.live a h)
    have hinsert := hcirc.insert hnotin hp hq
    simp only [Mem.linkedIn, nextOf_setNext, nextOf_setPrev, nextOf_setData, nextOf_allocated,
      prevOf_setNext, prevOf_setPrev, prevOf_setData, prevOf_allocated, Function.update_idem,
      List.map_append, List.map_cons]
    exact hinsert
  live := by
    intro b hb
    simp only [Mem.linkedIn, live_setNext, live_setPrev, live_setData, live_allocated,
      Finset.mem_insert]
    by_cases hba : b = a
    · exact Or.inl hba
    · refine Or.inr (hlist.live b ?_)
      simpa [hba] using hb
  data := by
    intro node hmem
    simp only [Mem.linkedIn, dataOf_setNext, dataOf_setPrev, dataOf_setData, dataOf_allocated,
      Function.update_idem]
    by_cases hnode : node = (a, x)
    · rw [hnode, Function.update_self]
    · have hold : node ∈ us ++ vs := by simpa [hnode] using hmem
      have hne : node.1 ≠ a := fun h => hnew (h ▸ hlist.node_live hold)
      rw [Function.update_of_ne hne, hlist.data node hold]

theorem IsList.linkedOut (hlist : m.IsList ptr size (us ++ (a, x) :: vs))
    (hp : m.prevOf a = some p) (hq : m.nextOf a = some q) :
    (m.linkedOut p q).IsList ptr size (us ++ vs) where
  size := by
    simp only [Mem.linkedOut, sizeOf_setNext, sizeOf_setPrev, hlist.size]
  circular := by
    have hcirc := hlist.circular
    rw [List.map_append, List.map_cons] at hcirc
    have hremove := hcirc.remove (hcirc.prev_eq.symm.trans hp) (hcirc.next_eq.symm.trans hq)
    simp only [Mem.linkedOut, nextOf_setNext, nextOf_setPrev, prevOf_setNext, prevOf_setPrev,
      List.map_append]
    exact hremove
  live := by
    intro b hb
    apply hlist.live b
    simp only [List.map_append, List.map_cons, List.mem_cons, List.mem_append] at hb ⊢
    tauto
  data := by
    intro node hmem
    simp only [Mem.linkedOut, dataOf_setNext, dataOf_setPrev]
    exact hlist.data node (mem_with hmem _)

end Mem

/-! ### `llist_insert` -/

section Insert

variable {m : Mem α σ} {alloc : Allocator} {ptr a : Addr} {size : Int} {nodes : List (Addr × α)}

theorem llistInsert_refused (hlist : m.IsList ptr size nodes) (x : α) (mode : Int)
    (hanswer : m.answer alloc (16 + size) = none) :
    llistInsert alloc ptr x mode m = .ok (-1, m.refused) := by
  rw [llistInsert, run_bind (readSize_ok hlist.head_live hlist.size),
    run_bind (mallocBlock_none hanswer)]
  rfl

theorem copyIn_allocated (hsize : 0 ≤ size) (x : α) :
    copyIn a x size (m.allocated a (16 + size))
      = .ok ((), (m.allocated a (16 + size)).setData a x) := by
  have hextent : ((m.allocated a (16 + size)).block a).extent = 16 + size := by
    rw [Mem.block_allocated_self]
  rw [copyIn, if_pos ⟨hsize, hextent.ge⟩]
  exact writeData_ok (by simp)

/-- In a list of negative size a node that gets its memory is smaller than its header. -/
theorem llistInsert_overruns (hlist : m.IsList ptr size nodes) (x : α) (mode : Int)
    (hanswer : m.answer alloc (16 + size) = some a) (hneg : size < 0) :
    llistInsert alloc ptr x mode m = .error .overrun := by
  have hptr : ptr ≠ a := fun h => Mem.answer_fresh hanswer (h ▸ hlist.head_live)
  have hsize : (m.allocated a (16 + size)).sizeOf ptr = some size := by
    rw [Mem.sizeOf_allocated, Function.update_of_ne hptr, hlist.size]
  rw [llistInsert, run_bind (readSize_ok hlist.head_live hlist.size),
    run_bind (mallocBlock_some hanswer)]
  dsimp only
  rw [run_bind (readSize_ok (by simp [hlist.head_live]) hsize)]
  exact run_bind_error (if_neg fun h => absurd h.1 (by omega))

theorem linkNeighbours_eq {p q : Addr} (ha : a ∈ m.live) (hp : p ∈ m.live) (hq : q ∈ m.live)
    (hprev : m.prevOf a = some p) (hnext : m.nextOf a = some q) (hqa : a ≠ q) :
    (do
      writePrev (← readNext a) a
      writeNext (← readPrev a) a
      return 0 : MemM α σ Int) m = .ok (0, (m.setPrev q a).setNext p a) := by
  have hprev' : (m.setPrev q a).prevOf a = some p := by
    rw [Mem.prevOf_setPrev, Function.update_of_ne hqa, hprev]
  rw [run_bind (readNext_ok ha hnext), run_bind (writePrev_ok hq),
    run_bind (readPrev_ok (by simp [ha]) hprev'), run_bind (writeNext_ok (by simp [hp]))]
  rfl

theorem llistInsert_forward_eq (hlist : m.IsList ptr size nodes) (hsize : 0 ≤ size) (x : α) {q : Addr}
    (hanswer : m.answer alloc (16 + size) = some a) (hq : m.nextOf ptr = some q) :
    llistInsert alloc ptr x llistForward m = .ok (0, m.linkedIn a x (16 + size) ptr q) := by
  have hnew := Mem.answer_fresh hanswer
  have hqlive : q ∈ m.live := hlist.live q (hlist.circular.next_mem (List.mem_cons_self ..) hq)
  have hptr : ptr ≠ a := fun h => hnew (h ▸ hlist.head_live)
  have hqa : a ≠ q := fun h => hnew (h ▸ hqlive)
  have hsizeOf : (m.allocated a (16 + size)).sizeOf ptr = some size := by
    rw [Mem.sizeOf_allocated, Function.update_of_ne hptr, hlist.size]
  have hnext : ((m.allocated a (16 + size)).setData a x).nextOf ptr = some q := by
    rw [Mem.nextOf_setData, Mem.nextOf_allocated, Function.update_of_ne hptr, hq]
  rw [llistInsert, run_bind (readSize_ok hlist.head_live hlist.size),
    run_bind (mallocBlock_some hanswer)]
  dsimp only
  rw [run_bind (readSize_ok (by simp [hlist.head_live]) hsizeOf),
    run_bind (copyIn_allocated hsize x), if_pos rfl,
    run_bind (readNext_ok (by simp [hlist.head_live]) hnext), run_bind (writeNext_ok (by simp)),
    run_bind (writePrev_ok (by simp))]
  exact linkNeighbours_eq (by simp) (by simp [hlist.head_live]) (by simp [hqlive])
    (by simp) (by simp) hqa

theorem llistInsert_backward_eq (hlist : m.IsList ptr size nodes) (hsize : 0 ≤ size) (x : α) {p : Addr}
    (hanswer : m.answer alloc (16 + size) = some a) (hp : m.prevOf ptr = some p) :
    llistInsert alloc ptr x llistBackward m = .ok (0, m.linkedIn a x (16 + size) p ptr) := by
  have hnew := Mem.answer_fresh hanswer
  have hplive : p ∈ m.live := hlist.live p (hlist.circular.prev_mem (List.mem_cons_self ..) hp)
  have hptr : ptr ≠ a := fun h => hnew (h ▸ hlist.head_live)
  have hsizeOf : (m.allocated a (16 + size)).sizeOf ptr = some size := by
    rw [Mem.sizeOf_allocated, Function.update_of_ne hptr, hlist.size]
  have hprev : (((m.allocated a (16 + size)).setData a x).setNext a ptr).prevOf ptr = some p := by
    rw [Mem.prevOf_setNext, Mem.prevOf_setData, Mem.prevOf_allocated, Function.update_of_ne hptr, hp]
  have hmode : ¬llistBackward = llistForward := by decide
  rw [llistInsert, run_bind (readSize_ok hlist.head_live hlist.size),
    run_bind (mallocBlock_some hanswer)]
  dsimp only
  rw [run_bind (readSize_ok (by simp [hlist.head_live]) hsizeOf),
    run_bind (copyIn_allocated hsize x), if_neg hmode, if_pos rfl, run_bind (writeNext_ok (by simp)),
    run_bind (readPrev_ok (by simp [hlist.head_live]) hprev), run_bind (writePrev_ok (by simp))]
  exact linkNeighbours_eq (by simp) (by simp [hplive]) (by simp [hlist.head_live])
    (by simp) (by simp) hptr.symm

/-- What an `llist_insert` that got its memory comes to: the nodes are `nodes'` now. -/
structure Inserted (m m' : Mem α σ) (ptr a : Addr) (size : Int) (nodes nodes' : List (Addr × α)) :
    Prop where
  isList : m'.IsList ptr size nodes'
  live : m'.live = insert a m.live
  same : Mem.SameOff (a :: ptr :: nodes.map Prod.fst) m m'
  env : m'.env = m.env

theorem llistInsert_forward (hlist : m.IsList ptr size nodes) (hsize : 0 ≤ size) (x : α)
    (hanswer : m.answer alloc (16 + size) = some a) :
    ∃ m', llistInsert alloc ptr x llistForward m = .ok (0, m') ∧
      Inserted m m' ptr a size nodes ((a, x) :: nodes) := by
  obtain ⟨q, hq⟩ := hlist.circular.forth.exists_next
  refine ⟨_, llistInsert_forward_eq hlist hsize x hanswer hq, ?_, rfl, fun b hb => ?_, rfl⟩
  · rw [hlist.circular.next_head] at hq
    rw [← List.nil_append nodes] at hlist
    exact hlist.linkedIn (Mem.answer_fresh hanswer) rfl hq
  · have hmem := hlist.circular.next_mem (List.mem_cons_self ..) hq
    apply Mem.sameOff_linkedIn b
    grind

theorem llistInsert_backward (hlist : m.IsList ptr size nodes) (hsize : 0 ≤ size) (x : α)
    (hanswer : m.answer alloc (16 + size) = some a) :
    ∃ m', llistInsert alloc ptr x llistBackward m = .ok (0, m') ∧
      Inserted m m' ptr a size nodes (nodes ++ [(a, x)]) := by
  obtain ⟨p, hp⟩ := hlist.circular.back.exists_next
  refine ⟨_, llistInsert_backward_eq hlist hsize x hanswer hp, ?_, rfl, fun b hb => ?_, rfl⟩
  · rw [hlist.circular.prev_head] at hp
    rw [← List.append_nil nodes] at hlist
    exact hlist.linkedIn (Mem.answer_fresh hanswer) hp rfl
  · have hmem := hlist.circular.prev_mem (List.mem_cons_self ..) hp
    apply Mem.sameOff_linkedIn b
    grind

end Insert

/-! ### `llist_delet` and `llist_fetch` -/

section Remove

variable {m : Mem α σ} {ptr a : Addr} {x : α} {size : Int} {nodes : List (Addr × α)}
  {cmp : LlistCmp α σ} {f : α → Int}

/-- The list after `a` has been taken out, and before it is freed: the nodes are `nodes'` now. -/
structure Unlinked (m m' : Mem α σ) (ptr a : Addr) (x : α) (size : Int)
    (nodes nodes' : List (Addr × α)) : Prop where
  isList : m'.IsList ptr size nodes'
  live : m'.live = m.live
  same : Mem.SameOff (ptr :: nodes.map Prod.fst) m m'
  env : m'.env = m.env
  data : m'.dataOf a = some x
  node_live : a ∈ m.live
  notMem : a ∉ ptr :: nodes'.map Prod.fst

theorem Unlinked.ne_head {m' : Mem α σ} {nodes' : List (Addr × α)}
    (hunlinked : Unlinked m m' ptr a x size nodes nodes') : a ≠ ptr :=
  fun h => hunlinked.notMem (by simp [h])

theorem exists_unlinked {us vs : List (Addr × α)} (hlist : m.IsList ptr size (us ++ (a, x) :: vs)) :
    ∃ p q, a ≠ ptr ∧ a ≠ p ∧ a ≠ q ∧ a ∈ m.live ∧ p ∈ m.live ∧ q ∈ m.live ∧
      m.prevOf a = some p ∧ m.nextOf a = some q ∧
      Unlinked m (m.linkedOut p q) ptr a x size (us ++ (a, x) :: vs) (us ++ vs) := by
  have hcirc := hlist.circular
  rw [List.map_append, List.map_cons] at hcirc
  obtain ⟨p, q, hp, hq, hpmem, hqmem⟩ := hcirc.neighbours
  have hnot := hcirc.notMem
  have hsub : ∀ b ∈ ptr :: (us.map Prod.fst ++ vs.map Prod.fst),
      b ∈ ptr :: (us ++ (a, x) :: vs).map Prod.fst := by
    intro b hb
    simp only [List.map_append, List.map_cons, List.mem_cons, List.mem_append] at hb ⊢
    tauto
  have ha : a ∈ m.live := hlist.live a (by simp)
  refine ⟨p, q, fun h => hnot (by simp [h]), fun h => hnot (h ▸ hpmem), fun h => hnot (h ▸ hqmem),
    ha, hlist.live p (hsub p hpmem), hlist.live q (hsub q hqmem), hp, hq, ?_⟩
  refine ⟨hlist.linkedOut hp hq, rfl, fun b hb => ?_, rfl, ?_, ha, ?_⟩
  · apply Mem.sameOff_linkedOut b
    have hbp : b ≠ p := fun h => hb (h ▸ hsub p hpmem)
    have hbq : b ≠ q := fun h => hb (h ▸ hsub q hqmem)
    simp [hbp, hbq]
  · rw [Mem.linkedOut, Mem.dataOf_setNext, Mem.dataOf_setPrev]
    exact hlist.data (a, x) (by simp)
  · rwa [List.map_append]

theorem eraseP_of_find? (hfind : nodes.find? (hits f) = some (a, x)) :
    ∃ us vs, nodes = us ++ (a, x) :: vs ∧ nodes.eraseP (hits f) = us ++ vs := by
  obtain ⟨hhit, us, vs, rfl, hbefore⟩ := List.find?_eq_some_iff_append.mp hfind
  refine ⟨us, vs, rfl, ?_⟩
  rw [List.eraseP_append_right _ (by simpa using hbefore), List.eraseP_cons_of_pos hhit]

theorem unlinkNode_linkedOut {us vs : List (Addr × α)}
    (hlist : m.IsList ptr size (us ++ (a, x) :: vs)) :
    ∃ p q, unlinkNode a m = .ok ((), m.linkedOut p q) ∧
      Unlinked m (m.linkedOut p q) ptr a x size (us ++ (a, x) :: vs) (us ++ vs) := by
  obtain ⟨p, q, _, _, haq, ha, hplive, hqlive, hp, hq, hunlinked⟩ := exists_unlinked hlist
  have hprev : (m.setPrev q p).prevOf a = some p := by
    rw [Mem.prevOf_setPrev, Function.update_of_ne haq, hp]
  have hnext : (m.setPrev q p).nextOf a = some q := by
    rw [Mem.nextOf_setPrev, hq]
  refine ⟨p, q, ?_, hunlinked⟩
  rw [unlinkNode, run_bind (readNext_ok ha hq), run_bind (readPrev_ok ha hp),
    run_bind (writePrev_ok hqlive), run_bind (readPrev_ok (by simp [ha]) hprev),
    run_bind (readNext_ok (by simp [ha]) hnext), writeNext_ok (by simp [hplive])]
  rfl

theorem unlinkNode_ok {us vs : List (Addr × α)} (hlist : m.IsList ptr size (us ++ (a, x) :: vs)) :
    ∃ m', unlinkNode a m = .ok ((), m') ∧
      Unlinked m m' ptr a x size (us ++ (a, x) :: vs) (us ++ vs) := by
  obtain ⟨p, q, hunlink, hunlinked⟩ := unlinkNode_linkedOut hlist
  exact ⟨m.linkedOut p q, hunlink, hunlinked⟩

theorem findNode_none (hlist : m.IsList ptr size nodes)
    (hcmp : ∀ node ∈ nodes, cmp node.1 m = .ok (f node.2, m))
    (hnone : nodes.find? (hits f) = none) : findNode ptr cmp m = .ok (ptr, m) := by
  rw [findNode_eq hlist hcmp, hnone]
  rfl

theorem findNode_some (hlist : m.IsList ptr size nodes)
    (hcmp : ∀ node ∈ nodes, cmp node.1 m = .ok (f node.2, m))
    (hfind : nodes.find? (hits f) = some (a, x)) : findNode ptr cmp m = .ok (a, m) := by
  rw [findNode_eq hlist hcmp, hfind]
  rfl

theorem llistFind_eq (hlist : m.IsList ptr size nodes)
    (hcmp : ∀ node ∈ nodes, cmp node.1 m = .ok (f node.2, m)) :
    llistFind ptr cmp m = .ok ((nodes.find? (hits f)).map Prod.fst, m) := by
  cases hfind : nodes.find? (hits f) with
  | none =>
      rw [llistFind, run_bind (findNode_none hlist hcmp hfind), if_pos rfl]
      rfl
  | some node =>
      have hne : node.1 ≠ ptr := by
        have hmem := List.mem_map_of_mem (f := Prod.fst) (List.mem_of_find?_eq_some hfind)
        exact fun h => hlist.head_notMem (h ▸ hmem)
      rw [llistFind, run_bind (findNode_some hlist hcmp hfind), if_neg hne]
      rfl

theorem llistDelet_none (hlist : m.IsList ptr size nodes)
    (hcmp : ∀ node ∈ nodes, cmp node.1 m = .ok (f node.2, m))
    (hnone : nodes.find? (hits f) = none) (nodeOp : Option (LlistNodeOp α σ)) :
    llistDelet ptr cmp nodeOp m = .ok (-1, m) := by
  rw [llistDelet, run_bind (findNode_none hlist hcmp hnone), if_pos rfl]
  rfl

theorem llistDelet_eq (nodeOp : Option (LlistNodeOp α σ)) : llistDelet ptr cmp nodeOp = (do
    let node ← findNode ptr cmp
    if node = ptr then
      return -1
    else
      unlinkNode node
      callNodeOp nodeOp node
      freeBlock node
      return 0) := by
  simp only [llistDelet, unlinkNode, bind_assoc]

theorem llistDelet_some (hlist : m.IsList ptr size nodes)
    (hcmp : ∀ node ∈ nodes, cmp node.1 m = .ok (f node.2, m))
    (hfind : nodes.find? (hits f) = some (a, x)) (nodeOp : Option (LlistNodeOp α σ)) :
    ∃ m₁, Unlinked m m₁ ptr a x size nodes (nodes.eraseP (hits f)) ∧
      ∀ m₂, callNodeOp nodeOp a m₁ = .ok ((), m₂) → a ∈ m₂.live →
        llistDelet ptr cmp nodeOp m = .ok (0, m₂.freed a) := by
  obtain ⟨us, vs, hnodes, herase⟩ := eraseP_of_find? hfind
  obtain ⟨m₁, hunlink, hunlinked⟩ := unlinkNode_ok (hnodes ▸ hlist)
  rw [← hnodes, ← herase] at hunlinked
  refine ⟨m₁, hunlinked, fun m₂ hop ha₂ => ?_⟩
  rw [llistDelet_eq, run_bind (findNode_some hlist hcmp hfind), if_neg hunlinked.ne_head,
    run_bind hunlink, run_bind hop, run_bind (freeBlock_ok ha₂)]
  rfl

theorem llistFetch_none (hlist : m.IsList ptr size nodes)
    (hcmp : ∀ node ∈ nodes, cmp node.1 m = .ok (f node.2, m))
    (hnone : nodes.find? (hits f) = none) : llistFetch ptr cmp m = .ok ((-1, none), m) := by
  rw [llistFetch, run_bind (findNode_none hlist hcmp hnone), if_pos rfl]
  rfl

/-- What `llist_fetch` does with the node it has found. -/
theorem fetchNode_ok {us vs : List (Addr × α)} (hlist : m.IsList ptr size (us ++ (a, x) :: vs))
    (hsize : 0 ≤ size) :
    ∃ m', (do
        let data ← copyOut a (← readSize ptr)
        writeNext (← readPrev a) (← readNext a)
        writePrev (← readNext a) (← readPrev a)
        freeBlock a
        return (0, some data) : MemM α σ (Int × Option α)) m = .ok ((0, some x), m'.freed a) ∧
      Unlinked m m' ptr a x size (us ++ (a, x) :: vs) (us ++ vs) := by
  obtain ⟨p, q, _, hap, _, ha, hplive, hqlive, hp, hq, hunlinked⟩ := exists_unlinked hlist
  have hdata := hlist.data (a, x) (by simp)
  have hnext : (m.setNext p q).nextOf a = some q := by
    rw [Mem.nextOf_setNext, Function.update_of_ne hap, hq]
  have hprev : (m.setNext p q).prevOf a = some p := by
    rw [Mem.prevOf_setNext, hp]
  have hcopy : copyOut a size m = .ok (x, m) := by
    rw [copyOut, if_pos hsize]
    exact readData_ok ha hdata
  refine ⟨_, ?_, hunlinked⟩
  rw [run_bind (readSize_ok hlist.head_live hlist.size), run_bind hcopy,
    run_bind (readPrev_ok ha hp), run_bind (readNext_ok ha hq),
    run_bind (writeNext_ok hplive), run_bind (readNext_ok (by simp [ha]) hnext),
    run_bind (readPrev_ok (by simp [ha]) hprev), run_bind (writePrev_ok (by simp [hqlive])),
    run_bind (freeBlock_ok (by simp [ha])), Mem.setNext_setPrev]
  rfl

theorem llistFetch_some (hlist : m.IsList ptr size nodes) (hsize : 0 ≤ size)
    (hcmp : ∀ node ∈ nodes, cmp node.1 m = .ok (f node.2, m))
    (hfind : nodes.find? (hits f) = some (a, x)) :
    ∃ m₁, Unlinked m m₁ ptr a x size nodes (nodes.eraseP (hits f)) ∧
      llistFetch ptr cmp m = .ok ((0, some x), m₁.freed a) := by
  obtain ⟨us, vs, hnodes, herase⟩ := eraseP_of_find? hfind
  obtain ⟨m₁, hfetch, hunlinked⟩ := fetchNode_ok (hnodes ▸ hlist) hsize
  rw [← hnodes, ← herase] at hunlinked
  refine ⟨m₁, hunlinked, ?_⟩
  rw [llistFetch, run_bind (findNode_some hlist hcmp hfind), if_neg hunlinked.ne_head]
  exact hfetch

end Remove

/-! ### `llist_getnum` -/

section Count

variable {m : Mem α σ} {ptr : Addr} {size : Int} {nodes : List (Addr × α)}

theorem getnumFrom_eq {rest : List (Addr × α)} {a cur : Addr} {rounds : Nat} {i : Int}
    (hlinked : Linked m.nextOf a (rest.map Prod.fst) ptr) (hcur : m.nextOf a = some cur)
    (hptr : ptr ∉ rest.map Prod.fst) (hlive : ∀ node ∈ rest, node.1 ∈ m.live)
    (hrounds : rest.length < rounds) (hi : i ≤ intMax) :
    getnumFrom ptr rounds cur i m
      = if i + rest.length ≤ intMax then .ok (i + rest.length, m) else .error .signedOverflow := by
  induction rest generalizing a cur rounds i with
  | nil =>
      obtain ⟨rounds, rfl⟩ : ∃ n, rounds = n + 1 := ⟨rounds - 1, by simp at hrounds; omega⟩
      have hend : cur = ptr := Option.some.inj (hcur.symm.trans hlinked)
      rw [getnumFrom, if_pos hend, if_pos (by simpa using hi), List.length_nil, Int.natCast_zero,
        Int.add_zero]
      rfl
  | cons node rest ih =>
      rw [List.length_cons] at hrounds
      obtain ⟨rounds, rfl⟩ : ∃ n, rounds = n + 1 := ⟨rounds - 1, by omega⟩
      have hnode : cur = node.1 := Option.some.inj (hcur.symm.trans hlinked.1)
      subst hnode
      have hne : node.1 ≠ ptr := fun h => hptr (by simp [h])
      obtain ⟨next, hnext⟩ := hlinked.2.exists_next
      rw [getnumFrom, if_neg hne, run_bind (readNext_ok (hlive node (by simp)) hnext),
        List.length_cons, Int.natCast_succ]
      by_cases hlt : i < intMax
      · rw [run_bind (incr_ok hlt)]
        rw [ih hlinked.2 hnext (fun h => hptr (List.mem_cons_of_mem _ h))
          (fun p hp => hlive p (List.mem_cons_of_mem _ hp)) (by omega) (by omega)]
        rw [show i + 1 + (rest.length : Int) = i + (rest.length + 1) by omega]
      · rw [run_bind_error (if_neg hlt), if_neg (by omega)]

theorem llistGetnum_eq (hlist : m.IsList ptr size nodes) :
    llistGetnum ptr m
      = if (nodes.length : Int) ≤ intMax then .ok (↑nodes.length, m)
        else .error .signedOverflow := by
  obtain ⟨cur, hcur⟩ := hlist.circular.forth.exists_next
  rw [llistGetnum, run_bind loopBound_ok, run_bind (readNext_ok hlist.head_live hcur),
    getnumFrom_eq hlist.circular.forth hcur hlist.head_notMem
      (fun node hmem => hlist.node_live hmem) hlist.length_lt_card (by decide), Int.zero_add]

/-- An `llist_check` that keeps every node counts them. -/
theorem checkFrom_keeping {nodeCheck : Option (LlistNodeCheck α σ)}
    (hkeeps : ∀ cur, checkNode nodeCheck cur = pure ()) (ptr : Addr) (rounds : Nat) (cur : Addr)
    (n : Int) : checkFrom nodeCheck ptr rounds cur n = getnumFrom ptr rounds cur n := by
  induction rounds generalizing cur n with
  | zero => rfl
  | succ rounds ih =>
      rw [checkFrom, getnumFrom]
      split
      · rfl
      · simp only [ih, hkeeps, pure_bind]

theorem llistCheck_keeping {nodeCheck : Option (LlistNodeCheck α σ)}
    (hkeeps : ∀ cur, checkNode nodeCheck cur = pure ()) :
    llistCheck (some ptr) nodeCheck = llistGetnum ptr := by
  simp only [llistCheck, llistGetnum, checkFrom_keeping hkeeps]

end Count

/-! ### `llist_clear` and `llist_destroy` -/

section Clear

variable {m : Mem α σ} {ptr : Addr} {size : Int} {nodes : List (Addr × α)}
  {nodeOp : Option (LlistNodeOp α σ)} {inv : List (Addr × α) → Mem α σ → Prop} {err : Fault → Prop}

/-- The rule for the loop. `inv` speaks of the nodes that remain; it keeps them linked and live, and
handing the first of them to `node_op` and freeing it leads to `inv` of the others. -/
theorem clearFrom_meets
    (hlinked : ∀ node rest m, inv (node :: rest) m →
      node.1 ≠ ptr ∧ node.1 ∈ m.live ∧ Linked m.nextOf node.1 (rest.map Prod.fst) ptr)
    (hstep : ∀ node rest m, inv (node :: rest) m → Meets (fun result =>
      node.1 ∈ result.2.live ∧ inv rest (result.2.freed node.1)) err (callNodeOp nodeOp node.1 m))
    {rest : List (Addr × α)} {cur : Addr} {rounds : Nat} {n : Int} (hinit : inv rest m)
    (hcur : (rest.map Prod.fst ++ [ptr]).head? = some cur) (hrounds : rest.length < rounds)
    (hcount : n + rest.length ≤ intMax) :
    Meets (fun result => result.1 = n + rest.length ∧ inv [] result.2) err
      (clearFrom nodeOp ptr rounds cur n m) := by
  induction rest generalizing m cur rounds n with
  | nil =>
      obtain ⟨rounds, rfl⟩ : ∃ k, rounds = k + 1 := ⟨rounds - 1, by simp at hrounds; omega⟩
      cases hcur
      rw [clearFrom, if_pos rfl]
      exact ⟨by simp, hinit⟩
  | cons node rest ih =>
      rw [List.length_cons] at hrounds hcount
      push_cast at hcount
      obtain ⟨rounds, rfl⟩ : ∃ k, rounds = k + 1 := ⟨rounds - 1, by omega⟩
      cases hcur
      obtain ⟨hne, hlive, hrest⟩ := hlinked node rest m hinit
      obtain ⟨next, hnext⟩ := hrest.exists_next
      rw [clearFrom, if_neg hne, run_bind (readNext_ok hlive hnext)]
      apply (hstep node rest m hinit).run_bind
      rintro _ m₁ ⟨hlive₁, hinv₁⟩
      rw [run_bind (freeBlock_ok hlive₁), run_bind (incr_ok (by omega))]
      refine (ih hinv₁ (hrest.head_eq.symm.trans hnext) (by omega) (by omega)).mono ?_
      rintro ⟨r, m'⟩ ⟨hr, hinv'⟩
      refine ⟨?_, hinv'⟩
      rw [List.length_cons]
      push_cast
      omega

theorem destroyFrom_meets
    (hlinked : ∀ node rest m, inv (node :: rest) m →
      node.1 ≠ ptr ∧ node.1 ∈ m.live ∧ Linked m.nextOf node.1 (rest.map Prod.fst) ptr)
    (hstep : ∀ node rest m, inv (node :: rest) m → Meets (fun result =>
      node.1 ∈ result.2.live ∧ inv rest (result.2.freed node.1)) err (callNodeOp nodeOp node.1 m))
    {rest : List (Addr × α)} {cur : Addr} {rounds : Nat} (hinit : inv rest m)
    (hcur : (rest.map Prod.fst ++ [ptr]).head? = some cur) (hrounds : rest.length < rounds) :
    Meets (fun result => inv [] result.2) err (destroyFrom nodeOp ptr rounds cur m) := by
  induction rest generalizing m cur rounds with
  | nil =>
      obtain ⟨rounds, rfl⟩ : ∃ k, rounds = k + 1 := ⟨rounds - 1, by simp at hrounds; omega⟩
      cases hcur
      rw [destroyFrom, if_pos rfl]
      exact hinit
  | cons node rest ih =>
      rw [List.length_cons] at hrounds
      obtain ⟨rounds, rfl⟩ : ∃ k, rounds = k + 1 := ⟨rounds - 1, by omega⟩
      cases hcur
      obtain ⟨hne, hlive, hrest⟩ := hlinked node rest m hinit
      obtain ⟨next, hnext⟩ := hrest.exists_next
      rw [destroyFrom, if_neg hne, run_bind (readNext_ok hlive hnext)]
      apply (hstep node rest m hinit).run_bind
      rintro _ m₁ ⟨hlive₁, hinv₁⟩
      rw [run_bind (freeBlock_ok hlive₁)]
      exact ih hinv₁ (hrest.head_eq.symm.trans hnext) (by omega)

theorem isList_cleared (hlive : ptr ∈ m.live) (hsize : m.sizeOf ptr = some size) :
    ((m.setNext ptr ptr).setPrev ptr ptr).IsList ptr size ([] : List (Addr × α)) := by
  refine ⟨by simp [hsize], Circular.singleton (by simp) (by simp), by simp [hlive], ?_⟩
  intro node hmem
  cases hmem

variable (inv) in
theorem llistClear_meets (hlist : m.IsList ptr size nodes)
    (hcount : (nodes.length : Int) ≤ intMax)
    (hlinked : ∀ node rest m, inv (node :: rest) m →
      node.1 ≠ ptr ∧ node.1 ∈ m.live ∧ Linked m.nextOf node.1 (rest.map Prod.fst) ptr)
    (hstep : ∀ node rest m, inv (node :: rest) m → Meets (fun result =>
      node.1 ∈ result.2.live ∧ inv rest (result.2.freed node.1)) err (callNodeOp nodeOp node.1 m))
    (hinit : inv nodes m)
    (hend : ∀ m, inv [] m → ptr ∈ m.live ∧ m.sizeOf ptr = some size) :
    Meets (fun result => result.1 = (nodes.length : Int) ∧ ∃ m', inv [] m' ∧
      result.2 = (m'.setNext ptr ptr).setPrev ptr ptr ∧ result.2.IsList ptr size []) err
      (llistClear ptr nodeOp m) := by
  obtain ⟨cur, hcur⟩ := hlist.circular.forth.exists_next
  rw [llistClear, run_bind loopBound_ok, run_bind (readNext_ok hlist.head_live hcur)]
  apply (clearFrom_meets hlinked hstep hinit (hlist.circular.next_head.symm.trans hcur)
    hlist.length_lt_card (by omega)).run_bind
  rintro r m' ⟨hr, hinv⟩
  obtain ⟨hlive, hsize⟩ := hend m' hinv
  rw [run_bind (writeNext_ok hlive), run_bind (writePrev_ok (by simp [hlive]))]
  exact ⟨by omega, m', hinv, rfl, isList_cleared hlive hsize⟩

theorem callNodeOp_meets
    (hstep : ∀ node rest m, inv (node :: rest) m → ∃ m', callNodeOp nodeOp node.1 m = .ok ((), m') ∧
      node.1 ∈ m'.live ∧ inv rest (m'.freed node.1)) :
    ∀ node rest m, inv (node :: rest) m → Meets (fun result =>
      node.1 ∈ result.2.live ∧ inv rest (result.2.freed node.1)) (fun _ => False)
      (callNodeOp nodeOp node.1 m) := by
  intro node rest m hinv
  obtain ⟨m', hop, hlive, hinv'⟩ := hstep node rest m hinv
  rw [hop]
  exact ⟨hlive, hinv'⟩

theorem llistClear_ok (hlist : m.IsList ptr size nodes) (hcount : (nodes.length : Int) ≤ intMax)
    (hlinked : ∀ node rest m, inv (node :: rest) m →
      node.1 ≠ ptr ∧ node.1 ∈ m.live ∧ Linked m.nextOf node.1 (rest.map Prod.fst) ptr)
    (hstep : ∀ node rest m, inv (node :: rest) m → ∃ m', callNodeOp nodeOp node.1 m = .ok ((), m') ∧
      node.1 ∈ m'.live ∧ inv rest (m'.freed node.1))
    (hinit : inv nodes m)
    (hend : ∀ m, inv [] m → ptr ∈ m.live ∧ m.sizeOf ptr = some size) :
    ∃ m', inv [] m' ∧
      llistClear ptr nodeOp m = .ok (↑nodes.length, (m'.setNext ptr ptr).setPrev ptr ptr) ∧
      ((m'.setNext ptr ptr).setPrev ptr ptr).IsList ptr size [] := by
  obtain ⟨⟨r, m''⟩, hrun, hr, m', hinv, hm'', hempty⟩ :=
    (llistClear_meets inv hlist hcount hlinked (callNodeOp_meets hstep) hinit hend).exists_ok
  obtain rfl : r = nodes.length := hr
  obtain rfl : m'' = (m'.setNext ptr ptr).setPrev ptr ptr := hm''
  exact ⟨m', hinv, hrun, hempty⟩

variable (inv) in
theorem llistDestroy_meets (hlist : m.IsList ptr size nodes)
    (hlinked : ∀ node rest m, inv (node :: rest) m →
      node.1 ≠ ptr ∧ node.1 ∈ m.live ∧ Linked m.nextOf node.1 (rest.map Prod.fst) ptr)
    (hstep : ∀ node rest m, inv (node :: rest) m → Meets (fun result =>
      node.1 ∈ result.2.live ∧ inv rest (result.2.freed node.1)) err (callNodeOp nodeOp node.1 m))
    (hinit : inv nodes m) (hend : ∀ m, inv [] m → ptr ∈ m.live) :
    Meets (fun result => ∃ m', inv [] m' ∧ result.2 = m'.freed ptr) err
      (llistDestroy (some ptr) nodeOp m) := by
  obtain ⟨cur, hcur⟩ := hlist.circular.forth.exists_next
  rw [llistDestroy, run_bind loopBound_ok, run_bind (readNext_ok hlist.head_live hcur)]
  apply (destroyFrom_meets hlinked hstep hinit (hlist.circular.next_head.symm.trans hcur)
    hlist.length_lt_card).run_bind
  rintro _ m' hinv
  rw [freeBlock_ok (hend m' hinv)]
  exact ⟨m', hinv, rfl⟩

end Clear

end Gittest
