import Gittest.Proof.LinkListOps

/-!
# The linked list with arbitrary callbacks

A `Ground` is what the lists of a heap stand on: their blocks, and what the payloads of their nodes may
be. A callback leaves the blocks alone, but for the payload of the node it is handed. Whatever else it
does, a function that works on one list keeps that list well-formed and the blocks of the others as they
are.
-/

namespace Gittest

open Outcome

variable {α β γ σ : Type}

/-- The blocks of `S` that are live stay live and as they are. -/
def Mem.Keeps (S : Set Addr) (m m' : Mem α σ) : Prop :=
  ∀ b ∈ S, b ∈ m.live → b ∈ m'.live ∧ m'.block b = m.block b

structure Ground (α : Type) where
  blocks : Set Addr
  payloads : Addr → Set α

/-- Payloads are told apart by `view` only. -/
def Ground.Respects (P : Ground α) (view : α → γ) : Prop :=
  ∀ a x y, view y = view x → x ∈ P.payloads a → y ∈ P.payloads a

/-- A callback that leaves the blocks of `P` alone, but for the payload of the node it is handed, of
which it keeps the `view`. It may fail as `err` says. -/
def LeavesLists (P : Ground α) (view : α → γ) (err : Fault → Prop) (f : Addr → MemM α σ β) : Prop :=
  ∀ a x m, x ∈ P.payloads a → a ∈ m.live → m.dataOf a = some x →
    Meets (fun result => ∃ y, view y = view x ∧ (m.setData a y).Keeps P.blocks result.2) err (f a m)

/-- The list at `ptr`, and `S`, blocks of the others. -/
structure Beside (P : Ground α) (S : Set Addr) (m : Mem α σ) (ptr : Addr) (size : Int)
    (nodes : List (Addr × α)) : Prop where
  isList : m.IsList ptr size nodes
  blocks : ∀ b ∈ ptr :: nodes.map Prod.fst, b ∈ P.blocks
  payloads : ∀ node ∈ nodes, node.2 ∈ P.payloads node.1
  others : S ⊆ P.blocks
  apart : ∀ b ∈ ptr :: nodes.map Prod.fst, b ∉ S

/-- Nodes with what is kept of their payloads. -/
def listShape (view : α → γ) (nodes : List (Addr × α)) : List (Addr × γ) :=
  nodes.map (Prod.map id view)

namespace Mem.Keeps

variable {S T : Set Addr} {m m₁ m' : Mem α σ}

theorem refl : m.Keeps S m := fun _ _ hlive => ⟨hlive, rfl⟩

theorem trans (h₁ : m.Keeps S m₁) (h₂ : m₁.Keeps S m') : m.Keeps S m' := by
  intro b hb hlive
  obtain ⟨hlive₁, hblock₁⟩ := h₁ b hb hlive
  obtain ⟨hlive', hblock'⟩ := h₂ b hb hlive₁
  exact ⟨hlive', hblock'.trans hblock₁⟩

theorem mono (hkeeps : m.Keeps S m') (hsub : T ⊆ S) : m.Keeps T m' :=
  fun b hb => hkeeps b (hsub hb)

theorem of_setData {a : Addr} {y : α} (hkeeps : (m.setData a y).Keeps S m') :
    m.Keeps (S \ {a}) m' := by
  intro b hb hlive
  obtain ⟨hlive', hblock⟩ := hkeeps b hb.1 hlive
  exact ⟨hlive', hblock.trans (m.block_setData_of_ne a y hb.2)⟩

theorem freed (hkeeps : m.Keeps S m') (a : Addr) : m.Keeps (S \ {a}) (m'.freed a) := by
  intro b hb hlive
  obtain ⟨hlive', hblock⟩ := hkeeps b hb.1 hlive
  exact ⟨Finset.mem_erase.mpr ⟨hb.2, hlive'⟩, hblock⟩

theorem of_sameOff {s : List Addr} (hsame : SameOff s m m') (hlive : ∀ b ∈ S, b ∈ m.live → b ∈ m'.live)
    (hoff : ∀ b ∈ S, b ∉ s) : m.Keeps S m' :=
  fun b hb hb' => ⟨hlive b hb hb', hsame b (hoff b hb)⟩

theorem isList {ptr : Addr} {size : Int} {nodes : List (Addr × α)} (hkeeps : m.Keeps S m')
    (hlist : m.IsList ptr size nodes) (hS : ∀ b ∈ ptr :: nodes.map Prod.fst, b ∈ S) :
    m'.IsList ptr size nodes :=
  hlist.frame (fun b hb => (hkeeps b (hS b hb) (hlist.live b hb)).2)
    fun b hb => (hkeeps b (hS b hb) (hlist.live b hb)).1

end Mem.Keeps

theorem Mem.setData_self {m : Mem α σ} {a : Addr} {x : α} (hdata : m.dataOf a = some x) :
    (m.setData a x).block = m.block := by
  have hblock : { m.block a with data := some x } = m.block a := by
    rw [← hdata, Mem.dataOf]
  rw [setData, hblock]
  exact Function.update_eq_self a m.block

section Shape

variable {view : α → γ}

variable (view) in
theorem map_fst_listShape (nodes : List (Addr × α)) :
    (listShape view nodes).map Prod.fst = nodes.map Prod.fst := by
  rw [listShape, List.map_map]
  rfl

theorem listShape_append (us vs : List (Addr × α)) :
    listShape view (us ++ vs) = listShape view us ++ listShape view vs :=
  List.map_append

/-- Of nodes that are left, with the `view` of their payloads, each was there before. -/
theorem exists_of_shape_sublist {kept nodes : List (Addr × α)}
    (hshape : (listShape view kept).Sublist (listShape view nodes)) {node : Addr × α}
    (hmem : node ∈ kept) : ∃ x, (node.1, x) ∈ nodes ∧ view node.2 = view x := by
  have hin : Prod.map id view node ∈ listShape view nodes :=
    hshape.subset (List.mem_map_of_mem hmem)
  obtain ⟨old, hold, heq⟩ := List.mem_map.mp hin
  obtain ⟨hfst, hsnd⟩ := Prod.ext_iff.mp heq
  change old.1 = node.1 at hfst
  refine ⟨old.2, ?_, hsnd.symm⟩
  rwa [← hfst]

end Shape

section Walk

variable {P : Ground α} {S : Set Addr} {view : α → γ} {err : Fault → Prop} {m : Mem α σ}
  {ptr a : Addr} {size : Int} {x : α} {us vs nodes : List (Addr × α)} {cmp : LlistCmp α σ}
  {op : LlistOp α σ} {nodeOp : Option (LlistNodeOp α σ)}

theorem Beside.frame {m' : Mem α σ} (hbeside : Beside P S m ptr size nodes)
    (hkeeps : m.Keeps P.blocks m') : Beside P S m' ptr size nodes :=
  { hbeside with isList := hkeeps.isList hbeside.isList hbeside.blocks }

/-- The list after some of its nodes are gone, and payloads of others have changed. -/
theorem Beside.shrink {m' : Mem α σ} {nodes' : List (Addr × α)}
    (hbeside : Beside P S m ptr size nodes) (hrespects : P.Respects view)
    (hlist : m'.IsList ptr size nodes')
    (hshape : (listShape view nodes').Sublist (listShape view nodes)) :
    Beside P S m' ptr size nodes' := by
  have hsub : ∀ b ∈ ptr :: nodes'.map Prod.fst, b ∈ ptr :: nodes.map Prod.fst := by
    rw [← map_fst_listShape view nodes', ← map_fst_listShape view nodes]
    exact fun b hb => ((hshape.map Prod.fst).cons_cons ptr).subset hb
  refine ⟨hlist, fun b hb => hbeside.blocks b (hsub b hb), fun node hmem => ?_, hbeside.others,
    fun b hb => hbeside.apart b (hsub b hb)⟩
  obtain ⟨x, hx, hview⟩ := exists_of_shape_sublist hshape hmem
  exact hrespects _ _ _ hview (hbeside.payloads _ hx)

theorem Beside.remove {m' : Mem α σ} (hbeside : Beside P S m ptr size (us ++ (a, x) :: vs))
    (hlist : m'.IsList ptr size (us ++ vs)) : Beside P S m' ptr size (us ++ vs) := by
  have hsub : (us ++ vs).Sublist (us ++ (a, x) :: vs) :=
    (List.Sublist.refl us).append (List.sublist_cons_self _ _)
  have hrespects : P.Respects (id : α → α) := by
    intro a x y h hx
    rwa [show y = x from h]
  exact hbeside.shrink hrespects hlist (hsub.map _)

/-- A node on its way out does not hold blocks of the others. -/
theorem Beside.others_sub (hbeside : Beside P S m ptr size (us ++ (a, x) :: vs)) :
    S ⊆ P.blocks \ {a} := by
  intro b hb
  refine ⟨hbeside.others hb, ?_⟩
  rintro rfl
  exact hbeside.apart b (by simp) hb

theorem LeavesLists.on_node {f : Addr → MemM α σ β} (hf : LeavesLists P view err f)
    (hrespects : P.Respects view) (hbeside : Beside P S m ptr size (us ++ (a, x) :: vs)) :
    Meets (fun result => ∃ y, view y = view x ∧ Beside P S result.2 ptr size (us ++ (a, y) :: vs) ∧
      m.Keeps S result.2) err (f a m) := by
  have hlist := hbeside.isList
  refine (hf a x m (hbeside.payloads (a, x) (by simp)) (hlist.live a (by simp))
    (hlist.data (a, x) (by simp))).mono ?_
  rintro ⟨r, m'⟩ ⟨y, hview, hkeeps⟩
  have hset : Beside P S (m.setData a y) ptr size (us ++ (a, y) :: vs) := by
    refine hbeside.shrink hrespects hlist.setData ?_
    simp [listShape, hview]
  exact ⟨y, hview, hset.frame hkeeps, hkeeps.of_setData.mono hbeside.others_sub⟩

/-- A callback that keeps the payload keeps the list. -/
theorem LeavesLists.reads_node {f : Addr → MemM α σ β} (hf : LeavesLists P id err f)
    (hbeside : Beside P S m ptr size (us ++ (a, x) :: vs)) :
    Meets (fun result => Beside P S result.2 ptr size (us ++ (a, x) :: vs) ∧ m.Keeps S result.2) err
      (f a m) := by
  have hdata := hbeside.isList.data (a, x) (by simp)
  refine (hf a x m (hbeside.payloads (a, x) (by simp)) (hbeside.isList.live a (by simp))
    hdata).mono ?_
  rintro ⟨r, m'⟩ ⟨y, hview, hkeeps⟩
  obtain rfl : y = x := hview
  have hkeeps' : m.Keeps P.blocks m' := by
    intro b hb hlive
    obtain ⟨hlive', hblock⟩ := hkeeps b hb hlive
    exact ⟨hlive', hblock.trans (congrFun (Mem.setData_self hdata) b)⟩
  exact ⟨hbeside.frame hkeeps', hkeeps'.mono hbeside.others⟩

/-- The node at which a loop stands, and the one after it. -/
theorem Mem.IsList.cursor (hlist : m.IsList ptr size (us ++ (a, x) :: vs)) :
    a ≠ ptr ∧ ∃ next, m.nextOf a = some next ∧ (vs.map Prod.fst ++ [ptr]).head? = some next := by
  have hcirc := hlist.circular
  rw [List.map_append, List.map_cons] at hcirc
  obtain ⟨next, hnext⟩ := (Linked.append_cons_iff.mp hcirc.forth).2.exists_next
  exact ⟨fun h => hcirc.notMem (by simp [h]), next, hnext, hcirc.next_eq.symm.trans hnext⟩

/-! ### Searching -/

theorem findFrom_meets (hcmp : LeavesLists P id err cmp) {done rest : List (Addr × α)} {cur : Addr}
    {rounds : Nat} (hbeside : Beside P S m ptr size (done ++ rest))
    (hcur : (rest.map Prod.fst ++ [ptr]).head? = some cur) (hrounds : rest.length < rounds) :
    Meets (fun result => Beside P S result.2 ptr size (done ++ rest) ∧ m.Keeps S result.2 ∧
      (result.1 = ptr ∨ result.1 ∈ rest.map Prod.fst)) err (findFrom cmp ptr rounds cur m) := by
  induction rest generalizing m done cur rounds with
  | nil =>
      obtain ⟨rounds, rfl⟩ : ∃ k, rounds = k + 1 := ⟨rounds - 1, by simp at hrounds; omega⟩
      cases hcur
      rw [findFrom, if_pos rfl]
      exact ⟨hbeside, .refl, Or.inl rfl⟩
  | cons node rest ih =>
      obtain ⟨a, x⟩ := node
      rw [List.length_cons] at hrounds
      obtain ⟨rounds, rfl⟩ : ∃ k, rounds = k + 1 := ⟨rounds - 1, by omega⟩
      cases hcur
      rw [findFrom, if_neg hbeside.isList.cursor.1]
      apply (hcmp.reads_node hbeside).run_bind
      rintro r m₁ ⟨hbeside₁, hkeeps₁⟩
      by_cases hzero : r = 0
      · rw [if_pos hzero]
        exact ⟨hbeside₁, hkeeps₁, Or.inr (by simp)⟩
      · obtain ⟨_, next, hnext, hhead⟩ := hbeside₁.isList.cursor
        rw [if_neg hzero, run_bind (readNext_ok (hbeside₁.isList.live a (by simp)) hnext)]
        rw [List.append_cons] at hbeside₁
        refine (ih hbeside₁ hhead (by omega)).mono ?_
        rintro ⟨r', m'⟩ ⟨hbeside', hkeeps', hfound⟩
        rw [← List.append_cons] at hbeside'
        exact ⟨hbeside', hkeeps₁.trans hkeeps', hfound.imp_right (List.mem_cons_of_mem _)⟩

theorem findNode_meets (hcmp : LeavesLists P id err cmp) (hbeside : Beside P S m ptr size nodes) :
    Meets (fun result => Beside P S result.2 ptr size nodes ∧ m.Keeps S result.2 ∧
      (result.1 = ptr ∨ result.1 ∈ nodes.map Prod.fst)) err (findNode ptr cmp m) := by
  have hlist := hbeside.isList
  obtain ⟨cur, hcur⟩ := hlist.circular.forth.exists_next
  rw [findNode, run_bind loopBound_ok, run_bind (readNext_ok hlist.head_live hcur)]
  have hstart : Beside P S m ptr size ([] ++ nodes) := hbeside
  exact findFrom_meets hcmp hstart (hlist.circular.next_head.symm.trans hcur)
    hlist.length_lt_card

/-- What a search leads to: the head, or a node of the list. -/
theorem findNode_split (hcmp : LeavesLists P id err cmp) (hbeside : Beside P S m ptr size nodes) :
    Meets (fun result => Beside P S result.2 ptr size nodes ∧ m.Keeps S result.2 ∧
      (result.1 = ptr ∨ ∃ us x vs, result.1 ≠ ptr ∧ nodes = us ++ (result.1, x) :: vs)) err
      (findNode ptr cmp m) := by
  refine (findNode_meets hcmp hbeside).mono ?_
  rintro ⟨r, m'⟩ ⟨hbeside', hkeeps, hfound⟩
  refine ⟨hbeside', hkeeps, hfound.imp_right fun hmem => ?_⟩
  obtain ⟨node, hnode, rfl⟩ := List.mem_map.mp hmem
  obtain ⟨us, vs, rfl⟩ := List.append_of_mem hnode
  exact ⟨us, node.2, vs, hbeside.isList.cursor.1, rfl⟩

/-! ### Taking nodes out -/

/-- A node is handed to `node_op` and freed. -/
theorem releaseNode_meets (hop : ∀ op ∈ nodeOp, LeavesLists P view err op) (ha : a ∈ P.blocks)
    (hx : x ∈ P.payloads a) (hlive : a ∈ m.live) (hdata : m.dataOf a = some x) :
    Meets (fun result => a ∈ result.2.live ∧ m.Keeps (P.blocks \ {a}) (result.2.freed a)) err
      (callNodeOp nodeOp a m) := by
  cases nodeOp with
  | none => exact ⟨hlive, Mem.Keeps.refl.freed a⟩
  | some op =>
      refine (hop op rfl a x m hx hlive hdata).mono ?_
      rintro ⟨_, m₁⟩ ⟨y, _, hkeeps⟩
      refine ⟨(hkeeps a ha hlive).1, fun b hb => ?_⟩
      exact (hkeeps.of_setData.freed a) b ⟨hb, hb.2⟩

/-- What the visit to a node comes to: it is as before up to its payload, or taken out. -/
def Visited (view : α → γ) (P : Ground α) (S : Set Addr) (m : Mem α σ) (ptr : Addr) (size : Int)
    (us : List (Addr × α)) (node : Addr × α) (vs : List (Addr × α)) (m' : Mem α σ) : Prop :=
  ∃ kept, (listShape view kept).Sublist (listShape view [node]) ∧
    Beside P S m' ptr size (us ++ kept ++ vs) ∧ m.Keeps S m'

theorem removeNode_meets (hop : ∀ op ∈ nodeOp, LeavesLists P view err op)
    (hbeside : Beside P S m ptr size (us ++ (a, x) :: vs)) :
    Meets (fun result => Beside P S result.2 ptr size (us ++ vs) ∧ m.Keeps S result.2) err
      ((do unlinkNode a; callNodeOp nodeOp a; freeBlock a : MemM α σ Unit) m) := by
  obtain ⟨m₁, hunlink, hunlinked⟩ := unlinkNode_ok hbeside.isList
  have ha : a ∈ m₁.live := by
    rw [hunlinked.live]
    exact hunlinked.node_live
  rw [run_bind hunlink]
  apply (releaseNode_meets hop (hbeside.blocks a (by simp)) (hbeside.payloads (a, x) (by simp)) ha
    hunlinked.data).run_bind
  rintro _ m' ⟨ha', hkeeps⟩
  rw [freeBlock_ok ha']
  have hstay : ∀ b ∈ ptr :: (us ++ vs).map Prod.fst, b ∈ P.blocks \ {a} := by
    intro b hb
    exact ⟨(hbeside.remove hunlinked.isList).blocks b hb, fun h => hunlinked.notMem (h ▸ hb)⟩
  have hbefore : m.Keeps S m₁ := Mem.Keeps.of_sameOff hunlinked.same
    (fun b _ hb => hunlinked.live ▸ hb) fun b hb hmem => hbeside.apart b hmem hb
  exact ⟨hbeside.remove (hkeeps.isList hunlinked.isList hstay),
    hbefore.trans (hkeeps.mono hbeside.others_sub)⟩

theorem checkNode_meets {nodeCheck : Option (LlistNodeCheck α σ)}
    (hcheck : ∀ f ∈ nodeCheck, LeavesLists P view err f) (hrespects : P.Respects view)
    (hbeside : Beside P S m ptr size (us ++ (a, x) :: vs)) :
    Meets (fun result => Visited view P S m ptr size us (a, x) vs result.2) err
      (checkNode nodeCheck a m) := by
  cases nodeCheck with
  | none => exact ⟨[(a, x)], List.Sublist.refl _, by simpa using hbeside, .refl⟩
  | some check =>
      apply ((hcheck check rfl).on_node hrespects hbeside).run_bind
      rintro r m₁ ⟨y, hview, hbeside₁, hkeeps₁⟩
      by_cases hzero : r = 0
      · rw [if_pos hzero]
        have hnone : ∀ op ∈ (none : Option (LlistNodeOp α σ)), LeavesLists P view err op := by simp
        refine (removeNode_meets hnone hbeside₁).mono ?_
        rintro ⟨_, m'⟩ ⟨hbeside', hkeeps'⟩
        exact ⟨[], List.nil_sublist _, by simpa using hbeside', hkeeps₁.trans hkeeps'⟩
      · rw [if_neg hzero]
        refine ⟨[(a, y)], ?_, by simpa using hbeside₁, hkeeps₁⟩
        simp [listShape, hview]

variable (view) in
theorem deleteMatch_meets (hcmp : LeavesLists P id err cmp)
    (hop : ∀ op ∈ nodeOp, LeavesLists P (fun _ => ()) err op)
    (hbeside : Beside P S m ptr size (us ++ (a, x) :: vs)) :
    Meets (fun result => Visited view P S m ptr size us (a, x) vs result.2) err
      (deleteMatch cmp nodeOp a m) := by
  apply (hcmp.reads_node hbeside).run_bind
  rintro r m₁ ⟨hbeside₁, hkeeps₁⟩
  by_cases hzero : r = 0
  · rw [if_pos hzero]
    refine (removeNode_meets hop hbeside₁).mono ?_
    rintro ⟨_, m'⟩ ⟨hbeside', hkeeps'⟩
    exact ⟨[], List.nil_sublist _, by simpa using hbeside', hkeeps₁.trans hkeeps'⟩
  · rw [if_neg hzero]
    exact ⟨[(a, x)], List.Sublist.refl _, by simpa using hbeside₁, hkeeps₁⟩

/-! ### The loops that visit every node -/

theorem checkFrom_meets {nodeCheck : Option (LlistNodeCheck α σ)}
    (hcheck : ∀ f ∈ nodeCheck, LeavesLists P view err f) (hrespects : P.Respects view)
    {done rest : List (Addr × α)} {cur : Addr} {rounds : Nat} {n : Int}
    (hbeside : Beside P S m ptr size (done ++ rest))
    (hcur : (rest.map Prod.fst ++ [ptr]).head? = some cur) (hrounds : rest.length < rounds)
    (hcount : n + rest.length ≤ intMax) :
    Meets (fun result => result.1 = n + rest.length ∧ m.Keeps S result.2 ∧
      ∃ kept, (listShape view kept).Sublist (listShape view rest) ∧
        Beside P S result.2 ptr size (done ++ kept)) err
      (checkFrom nodeCheck ptr rounds cur n m) := by
  induction rest generalizing m done cur rounds n with
  | nil =>
      obtain ⟨rounds, rfl⟩ : ∃ k, rounds = k + 1 := ⟨rounds - 1, by simp at hrounds; omega⟩
      cases hcur
      rw [checkFrom, if_pos rfl]
      exact ⟨by simp, .refl, [], List.Sublist.refl _, hbeside⟩
  | cons node rest ih =>
      obtain ⟨a, x⟩ := node
      rw [List.length_cons] at hrounds hcount
      push_cast at hcount
      obtain ⟨rounds, rfl⟩ : ∃ k, rounds = k + 1 := ⟨rounds - 1, by omega⟩
      cases hcur
      obtain ⟨hne, next, hnext, hhead⟩ := hbeside.isList.cursor
      rw [checkFrom, if_neg hne,
        run_bind (readNext_ok (hbeside.isList.live a (by simp)) hnext)]
      apply (checkNode_meets hcheck hrespects hbeside).run_bind
      rintro _ m₁ ⟨kept₁, hshape₁, hbeside₁, hkeeps₁⟩
      rw [run_bind (incr_ok (by omega))]
      refine (ih hbeside₁ hhead (by omega) (by omega)).mono ?_
      rintro ⟨r, m'⟩ ⟨hr, hkeeps', kept, hshape, hbeside'⟩
      refine ⟨?_, hkeeps₁.trans hkeeps', kept₁ ++ kept, ?_, by rwa [← List.append_assoc]⟩
      · rw [List.length_cons]
        push_cast
        omega
      · rw [listShape_append, ← List.singleton_append, listShape_append]
        exact hshape₁.append hshape

theorem travelDeleteFrom_meets (hop : LeavesLists P view err op) (hcmp : LeavesLists P id err cmp)
    (hnodeOp : ∀ op ∈ nodeOp, LeavesLists P (fun _ => ()) err op) (hrespects : P.Respects view)
    {done rest : List (Addr × α)} {cur : Addr} {rounds : Nat}
    (hbeside : Beside P S m ptr size (done ++ rest))
    (hcur : (rest.map Prod.fst ++ [ptr]).head? = some cur) (hrounds : rest.length < rounds) :
    Meets (fun result => m.Keeps S result.2 ∧
      ∃ kept, (listShape view kept).Sublist (listShape view rest) ∧
        Beside P S result.2 ptr size (done ++ kept)) err
      (travelDeleteFrom op cmp nodeOp ptr rounds cur m) := by
  induction rest generalizing m done cur rounds with
  | nil =>
      obtain ⟨rounds, rfl⟩ : ∃ k, rounds = k + 1 := ⟨rounds - 1, by simp at hrounds; omega⟩
      cases hcur
      rw [travelDeleteFrom, if_pos rfl]
      exact ⟨.refl, [], List.Sublist.refl _, hbeside⟩
  | cons node rest ih =>
      obtain ⟨a, x⟩ := node
      rw [List.length_cons] at hrounds
      obtain ⟨rounds, rfl⟩ : ∃ k, rounds = k + 1 := ⟨rounds - 1, by omega⟩
      cases hcur
      rw [travelDeleteFrom, if_neg hbeside.isList.cursor.1]
      apply (hop.on_node hrespects hbeside).run_bind
      rintro flag m₁ ⟨y, hview, hbeside₁, hkeeps₁⟩
      obtain ⟨_, next, hnext, hhead⟩ := hbeside₁.isList.cursor
      rw [run_bind (readNext_ok (hbeside₁.isList.live a (by simp)) hnext)]
      apply (deleteMatch_meets view hcmp hnodeOp hbeside₁).run_bind
      rintro _ m₂ ⟨kept₂, hshape₂, hbeside₂, hkeeps₂⟩
      have hshape : (listShape view kept₂).Sublist (listShape view [(a, x)]) := by
        simpa [listShape, hview] using hshape₂
      by_cases hbreak : flag = llistTravelBreak
      · rw [if_pos hbreak]
        refine ⟨hkeeps₁.trans hkeeps₂, kept₂ ++ rest, ?_, by rwa [← List.append_assoc]⟩
        rw [listShape_append, ← List.singleton_append, listShape_append]
        exact hshape.append (List.Sublist.refl _)
      · rw [if_neg hbreak]
        refine (ih hbeside₂ hhead (by omega)).mono ?_
        rintro ⟨_, m'⟩ ⟨hkeeps', kept, hshape', hbeside'⟩
        refine ⟨(hkeeps₁.trans hkeeps₂).trans hkeeps', kept₂ ++ kept, ?_,
          by rwa [← List.append_assoc]⟩
        rw [listShape_append, ← List.singleton_append, listShape_append]
        exact hshape.append hshape'

/-! ### Freeing all nodes -/

/-- While nodes are freed from the front: `rest` remains, and nothing but the others is gone. -/
def Draining (P : Ground α) (nodes : List (Addr × α)) (m : Mem α σ) (rest : List (Addr × α))
    (m' : Mem α σ) : Prop :=
  ∃ done, nodes = done ++ rest ∧ m.Keeps (P.blocks \ {b | b ∈ done.map Prod.fst}) m'

section Draining

variable {m' : Mem α σ} {rest : List (Addr × α)} {node : Addr × α}

theorem Draining.remains (hbeside : Beside P S m ptr size nodes)
    (hdraining : Draining P nodes m rest m') {b : Addr} (hb : b ∈ ptr :: rest.map Prod.fst) :
    b ∈ m'.live ∧ m'.block b = m.block b := by
  obtain ⟨done, rfl, hkeeps⟩ := hdraining
  have hmem : b ∈ ptr :: (done ++ rest).map Prod.fst := by
    simp only [List.map_append, List.mem_cons, List.mem_append] at hb ⊢
    tauto
  have hnodup := hbeside.isList.circular.nodup
  rw [List.map_append, List.nodup_cons, List.nodup_append] at hnodup
  refine hkeeps b ⟨hbeside.blocks b hmem, fun hgone => ?_⟩ (hbeside.isList.live b hmem)
  rcases List.mem_cons.mp hb with rfl | hb
  · exact hnodup.1 (List.mem_append_left _ hgone)
  · exact hnodup.2.2.2 b hgone b hb rfl

theorem Draining.linked (hbeside : Beside P S m ptr size nodes)
    (hdraining : Draining P nodes m (node :: rest) m') :
    node.1 ≠ ptr ∧ node.1 ∈ m'.live ∧ Linked m'.nextOf node.1 (rest.map Prod.fst) ptr := by
  have hremains := fun b hb => hdraining.remains (b := b) hbeside hb
  obtain ⟨done, rfl, _⟩ := hdraining
  have hcirc := hbeside.isList.circular
  rw [List.map_append, List.map_cons] at hcirc
  refine ⟨hbeside.isList.cursor.1, (hremains node.1 (by simp)).1, ?_⟩
  apply (Linked.append_cons_iff.mp hcirc.forth).2.congr
  intro b hb
  rw [Mem.nextOf, (hremains b (List.mem_cons_of_mem ptr hb)).2, Mem.nextOf]

theorem Draining.step (hop : ∀ op ∈ nodeOp, LeavesLists P view err op)
    (hbeside : Beside P S m ptr size nodes) (hdraining : Draining P nodes m (node :: rest) m') :
    Meets (fun result => node.1 ∈ result.2.live ∧ Draining P nodes m rest (result.2.freed node.1)) err
      (callNodeOp nodeOp node.1 m') := by
  obtain ⟨hlive, hblock⟩ := hdraining.remains hbeside (b := node.1) (by simp)
  obtain ⟨done, rfl, hkeeps⟩ := hdraining
  have hdata : m'.dataOf node.1 = some node.2 := by
    rw [Mem.dataOf, hblock]
    exact hbeside.isList.data node (by simp)
  refine (releaseNode_meets hop (hbeside.blocks _ (by simp)) (hbeside.payloads node (by simp)) hlive
    hdata).mono ?_
  rintro ⟨_, m''⟩ ⟨hlive', hfreed⟩
  refine ⟨hlive', done ++ [node], by simp, (hkeeps.mono ?_).trans (hfreed.mono ?_)⟩
  · rintro b ⟨hb, hout⟩
    exact ⟨hb, fun hgone => hout (by simpa using Or.inl hgone)⟩
  · rintro b ⟨hb, hout⟩
    exact ⟨hb, fun hgone => hout (by simp [Set.mem_singleton_iff.mp hgone])⟩

theorem Draining.done (hbeside : Beside P S m ptr size nodes)
    (hdraining : Draining P nodes m [] m') :
    ptr ∈ m'.live ∧ m'.sizeOf ptr = some size ∧ m.Keeps S m' := by
  obtain ⟨hlive, hblock⟩ := hdraining.remains hbeside (b := ptr) (by simp)
  refine ⟨hlive, ?_, ?_⟩
  · rw [Mem.sizeOf, hblock]
    exact hbeside.isList.size
  · obtain ⟨done, rfl, hkeeps⟩ := hdraining
    refine hkeeps.mono fun b hb => ⟨hbeside.others hb, fun hgone => ?_⟩
    exact hbeside.apart b (List.mem_cons_of_mem ptr (by simpa using hgone)) hb

end Draining

/-! ### The calls -/

theorem llistDelet_meets (hcmp : LeavesLists P id err cmp)
    (hop : ∀ op ∈ nodeOp, LeavesLists P view err op) (hbeside : Beside P S m ptr size nodes) :
    Meets (fun result => m.Keeps S result.2 ∧
      ((result.1 = -1 ∧ Beside P S result.2 ptr size nodes) ∨ ∃ us node vs, result.1 = 0 ∧
        nodes = us ++ node :: vs ∧ Beside P S result.2 ptr size (us ++ vs))) err
      (llistDelet ptr cmp nodeOp m) := by
  rw [llistDelet_eq]
  apply (findNode_split hcmp hbeside).run_bind
  rintro a m₁ ⟨hbeside₁, hkeeps₁, rfl | ⟨us, x, vs, hne, rfl⟩⟩
  · rw [if_pos rfl]
    exact ⟨hkeeps₁, Or.inl ⟨rfl, hbeside₁⟩⟩
  · have hbind : (do unlinkNode a; callNodeOp nodeOp a; freeBlock a; return 0 : MemM α σ Int)
        = (do unlinkNode a; callNodeOp nodeOp a; freeBlock a : MemM α σ Unit) >>= fun _ => pure 0 := by
      simp only [bind_assoc]
    rw [if_neg hne, hbind]
    apply (removeNode_meets hop hbeside₁).run_bind
    rintro _ m' ⟨hbeside', hkeeps'⟩
    exact ⟨hkeeps₁.trans hkeeps', Or.inr ⟨us, (a, x), vs, rfl, rfl, hbeside'⟩⟩

theorem llistFetch_meets (hcmp : LeavesLists P id err cmp) (hbeside : Beside P S m ptr size nodes)
    (hroom : nodes ≠ [] → 0 ≤ size) :
    Meets (fun result => m.Keeps S result.2 ∧
      ((result.1 = (-1, none) ∧ Beside P S result.2 ptr size nodes) ∨ ∃ us node vs,
        result.1 = (0, some node.2) ∧ nodes = us ++ node :: vs ∧
        Beside P S result.2 ptr size (us ++ vs))) err
      (llistFetch ptr cmp m) := by
  apply (findNode_split hcmp hbeside).run_bind
  rintro a m₁ ⟨hbeside₁, hkeeps₁, rfl | ⟨us, x, vs, hne, rfl⟩⟩
  · rw [if_pos rfl]
    exact ⟨hkeeps₁, Or.inl ⟨rfl, hbeside₁⟩⟩
  · obtain ⟨m', hfetch, hunlinked⟩ := fetchNode_ok hbeside₁.isList (hroom (by simp))
    rw [if_neg hne, hfetch]
    have hlist : (m'.freed a).IsList ptr size (us ++ vs) :=
      hunlinked.isList.freed hunlinked.notMem
    refine ⟨hkeeps₁.trans ?_, Or.inr ⟨us, (a, x), vs, rfl, rfl, hbeside₁.remove hlist⟩⟩
    have hkeeps := Mem.Keeps.of_sameOff hunlinked.same (S := S)
      (fun b _ hb => hunlinked.live ▸ hb) fun b hb hmem => hbeside₁.apart b hmem hb
    exact (hkeeps.freed a).mono fun b hb => ⟨hb, (hbeside₁.others_sub hb).2⟩

theorem llistFind_meets (hcmp : LeavesLists P id err cmp) (hbeside : Beside P S m ptr size nodes) :
    Meets (fun result => m.Keeps S result.2 ∧ Beside P S result.2 ptr size nodes ∧
      (result.1 = none ∨ ∃ node ∈ nodes, result.1 = some node.1)) err
      (llistFind ptr cmp m) := by
  apply (findNode_meets hcmp hbeside).run_bind
  rintro a m₁ ⟨hbeside₁, hkeeps₁, hfound⟩
  by_cases hhead : a = ptr
  · rw [if_pos hhead]
    exact ⟨hkeeps₁, hbeside₁, Or.inl rfl⟩
  · rw [if_neg hhead]
    obtain ⟨node, hnode, rfl⟩ := List.mem_map.mp (hfound.resolve_left hhead)
    exact ⟨hkeeps₁, hbeside₁, Or.inr ⟨node, hnode, rfl⟩⟩

theorem llistCheck_meets {nodeCheck : Option (LlistNodeCheck α σ)}
    (hcheck : ∀ f ∈ nodeCheck, LeavesLists P view err f) (hrespects : P.Respects view)
    (hbeside : Beside P S m ptr size nodes) (hcount : (nodes.length : Int) ≤ intMax) :
    Meets (fun result => result.1 = (nodes.length : Int) ∧ m.Keeps S result.2 ∧
      ∃ kept, (listShape view kept).Sublist (listShape view nodes) ∧
        Beside P S result.2 ptr size kept) err
      (llistCheck (some ptr) nodeCheck m) := by
  have hlist := hbeside.isList
  obtain ⟨cur, hcur⟩ := hlist.circular.forth.exists_next
  rw [llistCheck, run_bind loopBound_ok, run_bind (readNext_ok hlist.head_live hcur)]
  have hstart : Beside P S m ptr size ([] ++ nodes) := hbeside
  refine (checkFrom_meets (n := 0) hcheck hrespects hstart
    (hlist.circular.next_head.symm.trans hcur) hlist.length_lt_card (by omega)).mono ?_
  rintro ⟨r, m'⟩ ⟨hr, hkeeps, kept, hshape, hbeside'⟩
  exact ⟨by simpa using hr, hkeeps, kept, hshape, hbeside'⟩

theorem llistTravelDelete_meets (hop : LeavesLists P view err op) (hcmp : LeavesLists P id err cmp)
    (hnodeOp : ∀ op ∈ nodeOp, LeavesLists P (fun _ => ()) err op) (hrespects : P.Respects view)
    (hbeside : Beside P S m ptr size nodes) :
    Meets (fun result => m.Keeps S result.2 ∧
      ∃ kept, (listShape view kept).Sublist (listShape view nodes) ∧
        Beside P S result.2 ptr size kept) err
      (llistTravelDelete (some ptr) op cmp nodeOp m) := by
  have hlist := hbeside.isList
  obtain ⟨cur, hcur⟩ := hlist.circular.forth.exists_next
  rw [llistTravelDelete, run_bind loopBound_ok, run_bind (readNext_ok hlist.head_live hcur)]
  have hstart : Beside P S m ptr size ([] ++ nodes) := hbeside
  exact travelDeleteFrom_meets hop hcmp hnodeOp hrespects hstart
    (hlist.circular.next_head.symm.trans hcur) hlist.length_lt_card

theorem llistClear_beside (hop : ∀ op ∈ nodeOp, LeavesLists P view err op)
    (hbeside : Beside P S m ptr size nodes) (hcount : (nodes.length : Int) ≤ intMax) :
    Meets (fun result => result.1 = (nodes.length : Int) ∧ m.Keeps S result.2 ∧
      Beside P S result.2 ptr size []) err (llistClear ptr nodeOp m) := by
  refine (llistClear_meets (Draining P nodes m) hbeside.isList hcount
    (fun node rest m' hdraining => hdraining.linked hbeside)
    (fun node rest m' hdraining => hdraining.step hop hbeside) ⟨[], rfl, .refl⟩
    fun m' hdraining => ⟨(hdraining.done hbeside).1, (hdraining.done hbeside).2.1⟩).mono ?_
  rintro ⟨r, _⟩ ⟨hr, m', hdraining, rfl, hlist⟩
  refine ⟨hr, fun b hb hlive => ?_, hlist, ?_, by simp, hbeside.others, ?_⟩
  · obtain ⟨hlive', hblock⟩ := (hdraining.done hbeside).2.2 b hb hlive
    have hne : b ≠ ptr := fun h => hbeside.apart ptr (by simp) (h ▸ hb)
    refine ⟨hlive', ?_⟩
    rw [Mem.block_setPrev_of_ne _ _ _ hne, Mem.block_setNext_of_ne _ _ _ hne, hblock]
  · intro b hb
    exact hbeside.blocks b (by simp_all)
  · intro b hb
    exact hbeside.apart b (by simp_all)

theorem llistDestroy_beside (hop : ∀ op ∈ nodeOp, LeavesLists P view err op)
    (hbeside : Beside P S m ptr size nodes) :
    Meets (fun result => m.Keeps S result.2) err (llistDestroy (some ptr) nodeOp m) := by
  refine (llistDestroy_meets (Draining P nodes m) hbeside.isList
    (fun node rest m' hdraining => hdraining.linked hbeside)
    (fun node rest m' hdraining => hdraining.step hop hbeside) ⟨[], rfl, .refl⟩
    fun m' hdraining => (hdraining.done hbeside).1).mono ?_
  rintro ⟨_, _⟩ ⟨m', hdraining, rfl⟩
  have hkeeps := (hdraining.done hbeside).2.2.freed ptr
  refine hkeeps.mono fun b hb => ⟨hb, ?_⟩
  rintro rfl
  exact hbeside.apart b (by simp) hb

end Walk

end Gittest
