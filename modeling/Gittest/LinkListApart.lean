import Gittest.Lib.Calls
import Gittest.LinkListSequence
import Gittest.Proof.LinkListWalk

/-!
# Linked lists that share a heap

Any number of lists with different blocks, and calls on them in any order. A call changes the list it is
made on, and what it leaves of it keeps its addresses and its payloads; all others stay as they are. The
limits are of `int`: the one that `llist_check` and `llist_clear` count with, and a negative size, of
which no payload can be copied.
-/

namespace Gittest

open Calls Outcome

variable {ι α γ σ : Type}

structure LlistState (α : Type) where
  size : Int
  nodes : List (Addr × α)

def LlistState.blocks (ptr : Addr) (l : LlistState α) : List Addr := ptr :: l.nodes.map Prod.fst

/-- The heap holds these lists, the `i`-th one at `ptr i`, their nodes have room for a payload, and no
block is in two of them. -/
structure HoldsLists (ptr : ι → Addr) (m : Mem α σ) (lists : ι → Option (LlistState α)) : Prop where
  isList : ∀ i l, lists i = some l → m.IsList (ptr i) l.size l.nodes
  room : ∀ i l, lists i = some l → l.nodes ≠ [] → 0 ≤ l.size
  apart : ∀ i j k l, i ≠ j → lists i = some k → lists j = some l →
    ∀ b ∈ k.blocks (ptr i), b ∉ l.blocks (ptr j)

/-- The blocks of the lists, and what the payloads of their nodes may be if they are told apart by
`view`. -/
def listsGround (view : α → γ) (ptr : ι → Addr) (lists : ι → Option (LlistState α)) : Ground α where
  blocks := {b | ∃ i l, lists i = some l ∧ b ∈ l.blocks (ptr i)}
  payloads a := {x | ∃ i l y, lists i = some l ∧ (a, y) ∈ l.nodes ∧ view x = view y}

def otherBlocks (ptr : ι → Addr) (lists : ι → Option (LlistState α)) (i : ι) : Set Addr :=
  {b | ∃ j l, j ≠ i ∧ lists j = some l ∧ b ∈ l.blocks (ptr j)}

/-! ### Calls -/

inductive ListCall (α σ : Type) where
  | insert (data : α) (mode : Int)
  | find (cmp : LlistCmp α σ)
  | delet (cmp : LlistCmp α σ) (nodeOp : Option (LlistNodeOp α σ))
  | fetch (cmp : LlistCmp α σ)
  | check (nodeCheck : Option (LlistNodeCheck α σ))
  | travelDelete (op : LlistOp α σ) (cmp : LlistCmp α σ) (nodeOp : Option (LlistNodeOp α σ))
  | clear (nodeOp : Option (LlistNodeOp α σ))
  | destroy (nodeOp : Option (LlistNodeOp α σ))

def ListCall.run (alloc : Allocator) (ptr : Addr) : ListCall α σ → MemM α σ (LlistResult α)
  | .insert data mode => do return .code (← llistInsert alloc ptr data mode)
  | .find cmp => do return .found (← llistFind ptr cmp)
  | .delet cmp nodeOp => do return .code (← llistDelet ptr cmp nodeOp)
  | .fetch cmp => do
      let (ret, data) ← llistFetch ptr cmp
      return .fetched ret data
  | .check nodeCheck => do return .code (← llistCheck (some ptr) nodeCheck)
  | .travelDelete op cmp nodeOp => do
      llistTravelDelete (some ptr) op cmp nodeOp
      return .done
  | .clear nodeOp => do return .code (← llistClear ptr nodeOp)
  | .destroy nodeOp => do
      llistDestroy (some ptr) nodeOp
      return .done

/-- A call on the `i`-th list. -/
def ListCall.exec (alloc : Allocator) (ptr : ι → Addr) (m : Mem α σ) (call : ι × ListCall α σ) :
    Except Fault (LlistResult α × Mem α σ) :=
  call.2.run alloc (ptr call.1) m

/-- The callbacks leave the lists alone: `cmp` altogether, `op` and `node_check` but for what `view`
does not see of a payload, and `node_op` but for the payload. -/
def ListCall.KeepsOff (P : Ground α) (view : α → γ) (err : Fault → Prop) : ListCall α σ → Prop
  | .insert _ _ => True
  | .find cmp => LeavesLists P id err cmp
  | .delet cmp nodeOp =>
      LeavesLists P id err cmp ∧ ∀ f ∈ nodeOp, LeavesLists P (fun _ => ()) err f
  | .fetch cmp => LeavesLists P id err cmp
  | .check nodeCheck => ∀ f ∈ nodeCheck, LeavesLists P view err f
  | .travelDelete op cmp nodeOp => LeavesLists P view err op ∧ LeavesLists P id err cmp ∧
      ∀ f ∈ nodeOp, LeavesLists P (fun _ => ()) err f
  | .clear nodeOp => ∀ f ∈ nodeOp, LeavesLists P (fun _ => ()) err f
  | .destroy nodeOp => ∀ f ∈ nodeOp, LeavesLists P (fun _ => ()) err f

/-- A payload that has a size and a mode that `llist_insert` knows, and no more nodes than an `int`
counts. -/
def ListCall.Legal (l : LlistState α) : ListCall α σ → Prop
  | .insert _ mode => 0 ≤ l.size ∧ (mode = llistForward ∨ mode = llistBackward)
  | .check _ => (l.nodes.length : Int) ≤ intMax
  | .clear _ => (l.nodes.length : Int) ≤ intMax
  | _ => True

/-- What a call may make of the list it is made on; `blocks` are those of all the lists. -/
def ListCall.Allows (mayFail : Prop) (view : α → γ) (blocks : Set Addr) (l : LlistState α) :
    ListCall α σ → LlistResult α → Option (LlistState α) → Prop
  | .insert data mode, result, l' =>
      (∃ a, a ∉ blocks ∧ result = .code 0 ∧ l' = some ⟨l.size,
        if mode = llistForward then (a, data) :: l.nodes else l.nodes ++ [(a, data)]⟩) ∨
      mayFail ∧ result = .code (-1) ∧ l' = some l
  | .find _, result, l' =>
      (result = .found none ∨ ∃ node ∈ l.nodes, result = .found (some node.1)) ∧ l' = some l
  | .delet _ _, result, l' =>
      (result = .code (-1) ∧ l' = some l) ∨ ∃ us node vs, result = .code 0 ∧
        l.nodes = us ++ node :: vs ∧ l' = some ⟨l.size, us ++ vs⟩
  | .fetch _, result, l' =>
      (result = .fetched (-1) none ∧ l' = some l) ∨ ∃ us node vs, result = .fetched 0 (some node.2) ∧
        l.nodes = us ++ node :: vs ∧ l' = some ⟨l.size, us ++ vs⟩
  | .check _, result, l' => result = .code l.nodes.length ∧ ∃ kept,
      (listShape view kept).Sublist (listShape view l.nodes) ∧ l' = some ⟨l.size, kept⟩
  | .travelDelete _ _ _, result, l' => result = .done ∧ ∃ kept,
      (listShape view kept).Sublist (listShape view l.nodes) ∧ l' = some ⟨l.size, kept⟩
  | .clear _, result, l' => result = .code l.nodes.length ∧ l' = some ⟨l.size, []⟩
  | .destroy _, result, l' => result = .done ∧ l' = none

/-- The list of the call has not been destroyed, and the call is a proper one. -/
def ListCall.Valid (view : α → γ) (err : Fault → Prop) (ptr : ι → Addr)
    (lists : ι → Option (LlistState α)) (call : ι × ListCall α σ) : Prop :=
  ∃ l, lists call.1 = some l ∧ call.2.Legal l ∧ call.2.KeepsOff (listsGround view ptr lists) view err

/-- The call changes its list as it may, and no other. -/
def ListCall.Step [DecidableEq ι] (alloc : Allocator) (view : α → γ) (ptr : ι → Addr)
    (lists : ι → Option (LlistState α)) (call : ι × ListCall α σ) (result : LlistResult α)
    (lists' : ι → Option (LlistState α)) : Prop :=
  ∃ l l', lists call.1 = some l ∧
    call.2.Allows (alloc.MayFail (16 + l.size)) view (listsGround view ptr lists).blocks l result l' ∧
    lists' = Function.update lists call.1 l'

section Step

variable [DecidableEq ι] {ptr : ι → Addr} {m m' : Mem α σ} {lists : ι → Option (LlistState α)} {i : ι}
  {l : LlistState α} {view : α → γ} {err : Fault → Prop} {alloc : Allocator}

omit [DecidableEq ι] in
variable (ptr lists view) in
theorem listsGround_respects : (listsGround view ptr lists).Respects view := by
  rintro a x y hview ⟨i, l, z, hl, hmem, hx⟩
  exact ⟨i, l, z, hl, hmem, hview.trans hx⟩

omit [DecidableEq ι] in
variable (view) in
theorem HoldsLists.beside (hholds : HoldsLists ptr m lists) (hl : lists i = some l) :
    Beside (listsGround view ptr lists) (otherBlocks ptr lists i) m (ptr i) l.size l.nodes where
  isList := hholds.isList i l hl
  blocks := fun b hb => ⟨i, l, hl, hb⟩
  payloads := fun node hmem => ⟨i, l, node.2, hl, hmem, rfl⟩
  others := by
    rintro b ⟨j, k, _, hk, hb⟩
    exact ⟨j, k, hk, hb⟩
  apart := by
    rintro b hb ⟨j, k, hne, hk, hb'⟩
    exact hholds.apart i j l k hne.symm hl hk b hb hb'

/-- What is left to see of the heap after a call is the list it was made on. -/
theorem HoldsLists.update (hholds : HoldsLists ptr m lists) (i : ι) {l' : Option (LlistState α)}
    (hkeeps : m.Keeps (otherBlocks ptr lists i) m')
    (hlist : ∀ k, l' = some k → m'.IsList (ptr i) k.size k.nodes ∧ (k.nodes ≠ [] → 0 ≤ k.size) ∧
      ∀ b ∈ k.blocks (ptr i), b ∉ otherBlocks ptr lists i) :
    HoldsLists ptr m' (Function.update lists i l') where
  isList := by
    intro j k hk
    by_cases hj : j = i
    · subst hj
      rw [Function.update_self] at hk
      exact (hlist k hk).1
    · rw [Function.update_of_ne hj] at hk
      exact hkeeps.isList (hholds.isList j k hk) fun b hb => ⟨j, k, hj, hk, hb⟩
  room := by
    intro j k hk
    by_cases hj : j = i
    · subst hj
      rw [Function.update_self] at hk
      exact (hlist k hk).2.1
    · rw [Function.update_of_ne hj] at hk
      exact hholds.room j k hk
  apart := by
    intro j₁ j₂ k₁ k₂ hne hk₁ hk₂ b hb₁ hb₂
    by_cases hj₁ : j₁ = i
    · subst hj₁
      rw [Function.update_self] at hk₁
      rw [Function.update_of_ne hne.symm] at hk₂
      exact (hlist k₁ hk₁).2.2 b hb₁ ⟨j₂, k₂, hne.symm, hk₂, hb₂⟩
    · rw [Function.update_of_ne hj₁] at hk₁
      by_cases hj₂ : j₂ = i
      · subst hj₂
        rw [Function.update_self] at hk₂
        exact (hlist k₂ hk₂).2.2 b hb₂ ⟨j₁, k₁, hj₁, hk₁, hb₁⟩
      · rw [Function.update_of_ne hj₂] at hk₂
        exact hholds.apart j₁ j₂ k₁ k₂ hne hk₁ hk₂ b hb₁ hb₂

theorem HoldsLists.update_beside (hholds : HoldsLists ptr m lists) {nodes : List (Addr × α)}
    {P : Ground α} (hroom : nodes ≠ [] → 0 ≤ l.size) (hkeeps : m.Keeps (otherBlocks ptr lists i) m')
    (hbeside : Beside P (otherBlocks ptr lists i) m' (ptr i) l.size nodes) :
    HoldsLists ptr m' (Function.update lists i (some ⟨l.size, nodes⟩)) := by
  apply hholds.update i hkeeps
  rintro k hk
  cases hk
  exact ⟨hbeside.isList, hroom, hbeside.apart⟩

omit [DecidableEq ι] in
theorem HoldsLists.room_of_sublist (hholds : HoldsLists ptr m lists) (hl : lists i = some l)
    {kept : List (Addr × α)} (hshape : (listShape view kept).Sublist (listShape view l.nodes))
    (hne : kept ≠ []) : 0 ≤ l.size := by
  refine hholds.room i l hl fun hnil => hne ?_
  rw [hnil] at hshape
  exact List.map_eq_nil_iff.mp (List.sublist_nil.mp hshape)

theorem HoldsLists.run_insert (hholds : HoldsLists ptr m lists) (hl : lists i = some l) (x : α)
    (hsize : 0 ≤ l.size) {mode : Int} (hmode : mode = llistForward ∨ mode = llistBackward) :
    Meets (fun result => ∃ l', (ListCall.insert x mode : ListCall α σ).Allows
        (alloc.MayFail (16 + l.size)) view (listsGround view ptr lists).blocks l result.1 l' ∧
      HoldsLists ptr result.2 (Function.update lists i l')) err
      ((ListCall.insert x mode).run alloc (ptr i) m) := by
  have hlist := hholds.isList i l hl
  have hbeside := hholds.beside view hl
  cases hanswer : m.answer alloc (16 + l.size) with
  | none =>
      rw [ListCall.run, run_bind (llistInsert_refused hlist x mode hanswer)]
      refine ⟨some l, Or.inr ⟨Mem.mayFail_of_answer hanswer, rfl, rfl⟩, ?_⟩
      exact hholds.update_beside (hholds.room i l hl) (fun _ _ hlive => ⟨hlive, rfl⟩)
        (hbeside.frame fun _ _ hlive => ⟨hlive, rfl⟩)
  | some a =>
      have hfresh : ∀ b ∈ (listsGround view ptr lists).blocks, b ≠ a := by
        rintro b ⟨j, k, hk, hb⟩ rfl
        exact Mem.answer_fresh hanswer ((hholds.isList j k hk).live b hb)
      obtain ⟨m', hinsert, hinserted⟩ : ∃ m', llistInsert alloc (ptr i) x mode m = .ok (0, m') ∧
          Inserted m m' (ptr i) a l.size l.nodes
            (if mode = llistForward then (a, x) :: l.nodes else l.nodes ++ [(a, x)]) := by
        rcases hmode with rfl | rfl
        · exact llistInsert_forward hlist hsize x hanswer
        · exact llistInsert_backward hlist hsize x hanswer
      rw [ListCall.run, run_bind hinsert]
      refine ⟨_, Or.inl ⟨a, fun h => hfresh a h rfl, rfl, rfl⟩, ?_⟩
      apply hholds.update i
      · refine Mem.Keeps.of_sameOff hinserted.same (fun b _ hb => ?_) fun b hb hmem => ?_
        · rw [hinserted.live]
          exact Finset.mem_insert_of_mem hb
        · rcases List.mem_cons.mp hmem with rfl | hmem
          · exact hfresh b (hbeside.others hb) rfl
          · exact hbeside.apart b hmem hb
      · rintro k hk
        cases hk
        refine ⟨hinserted.isList, fun _ => hsize, fun b hb hothers => ?_⟩
        have hold : b = a ∨ b ∈ ptr i :: l.nodes.map Prod.fst := by
          simp only [LlistState.blocks] at hb
          split at hb
          all_goals
            simp only [List.map_cons, List.map_append, List.map_nil, List.mem_cons, List.mem_append,
              List.not_mem_nil, or_false] at hb ⊢
            tauto
        rcases hold with rfl | hold
        · exact hfresh b (hbeside.others hothers) rfl
        · exact hbeside.apart b hold hothers

/-- **One call.** The list it is made on is as the call allows, and the others are as they were. -/
theorem HoldsLists.run_call (hholds : HoldsLists ptr m lists) (hl : lists i = some l)
    {call : ListCall α σ} (hlegal : call.Legal l)
    (hkeeps : call.KeepsOff (listsGround view ptr lists) view err) :
    Meets (fun result => ∃ l', call.Allows (alloc.MayFail (16 + l.size)) view
        (listsGround view ptr lists).blocks l result.1 l' ∧
      HoldsLists ptr result.2 (Function.update lists i l')) err (call.run alloc (ptr i) m) := by
  have hbeside := hholds.beside view hl
  have hroom := hholds.room i l hl
  have hrespects := listsGround_respects ptr lists view
  cases call with
  | insert x mode => exact hholds.run_insert hl x hlegal.1 hlegal.2
  | find cmp =>
      apply (llistFind_meets hkeeps hbeside).run_bind
      rintro r m' ⟨hothers, hbeside', hfound⟩
      refine ⟨some l, ⟨?_, rfl⟩, hholds.update_beside hroom hothers hbeside'⟩
      rcases hfound with rfl | ⟨node, hmem, rfl⟩
      · exact Or.inl rfl
      · exact Or.inr ⟨node, hmem, rfl⟩
  | delet cmp nodeOp =>
      apply (llistDelet_meets hkeeps.1 hkeeps.2 hbeside).run_bind
      rintro r m' ⟨hothers, ⟨rfl, hbeside'⟩ | ⟨us, node, vs, rfl, hnodes, hbeside'⟩⟩
      · exact ⟨some l, Or.inl ⟨rfl, rfl⟩, hholds.update_beside hroom hothers hbeside'⟩
      · exact ⟨_, Or.inr ⟨us, node, vs, rfl, hnodes, rfl⟩,
          hholds.update_beside (fun _ => hroom (by simp [hnodes])) hothers hbeside'⟩
  | fetch cmp =>
      apply (llistFetch_meets hkeeps hbeside hroom).run_bind
      rintro r m' ⟨hothers, ⟨rfl, hbeside'⟩ | ⟨us, node, vs, rfl, hnodes, hbeside'⟩⟩
      · exact ⟨some l, Or.inl ⟨rfl, rfl⟩, hholds.update_beside hroom hothers hbeside'⟩
      · exact ⟨_, Or.inr ⟨us, node, vs, rfl, hnodes, rfl⟩,
          hholds.update_beside (fun _ => hroom (by simp [hnodes])) hothers hbeside'⟩
  | check nodeCheck =>
      apply (llistCheck_meets hkeeps hrespects hbeside hlegal).run_bind
      rintro r m' ⟨rfl, hothers, kept, hshape, hbeside'⟩
      exact ⟨_, ⟨rfl, kept, hshape, rfl⟩,
        hholds.update_beside (hholds.room_of_sublist hl hshape) hothers hbeside'⟩
  | travelDelete op cmp nodeOp =>
      obtain ⟨hop, hcmp, hnodeOp⟩ := hkeeps
      apply (llistTravelDelete_meets hop hcmp hnodeOp hrespects hbeside).run_bind
      rintro r m' ⟨hothers, kept, hshape, hbeside'⟩
      exact ⟨_, ⟨rfl, kept, hshape, rfl⟩,
        hholds.update_beside (hholds.room_of_sublist hl hshape) hothers hbeside'⟩
  | clear nodeOp =>
      apply (llistClear_beside hkeeps hbeside hlegal).run_bind
      rintro r m' ⟨rfl, hothers, hbeside'⟩
      exact ⟨_, ⟨rfl, rfl⟩, hholds.update_beside (fun hne => absurd rfl hne) hothers hbeside'⟩
  | destroy nodeOp =>
      apply (llistDestroy_beside hkeeps hbeside).run_bind
      rintro r m' hothers
      refine ⟨none, ⟨rfl, rfl⟩, hholds.update i hothers ?_⟩
      rintro k hk
      cases hk

/-- `llist_creat` puts another list beside the ones there are. -/
theorem HoldsLists.creat (hholds : HoldsLists ptr m lists) {size : Int}
    (hmade : llistCreat alloc size m = .ok (some (ptr i), m')) :
    HoldsLists ptr m' (Function.update lists i (some ⟨size, []⟩)) := by
  obtain ⟨hlist, hnew, hlive, hsame, _⟩ := llistCreat_some hmade
  have hold : ∀ b ∈ otherBlocks ptr lists i, b ∈ m.live := by
    rintro b ⟨j, k, _, hk, hb⟩
    exact (hholds.isList j k hk).live b hb
  have hoff : ∀ b ∈ otherBlocks ptr lists i, b ≠ ptr i := fun b hb h => hnew (h ▸ hold b hb)
  apply hholds.update i
  · refine Mem.Keeps.of_sameOff hsame (fun b _ hb => ?_) fun b hb => by simpa using hoff b hb
    rw [hlive]
    exact Finset.mem_insert_of_mem hb
  · rintro k hk
    cases hk
    refine ⟨hlist, fun hne => absurd rfl hne, fun b hb hothers => hoff b hothers ?_⟩
    simpa [LlistState.blocks] using hb

end Step

/-- **Lists that share a heap.** Calls on any number of lists run to the end, or to the first one that
is not valid where it is made. Each changes the list it is made on as it may, keeping what it leaves of
it, and no other; the lists stay well-formed and apart. Nothing fails but the callbacks. -/
theorem lists_apart [DecidableEq ι] {alloc : Allocator} {ptr : ι → Addr} {m : Mem α σ}
    {lists : ι → Option (LlistState α)} (hholds : HoldsLists ptr m lists) (view : α → γ)
    (err : Fault → Prop) (calls : List (ι × ListCall α σ)) :
    ∃ pre post, calls = pre ++ post ∧ Meets (fun result => ∃ lists',
      Follows (ListCall.Step alloc view ptr) lists pre result.1 lists' ∧
      HoldsLists ptr result.2 lists' ∧
      ∀ call ∈ post.head?, ¬ListCall.Valid view err ptr lists' call) err
      (runCalls (ListCall.exec alloc ptr) m pre) := by
  have hstep : ∀ (m : Mem α σ) lists (call : ι × ListCall α σ), HoldsLists ptr m lists →
      ListCall.Valid view err ptr lists call →
      Meets (fun result => ∃ lists', ListCall.Step alloc view ptr lists call result.1 lists' ∧
        HoldsLists ptr result.2 lists') err (ListCall.exec alloc ptr m call) := by
    rintro m lists call hholds ⟨l, hl, hlegal, hkeeps⟩
    refine (hholds.run_call hl hlegal hkeeps).mono ?_
    rintro ⟨r, m'⟩ ⟨l', hallows, hholds'⟩
    exact ⟨_, ⟨l, l', hl, hallows, rfl⟩, hholds'⟩
  exact runCalls_follows_meets hstep hholds calls

theorem lists_apart_pair : ∃ m : Mem Nat Unit,
    let ptr : Bool → Addr := fun i => if i then 1 else 2
    let lists : Bool → Option (LlistState Nat) :=
      Function.update (Function.update (fun _ => none) true (some ⟨4, []⟩)) false (some ⟨8, []⟩)
    HoldsLists ptr m lists ∧
    ∃ pre post,
      [(true, .insert 7 llistForward), (false, .insert 8 llistBackward), (true, .destroy none),
        (false, .check none)] = pre ++ post ∧
      Meets (fun result => ∃ lists',
        Follows (ListCall.Step nextAddress id ptr) lists pre result.1 lists' ∧
        HoldsLists ptr result.2 lists' ∧
        ∀ call ∈ post.head?, ¬ListCall.Valid id (fun _ => False) ptr lists' call) (fun _ => False)
        (runCalls (ListCall.exec nextAddress ptr) m pre) := by
  have hempty : HoldsLists (fun i => if i then 1 else 2) (.empty () : Mem Nat Unit)
      fun _ : Bool => none := ⟨by simp, by simp, by simp⟩
  obtain ⟨m₁, hmade₁⟩ : ∃ m : Mem Nat Unit,
      llistCreat nextAddress 4 (.empty ()) = .ok (some 1, m) := ⟨_, rfl⟩
  obtain ⟨m₂, hmade₂⟩ : ∃ m : Mem Nat Unit, llistCreat nextAddress 8 m₁ = .ok (some 2, m) := by
    cases hmade₁
    exact ⟨_, rfl⟩
  have hholds := (hempty.creat (i := true) hmade₁).creat (i := false) hmade₂
  exact ⟨m₂, hholds, lists_apart hholds id (fun _ => False) _⟩

/-! ### The limits -/

/-- After 2^31 insertions `llist_check` counts more nodes than its `int` can; and an insertion into a
list of negative size overruns the node it gets. -/
theorem list_call_exceeds_int : (∃ (m m' : Mem Unit Unit) (l : LlistState Unit),
    llistCreat nextAddress 0 (.empty ()) = .ok (some 1, m) ∧
    (∃ results, runCalls (LlistCall.exec nextAddress 1) m
      (List.replicate 2147483648 (.insert () llistForward)) = .ok (results, m')) ∧
    HoldsLists (fun _ : Unit => 1) m' (fun _ => some l) ∧
    ListCall.exec nextAddress (fun _ : Unit => 1) m' ((), .check none) = .error .signedOverflow) ∧
    ∃ m : Mem Unit Unit, llistCreat nextAddress (-1) (.empty ()) = .ok (some 1, m) ∧
      HoldsLists (fun _ : Unit => 1) m (fun _ => some ⟨-1, []⟩) ∧
      ListCall.exec nextAddress (fun _ : Unit => 1) m ((), .insert () llistForward)
        = .error .overrun := by
  have hone : ∀ {m : Mem Unit Unit} {l : LlistState Unit}, m.IsList 1 l.size l.nodes →
      (l.nodes ≠ [] → 0 ≤ l.size) → HoldsLists (fun _ : Unit => 1) m (fun _ => some l) := by
    intro m l hlist hroom
    refine ⟨fun i k hk => ?_, fun i k hk => ?_, fun i j k l hne => absurd rfl hne⟩
    · cases hk
      exact hlist
    · cases hk
      exact hroom
  constructor
  · obtain ⟨m, m', results, t, hmade, hrun, hholds, hlength⟩ := exists_longList
    refine ⟨m, m', ⟨0, t.1⟩, hmade, ⟨results, hrun⟩, hone hholds.isList hholds.room, ?_⟩
    have hnone : ∀ cur, checkNode (none : Option (LlistNodeCheck Unit Unit)) cur = pure () :=
      fun _ => rfl
    rw [ListCall.exec, ListCall.run, run_bind_error]
    rw [llistCheck_keeping hnone, llistGetnum_eq hholds.isList, if_neg (by rw [hlength]; decide)]
  · obtain ⟨m, hmade, hlist, hinsert⟩ := llistInsert_negative
    refine ⟨m, hmade, hone hlist fun hne => absurd rfl hne, ?_⟩
    rw [ListCall.exec, ListCall.run, run_bind_error hinsert]

end Gittest
