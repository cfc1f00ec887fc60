import Gittest.Lib.Calls
import Gittest.Proof.LinkListOps

/-!
# The linked list as a sequence

Any sequence of calls on a list made by `llist_creat` behaves as the same calls on a sequence of
nodes, and the heap holds that sequence as a circular doubly linked list all along. There are two
limits, both of `int`: the one that `llist_getnum` and `llist_clear` count with, and the size of a
payload, which `llist_creat` takes negative as well.
-/

namespace Gittest

open Calls

variable {α σ : Type}

/-! ### Callbacks -/

/-- A pure `cmp` with its key: it reads the payload. -/
def comparePayload (f : α → Int) : LlistCmp α σ := fun node => do
  return f (← readData node)

def readEnv : MemM α σ σ := fun m => .ok (m.env, m)

def writeEnv (s : σ) : MemM α σ Unit := fun m => .ok ((), m.setEnv s)

/-- An `op` that may change the payload and the state outside the heap. -/
def applyOp (f : α → σ → Int × α × σ) : LlistOp α σ := fun node => do
  let x ← readData node
  let s ← readEnv
  writeData node (f x s).2.1
  writeEnv (f x s).2.2
  return (f x s).1

def applyNodeOp (f : α → σ → α × σ) : LlistNodeOp α σ := fun node => do
  let x ← readData node
  let s ← readEnv
  writeData node (f x s).1
  writeEnv (f x s).2

/-! ### Calls -/

inductive LlistCall (α σ : Type) where
  | insert (data : α) (mode : Int)
  | find (cmp : α → Int)
  | delet (cmp : α → Int) (nodeOp : Option (α → σ → α × σ))
  | fetch (cmp : α → Int)
  | getnum
  | travel (op : α → σ → Int × α × σ)
  | clear (nodeOp : Option (α → σ → α × σ))

inductive LlistResult (α : Type) where
  | code (ret : Int)
  | found (node : Option Addr)
  | fetched (ret : Int) (data : Option α)
  | done

def LlistCall.run (alloc : Allocator) (ptr : Addr) : LlistCall α σ → MemM α σ (LlistResult α)
  | .insert data mode => do return .code (← llistInsert alloc ptr data mode)
  | .find cmp => do return .found (← llistFind ptr (comparePayload cmp))
  | .delet cmp nodeOp => do
      return .code (← llistDelet ptr (comparePayload cmp) (nodeOp.map applyNodeOp))
  | .fetch cmp => do
      let (ret, data) ← llistFetch ptr (comparePayload cmp)
      return .fetched ret data
  | .getnum => do return .code (← llistGetnum ptr)
  | .travel op => do
      llistTravel ptr (applyOp op)
      return .done
  | .clear nodeOp => do return .code (← llistClear ptr (nodeOp.map applyNodeOp))

def LlistCall.exec (alloc : Allocator) (ptr : Addr) (m : Mem α σ) (call : LlistCall α σ) :
    Except Fault (LlistResult α × Mem α σ) :=
  call.run alloc ptr m

/-! ### The sequence -/

/-- A sequence of nodes, and the state outside the heap. -/
abbrev Sequence (α σ : Type) := List (Addr × α) × σ

/-- `op` on the nodes in order, up to the first one for which it returns `LLIST_TRAVEL_BREAK`. -/
def visit (op : α → σ → Int × α × σ) : List (Addr × α) → σ → Sequence α σ
  | [], s => ([], s)
  | (a, x) :: nodes, s =>
      if (op x s).1 = llistTravelBreak then
        ((a, (op x s).2.1) :: nodes, (op x s).2.2)
      else
        ((a, (op x s).2.1) :: (visit op nodes (op x s).2.2).1, (visit op nodes (op x s).2.2).2)

/-- What handing these nodes over to `node_op` leaves of the state outside the heap. -/
def release (nodeOp : Option (α → σ → α × σ)) (nodes : List (Addr × α)) (s : σ) : σ :=
  nodes.foldl (fun s node => match nodeOp with
    | none => s
    | some f => (f node.2 s).2) s

/-- What each call may do to the sequence; `mayFail` is whether `malloc` may return `NULL`. -/
def LlistCall.Allows (mayFail : Prop) (t : Sequence α σ) :
    LlistCall α σ → LlistResult α → Sequence α σ → Prop
  | .insert data mode, result, t' =>
      (∃ a, a ∉ t.1.map Prod.fst ∧ result = .code 0 ∧
        t' = (if mode = llistForward then (a, data) :: t.1 else t.1 ++ [(a, data)], t.2)) ∨
      mayFail ∧ result = .code (-1) ∧ t' = t
  | .find cmp, result, t' => result = .found ((t.1.find? (hits cmp)).map Prod.fst) ∧ t' = t
  | .delet cmp nodeOp, result, t' =>
      match t.1.find? (hits cmp) with
      | none => result = .code (-1) ∧ t' = t
      | some node =>
          result = .code 0 ∧ t' = (t.1.eraseP (hits cmp), release nodeOp [node] t.2)
  | .fetch cmp, result, t' =>
      match t.1.find? (hits cmp) with
      | none => result = .fetched (-1) none ∧ t' = t
      | some node => result = .fetched 0 (some node.2) ∧ t' = (t.1.eraseP (hits cmp), t.2)
  | .getnum, result, t' => result = .code t.1.length ∧ t' = t
  | .travel op, result, t' => result = .done ∧ t' = visit op t.1 t.2
  | .clear nodeOp, result, t' => result = .code t.1.length ∧ t' = ([], release nodeOp t.1 t.2)

/-- The modes that `llist_insert` knows. -/
def LlistCall.Legal : LlistCall α σ → Prop
  | .insert _ mode => mode = llistForward ∨ mode = llistBackward
  | _ => True

/-- The calls that the code cannot make: they count more nodes than an `int` can, or copy a negative
number of bytes into a node that got its memory. -/
def LlistCall.Exceeds (alloc : Allocator) (size : Int) (m : Mem α σ) (t : Sequence α σ) :
    LlistCall α σ → Prop
  | .insert _ _ => size < 0 ∧ ∃ a, m.answer alloc (16 + size) = some a
  | .getnum => intMax < t.1.length
  | .clear _ => intMax < t.1.length
  | _ => False

/-- Nodes have room for their payloads, so a list of negative size has none. -/
structure Holds (ptr : Addr) (size : Int) (m : Mem α σ) (t : Sequence α σ) : Prop where
  isList : m.IsList ptr size t.1
  room : t.1 ≠ [] → 0 ≤ size
  env : m.env = t.2

section Steps

variable {alloc : Allocator} {ptr : Addr} {size : Int} {m : Mem α σ} {t : Sequence α σ}
  {mayFail : Prop}

theorem comparePayload_ok (hlist : m.IsList ptr size t.1) (f : α → Int) :
    ∀ node ∈ t.1, comparePayload f node.1 m = .ok (f node.2, m) := by
  intro node hmem
  rw [comparePayload, run_bind (readData_ok (hlist.node_live hmem) (hlist.data node hmem))]
  rfl

theorem exec_find (hholds : Holds ptr size m t) (cmp : α → Int) :
    (LlistCall.find cmp).exec alloc ptr m
      = .ok (.found ((t.1.find? (hits cmp)).map Prod.fst), m) := by
  rw [LlistCall.exec, LlistCall.run,
    run_bind (llistFind_eq hholds.isList (comparePayload_ok hholds.isList cmp))]
  rfl

theorem exec_getnum (alloc : Allocator) (hholds : Holds ptr size m t) :
    LlistCall.getnum.exec alloc ptr m
      = if (t.1.length : Int) ≤ intMax then .ok (.code t.1.length, m)
        else .error .signedOverflow := by
  rw [LlistCall.exec, LlistCall.run]
  have hcount := llistGetnum_eq hholds.isList
  split at hcount
  · rename_i hle
    rw [if_pos hle, run_bind hcount]
    rfl
  · rename_i hlt
    rw [if_neg hlt, run_bind_error hcount]

theorem exec_insert (hholds : Holds ptr size m t) (x : α) {mode : Int}
    (hmode : mode = llistForward ∨ mode = llistBackward)
    (hroom : ¬(LlistCall.insert x mode).Exceeds alloc size m t)
    (hfail : m.answer alloc (16 + size) = none → mayFail) :
    ∃ result m' t', (LlistCall.insert x mode).exec alloc ptr m = .ok (result, m') ∧
      (LlistCall.insert x mode).Allows mayFail t result t' ∧ Holds ptr size m' t' := by
  cases hanswer : m.answer alloc (16 + size) with
  | none =>
      refine ⟨.code (-1), m.refused, t, ?_, Or.inr ⟨hfail hanswer, rfl, rfl⟩, ?_, hholds.room,
        hholds.env⟩
      · rw [LlistCall.exec, LlistCall.run,
          run_bind (llistInsert_refused hholds.isList x mode hanswer)]
        rfl
      · exact hholds.isList.refused
  | some a =>
      have hsize : 0 ≤ size := by
        by_contra hneg
        exact hroom ⟨by omega, a, hanswer⟩
      have hnew : a ∉ t.1.map Prod.fst := fun h =>
        Mem.answer_fresh hanswer (hholds.isList.live a (List.mem_cons_of_mem ptr h))
      rcases hmode with rfl | rfl
      · obtain ⟨m', hinsert, hinserted⟩ := llistInsert_forward hholds.isList hsize x hanswer
        refine ⟨.code 0, m', _, ?_, Or.inl ⟨a, hnew, rfl, rfl⟩, ?_, fun _ => hsize, ?_⟩
        · rw [LlistCall.exec, LlistCall.run, run_bind hinsert]
          rfl
        · exact hinserted.isList
        · exact hinserted.env.trans hholds.env
      · obtain ⟨m', hinsert, hinserted⟩ := llistInsert_backward hholds.isList hsize x hanswer
        refine ⟨.code 0, m', _, ?_, Or.inl ⟨a, hnew, rfl, rfl⟩, ?_, fun _ => hsize, ?_⟩
        · rw [LlistCall.exec, LlistCall.run, run_bind hinsert]
          rfl
        · exact hinserted.isList
        · exact hinserted.env.trans hholds.env

theorem callNodeOp_apply {a : Addr} {x : α} (nodeOp : Option (α → σ → α × σ)) (hlive : a ∈ m.live)
    (hdata : m.dataOf a = some x) :
    ∃ m', callNodeOp (nodeOp.map applyNodeOp) a m = .ok ((), m') ∧ m'.live = m.live ∧
      Mem.SameOff [a] m m' ∧ m'.nextOf = m.nextOf ∧ m'.sizeOf = m.sizeOf ∧
      m'.env = release nodeOp [(a, x)] m.env := by
  cases nodeOp with
  | none => exact ⟨m, rfl, rfl, fun _ _ => rfl, rfl, rfl, rfl⟩
  | some f =>
      refine ⟨(m.setData a (f x m.env).1).setEnv (f x m.env).2, ?_, rfl, ?_, ?_, ?_, rfl⟩
      · change applyNodeOp f a m = _
        rw [applyNodeOp, run_bind (readData_ok hlive hdata)]
        change (writeData a (f x m.env).1 >>= fun _ => writeEnv (f x m.env).2) m = _
        rw [run_bind (writeData_ok hlive)]
        rfl
      · intro b hb
        exact m.block_setData_of_ne a _ (by simpa using hb)
      · exact m.nextOf_setData a _
      · exact m.sizeOf_setData a _

theorem exec_delet (hholds : Holds ptr size m t) (cmp : α → Int)
    (nodeOp : Option (α → σ → α × σ)) :
    ∃ result m' t', (LlistCall.delet cmp nodeOp).exec alloc ptr m = .ok (result, m') ∧
      (LlistCall.delet cmp nodeOp).Allows mayFail t result t' ∧ Holds ptr size m' t' := by
  have hlist := hholds.isList
  have hcmp := comparePayload_ok hlist cmp
  cases hfind : t.1.find? (hits cmp) with
  | none =>
      refine ⟨.code (-1), m, t, ?_, ?_, hholds⟩
      · rw [LlistCall.exec, LlistCall.run, run_bind (llistDelet_none hlist hcmp hfind _)]
        rfl
      · simp only [LlistCall.Allows, hfind, and_self]
  | some node =>
      obtain ⟨a, x⟩ := node
      obtain ⟨m₁, hunlinked, hdelet⟩ :=
        llistDelet_some hlist hcmp hfind (nodeOp.map applyNodeOp)
      obtain ⟨m₂, hop, hlive, hsame, _, _, henv⟩ :=
        callNodeOp_apply nodeOp (hunlinked.live ▸ hunlinked.node_live) hunlinked.data
      have ha : a ∈ m₂.live := by
        rw [hlive, hunlinked.live]
        exact hunlinked.node_live
      refine ⟨.code 0, m₂.freed a, (t.1.eraseP (hits cmp), release nodeOp [(a, x)] t.2), ?_, ?_, ?_,
        fun hne => hholds.room (List.eraseP_ne_nil_iff.mp hne).1, ?_⟩
      · rw [LlistCall.exec, LlistCall.run, run_bind (hdelet m₂ hop ha)]
        rfl
      · simp only [LlistCall.Allows, hfind, and_self]
      · refine (hunlinked.isList.frame_off hsame fun b hb => ?_).freed hunlinked.notMem
        have hba : b ≠ a := fun h => hunlinked.notMem (h ▸ hb)
        refine ⟨by simpa using hba, ?_⟩
        rw [hlive]
        exact hunlinked.isList.live b hb
      · rw [← hholds.env, ← hunlinked.env]
        exact henv

theorem exec_fetch (hholds : Holds ptr size m t) (cmp : α → Int) :
    ∃ result m' t', (LlistCall.fetch cmp).exec alloc ptr m = .ok (result, m') ∧
      (LlistCall.fetch cmp).Allows mayFail t result t' ∧ Holds ptr size m' t' := by
  have hlist := hholds.isList
  have hcmp := comparePayload_ok hlist cmp
  cases hfind : t.1.find? (hits cmp) with
  | none =>
      refine ⟨.fetched (-1) none, m, t, ?_, ?_, hholds⟩
      · rw [LlistCall.exec, LlistCall.run, run_bind (llistFetch_none hlist hcmp hfind)]
        rfl
      · simp only [LlistCall.Allows, hfind, and_self]
  | some node =>
      obtain ⟨a, x⟩ := node
      have hsize : 0 ≤ size := hholds.room (List.ne_nil_of_mem (List.mem_of_find?_eq_some hfind))
      obtain ⟨m₁, hunlinked, hfetch⟩ := llistFetch_some hlist hsize hcmp hfind
      refine ⟨.fetched 0 (some x), m₁.freed a, (t.1.eraseP (hits cmp), t.2), ?_, ?_, ?_,
        fun _ => hsize, ?_⟩
      · rw [LlistCall.exec, LlistCall.run, run_bind hfetch]
        rfl
      · simp only [LlistCall.Allows, hfind, and_self]
      · exact hunlinked.isList.freed hunlinked.notMem
      · exact hunlinked.env.trans hholds.env

/-- What `llist_clear` keeps of the list while it frees the nodes: `rest` remains, as it was. -/
structure Clearing (nodeOp : Option (α → σ → α × σ)) (ptr : Addr) (size : Int) (m₀ : Mem α σ)
    (nodes rest : List (Addr × α)) (m : Mem α σ) : Prop where
  suffix : ∃ gone, nodes = gone ++ rest
  live : ∀ a ∈ ptr :: rest.map Prod.fst, a ∈ m.live
  data : ∀ node ∈ rest, m.dataOf node.1 = some node.2
  next : m.nextOf = m₀.nextOf
  size : m.sizeOf ptr = some size
  env : release nodeOp rest m.env = release nodeOp nodes m₀.env

theorem Clearing.linked {nodeOp : Option (α → σ → α × σ)} {m₀ : Mem α σ}
    {nodes rest : List (Addr × α)} {node : Addr × α} (hlist : m₀.IsList ptr size nodes)
    (hclearing : Clearing nodeOp ptr size m₀ nodes (node :: rest) m) :
    node.1 ≠ ptr ∧ node.1 ∈ m.live ∧ Linked m.nextOf node.1 (rest.map Prod.fst) ptr := by
  obtain ⟨gone, rfl⟩ := hclearing.suffix
  have hcirc := hlist.circular
  rw [List.map_append, List.map_cons] at hcirc
  refine ⟨fun h => hcirc.notMem (by simp [h]), hclearing.live _ (by simp), ?_⟩
  rw [hclearing.next]
  exact (Linked.append_cons_iff.mp hcirc.forth).2

theorem Clearing.step {nodeOp : Option (α → σ → α × σ)} {m₀ : Mem α σ}
    {nodes rest : List (Addr × α)} {node : Addr × α} (hlist : m₀.IsList ptr size nodes)
    (hclearing : Clearing nodeOp ptr size m₀ nodes (node :: rest) m) :
    ∃ m', callNodeOp (nodeOp.map applyNodeOp) node.1 m = .ok ((), m') ∧ node.1 ∈ m'.live ∧
      Clearing nodeOp ptr size m₀ nodes rest (m'.freed node.1) := by
  obtain ⟨m', hop, hlive, hsame, hnext, hsize, henv⟩ := callNodeOp_apply nodeOp
    (hclearing.live node.1 (by simp)) (hclearing.data node (by simp))
  obtain ⟨gone, hnodes⟩ := hclearing.suffix
  have hcirc := hlist.circular
  rw [hnodes, List.map_append, List.map_cons] at hcirc
  have hnot : ∀ b ∈ ptr :: rest.map Prod.fst, b ≠ node.1 := by
    intro b hb h
    refine hcirc.notMem (h ▸ ?_)
    simp only [List.mem_cons, List.mem_append] at hb ⊢
    tauto
  refine ⟨m', hop, ?_, ⟨gone ++ [node], by simp [hnodes]⟩, ?_, ?_, ?_, ?_, ?_⟩
  · rw [hlive]
    exact hclearing.live node.1 (by simp)
  · intro b hb
    refine Finset.mem_erase.mpr ⟨hnot b hb, ?_⟩
    rw [hlive]
    exact hclearing.live b (by grind)
  · intro other hmem
    have hne := hnot other.1 (List.mem_cons_of_mem ptr (List.mem_map_of_mem hmem))
    change (m'.block other.1).data = _
    rw [hsame other.1 (by simpa using hne)]
    exact hclearing.data other (List.mem_cons_of_mem node hmem)
  · exact hnext.trans hclearing.next
  · exact (congrFun hsize ptr).trans hclearing.size
  · rw [← hclearing.env]
    change release nodeOp rest m'.env = _
    rw [henv]
    rfl

theorem exec_clear (hholds : Holds ptr size m t) (hcount : (t.1.length : Int) ≤ intMax)
    (nodeOp : Option (α → σ → α × σ)) :
    ∃ result m' t', (LlistCall.clear nodeOp).exec alloc ptr m = .ok (result, m') ∧
      (LlistCall.clear nodeOp).Allows mayFail t result t' ∧ Holds ptr size m' t' := by
  have hlist := hholds.isList
  have hinit : Clearing nodeOp ptr size m t.1 t.1 m :=
    ⟨⟨[], rfl⟩, hlist.live, hlist.data, rfl, hlist.size, rfl⟩
  obtain ⟨m', hclearing, hclear, hempty⟩ := llistClear_ok hlist hcount
    (fun node rest m hclearing => hclearing.linked hlist)
    (fun node rest m hclearing => hclearing.step hlist) hinit
    fun m hclearing => ⟨hclearing.live ptr (by simp), hclearing.size⟩
  refine ⟨.code t.1.length, _, ([], release nodeOp t.1 t.2), ?_, ⟨rfl, rfl⟩, hempty,
    fun hne => absurd rfl hne, ?_⟩
  · rw [LlistCall.exec, LlistCall.run, run_bind hclear]
    rfl
  · rw [← hholds.env]
    exact hclearing.env

theorem applyOp_ok {a : Addr} {x : α} (op : α → σ → Int × α × σ) (hlive : a ∈ m.live)
    (hdata : m.dataOf a = some x) :
    applyOp op a m = .ok ((op x m.env).1, (m.setData a (op x m.env).2.1).setEnv (op x m.env).2.2) := by
  rw [applyOp, run_bind (readData_ok hlive hdata)]
  change (writeData a (op x m.env).2.1 >>= fun _ => (do
    writeEnv (op x m.env).2.2
    return (op x m.env).1)) m = _
  rw [run_bind (writeData_ok hlive)]
  rfl

theorem travelFrom_apply (op : α → σ → Int × α × σ) {done rest : List (Addr × α)} {cur : Addr}
    {rounds : Nat} (hlist : m.IsList ptr size (done ++ rest))
    (hcur : (rest.map Prod.fst ++ [ptr]).head? = some cur) (hrounds : rest.length < rounds) :
    ∃ m', travelFrom (applyOp op) ptr rounds cur m = .ok ((), m') ∧
      m'.IsList ptr size (done ++ (visit op rest m.env).1) ∧ m'.env = (visit op rest m.env).2 := by
  induction rest generalizing m cur rounds done with
  | nil =>
      obtain ⟨rounds, rfl⟩ : ∃ k, rounds = k + 1 := ⟨rounds - 1, by simp at hrounds; omega⟩
      cases hcur
      exact ⟨m, by rw [travelFrom, if_pos rfl]; rfl, hlist, rfl⟩
  | cons node rest ih =>
      obtain ⟨a, x⟩ := node
      rw [List.length_cons] at hrounds
      obtain ⟨rounds, rfl⟩ : ∃ k, rounds = k + 1 := ⟨rounds - 1, by omega⟩
      cases hcur
      have hcirc := hlist.circular
      rw [List.map_append, List.map_cons] at hcirc
      have hne : a ≠ ptr := fun h => hcirc.notMem (by simp [h])
      have hop := applyOp_ok op (hlist.node_live (by simp)) (hlist.data (a, x) (by simp))
      have hlist' : ((m.setData a (op x m.env).2.1).setEnv (op x m.env).2.2).IsList ptr size
          (done ++ (a, (op x m.env).2.1) :: rest) :=
        hlist.setData.frame (fun _ _ => rfl) hlist.setData.live
      rw [travelFrom, if_neg hne, run_bind hop, visit]
      by_cases hbreak : (op x m.env).1 = llistTravelBreak
      · rw [if_pos hbreak, if_pos hbreak]
        exact ⟨_, rfl, hlist', rfl⟩
      · rw [if_neg hbreak, if_neg hbreak]
        have hcirc' := hlist'.circular
        rw [List.map_append, List.map_cons] at hcirc'
        obtain ⟨next, hnext⟩ := (Linked.append_cons_iff.mp hcirc'.forth).2.exists_next
        rw [run_bind (readNext_ok (hlist'.live a (by simp)) hnext)]
        rw [List.append_cons] at hlist'
        have hrest : rest.length < rounds := by omega
        obtain ⟨m', htravel, hdone, henv⟩ := ih hlist' (hcirc'.next_eq.symm.trans hnext) hrest
        refine ⟨m', htravel, ?_, henv⟩
        rw [← List.append_cons] at hdone
        exact hdone

theorem exec_travel (alloc : Allocator) (hholds : Holds ptr size m t) (op : α → σ → Int × α × σ) :
    ∃ m', (LlistCall.travel op).exec alloc ptr m = .ok (.done, m') ∧
      Holds ptr size m' (visit op t.1 t.2) := by
  have hlist := hholds.isList
  obtain ⟨cur, hcur⟩ := hlist.circular.forth.exists_next
  rw [← List.nil_append t.1] at hlist
  obtain ⟨m', htravel, hdone, henv⟩ := travelFrom_apply op hlist
    (hholds.isList.circular.next_head.symm.trans hcur) hholds.isList.length_lt_card
  rw [hholds.env] at hdone henv
  refine ⟨m', ?_, hdone, fun hne => hholds.room fun hnil => hne ?_, henv⟩
  · rw [LlistCall.exec, LlistCall.run, llistTravel, bind_assoc, run_bind loopBound_ok, bind_assoc,
      run_bind (readNext_ok hlist.head_live hcur), run_bind htravel]
    rfl
  · rw [hnil, visit]

theorem exec_allows (hholds : Holds ptr size m t) {call : LlistCall α σ} (hlegal : call.Legal)
    (hwithin : ¬call.Exceeds alloc size m t) :
    ∃ result m' t', call.exec alloc ptr m = .ok (result, m') ∧
      call.Allows (alloc.MayFail (16 + size)) t result t' ∧ Holds ptr size m' t' := by
  cases call with
  | insert data mode => exact exec_insert hholds data hlegal hwithin Mem.mayFail_of_answer
  | find cmp => exact ⟨_, m, t, exec_find hholds cmp, ⟨rfl, rfl⟩, hholds⟩
  | delet cmp nodeOp => exact exec_delet hholds cmp nodeOp
  | fetch cmp => exact exec_fetch hholds cmp
  | getnum =>
      have hexec := exec_getnum alloc hholds
      rw [if_pos (not_lt.mp hwithin)] at hexec
      exact ⟨_, m, t, hexec, ⟨rfl, rfl⟩, hholds⟩
  | travel op =>
      obtain ⟨m', hexec, hholds'⟩ := exec_travel alloc hholds op
      exact ⟨_, m', _, hexec, ⟨rfl, rfl⟩, hholds'⟩
  | clear nodeOp => exact exec_clear hholds (not_lt.mp hwithin) nodeOp

end Steps

/-- **The list refines the sequence.** Any sequence of calls runs to its end with the results and
the nodes that it has on the sequence, or up to a call that counts more nodes than an `int` can, or
that inserts into a list of negative size and gets the memory. -/
theorem llist_refines_sequence {alloc : Allocator} {size : Int} {m₀ m : Mem α σ} {ptr : Addr}
    (hmade : llistCreat alloc size m₀ = .ok (some ptr, m)) (calls : List (LlistCall α σ))
    (hlegal : ∀ call ∈ calls, call.Legal) :
    ∃ pre post results m' t, calls = pre ++ post ∧
      runCalls (LlistCall.exec alloc ptr) m pre = .ok (results, m') ∧
      Follows (fun t call => call.Allows (alloc.MayFail (16 + size)) t) ([], m₀.env) pre results t ∧
      Holds ptr size m' t ∧
      ∀ call ∈ post.head?, call.Exceeds alloc size m' t := by
  obtain ⟨hlist, _, _, _, henv⟩ := llistCreat_some hmade
  have hinit : Holds ptr size m (([], m₀.env) : Sequence α σ) :=
    ⟨hlist, fun hne => absurd rfl hne, henv⟩
  have hstep : ∀ (m : Mem α σ) (t : Sequence α σ) (call : LlistCall α σ), Holds ptr size m t →
      (call.Legal ∧ ¬call.Exceeds alloc size m t) →
      ∃ result m' t', call.exec alloc ptr m = .ok (result, m') ∧
        call.Allows (alloc.MayFail (16 + size)) t result t' ∧ Holds ptr size m' t' :=
    fun m t call hholds hvalid => exec_allows hholds hvalid.1 hvalid.2
  obtain ⟨pre, post, results, m', t, rfl, hrun, hfollows, hholds, hstop⟩ :=
    runCalls_follows hstep hinit calls
  refine ⟨pre, post, results, m', t, rfl, hrun, hfollows, hholds, fun call hcall => ?_⟩
  by_contra hwithin
  exact hstop call hcall ⟨hlegal call (List.mem_append_right pre (List.mem_of_head? hcall)), hwithin⟩

theorem llist_refines_sequence_pair :
    ∃ m : Mem Nat Unit, llistCreat nextAddress 4 (.empty ()) = .ok (some 1, m) ∧
      ∃ pre post results m' t,
        [.insert 7 llistForward, .insert 8 llistBackward, .getnum] = pre ++ post ∧
        runCalls (LlistCall.exec nextAddress 1) m pre = .ok (results, m') ∧
        Follows (fun t call => call.Allows (nextAddress.MayFail (16 + 4)) t) ([], ()) pre results t ∧
        Holds 1 4 m' t ∧ ∀ call ∈ post.head?, call.Exceeds nextAddress 4 m' t := by
  obtain ⟨m, hmade⟩ : ∃ m : Mem Nat Unit,
      llistCreat nextAddress 4 (.empty ()) = .ok (some 1, m) := ⟨_, rfl⟩
  exact ⟨m, hmade, llist_refines_sequence hmade _ (by simp [LlistCall.Legal])⟩

/-! ### The limits -/

theorem exec_insert_many {alloc : Allocator} {ptr : Addr} {size : Int} {m : Mem α σ}
    {t : Sequence α σ} (htotal : alloc.Total) (hsize : 0 ≤ size) (hholds : Holds ptr size m t)
    (x : α) (n : Nat) :
    ∃ results m' t', runCalls (LlistCall.exec alloc ptr) m
        (List.replicate n (.insert x llistForward)) = .ok (results, m') ∧
      Holds ptr size m' t' ∧ t'.1.length = t.1.length + n := by
  induction n generalizing m t with
  | zero => exact ⟨[], m, t, rfl, hholds, rfl⟩
  | succ n ih =>
      have hnofail : m.answer alloc (16 + size) = none → False := by
        intro hnone
        obtain ⟨a, ha⟩ := Mem.exists_answer htotal (by omega : 0 ≤ 16 + size) m
        rw [hnone] at ha
        cases ha
      obtain ⟨result, m₁, t₁, hexec, hallows, hholds₁⟩ :=
        exec_insert hholds x (Or.inl rfl) (fun hexceeds => absurd hexceeds.1 (by omega)) hnofail
      obtain ⟨a, _, _, rfl⟩ : ∃ a, a ∉ t.1.map Prod.fst ∧ result = .code 0 ∧
          t₁ = ((a, x) :: t.1, t.2) := by
        rcases hallows with hinserted | ⟨hfalse, _⟩
        · exact hinserted
        · exact hfalse.elim
      obtain ⟨results, m', t', hrun, hholds', hlength⟩ := ih hholds₁
      refine ⟨result :: results, m', t', ?_, hholds', ?_⟩
      · rw [List.replicate_succ]
        exact runCalls_cons_ok hexec hrun
      · rw [hlength, List.length_cons]
        omega

/-- 2^31 insertions succeed, and the list has as many nodes. -/
theorem exists_longList : ∃ (m m' : Mem Unit Unit) (results : List (LlistResult Unit))
    (t : Sequence Unit Unit), llistCreat nextAddress 0 (.empty ()) = .ok (some 1, m) ∧
    runCalls (LlistCall.exec nextAddress 1) m
      (List.replicate 2147483648 (.insert () llistForward)) = .ok (results, m') ∧
    Holds 1 0 m' t ∧ t.1.length = 2147483648 := by
  obtain ⟨m, hmade⟩ : ∃ m : Mem Unit Unit,
      llistCreat nextAddress 0 (.empty ()) = .ok (some 1, m) := ⟨_, rfl⟩
  obtain ⟨hlist, _, _, _, henv⟩ := llistCreat_some hmade
  have hinit : Holds 1 0 m (([], ()) : Sequence Unit Unit) := ⟨hlist, fun _ => le_rfl, henv⟩
  obtain ⟨results, m', t, hrun, hholds, hlength⟩ :=
    exec_insert_many nextAddress_total (by decide) hinit () 2147483648
  rw [List.length_nil, Nat.zero_add] at hlength
  exact ⟨m, m', results, t, hmade, hrun, hholds, hlength⟩

/-- An insertion into a list of size -1 overruns the 15 bytes that its node gets. -/
theorem llistInsert_negative : ∃ m : Mem Unit Unit,
    llistCreat nextAddress (-1) (.empty ()) = .ok (some 1, m) ∧ m.IsList 1 (-1) [] ∧
    llistInsert nextAddress 1 () llistForward m = .error .overrun := by
  obtain ⟨m, hmade⟩ : ∃ m : Mem Unit Unit,
      llistCreat nextAddress (-1) (.empty ()) = .ok (some 1, m) := ⟨_, rfl⟩
  have hlist := (llistCreat_some hmade).1
  obtain ⟨a, hanswer⟩ := Mem.exists_answer nextAddress_total (by decide : (0 : Int) ≤ 16 + -1) m
  exact ⟨m, hmade, hlist, llistInsert_overruns hlist () llistForward hanswer (by decide)⟩

/-- After 2^31 insertions the list has as many nodes, and `llist_getnum` overflows its `int`; and a
list of negative size cannot be inserted into. -/
theorem llist_exceeds_int : (∃ m : Mem Unit Unit,
    llistCreat nextAddress 0 (.empty ()) = .ok (some 1, m) ∧
    (∃ results m' t, runCalls (LlistCall.exec nextAddress 1) m
        (List.replicate 2147483648 (.insert () llistForward)) = .ok (results, m') ∧
      m'.IsList 1 0 t ∧ t.length = 2147483648) ∧
    runCalls (LlistCall.exec nextAddress 1) m
        (List.replicate 2147483648 (.insert () llistForward) ++ [.getnum])
      = .error .signedOverflow) ∧
    ∃ m : Mem Unit Unit, llistCreat nextAddress (-1) (.empty ()) = .ok (some 1, m) ∧
      (LlistCall.insert () llistForward).exec nextAddress 1 m = .error .overrun := by
  constructor
  · obtain ⟨m, m', results, t, hmade, hrun, hholds, hlength⟩ := exists_longList
    refine ⟨m, hmade, ⟨results, m', t.1, hrun, hholds.isList, hlength⟩, ?_⟩
    apply runCalls_append_error hrun
    rw [exec_getnum nextAddress hholds, hlength, if_neg (by decide)]
  · obtain ⟨m, hmade, _, hinsert⟩ := llistInsert_negative
    refine ⟨m, hmade, ?_⟩
    rw [LlistCall.exec, LlistCall.run, run_bind_error hinsert]

end Gittest
