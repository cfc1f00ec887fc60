import Gittest.Lib.Calls
import Gittest.Proof.QueueOps
import Gittest.Stack

/-!
# The queue is FIFO and the stack is LIFO

Elements are bytes: `queue_enq` and `stack_push` copy `ptr->size` of them from where the caller points to,
and `queue_deq` and `stack_pop` deliver as many to the caller's buffer. A `malloc` may fail at any call.
-/

namespace Gittest

open Calls

variable {σ : Type}

inductive Container where
  | queue
  | stack
  deriving DecidableEq, Repr

inductive ContainerCall where
  | put (data : Buffer)
  | get (data : Buffer)

/-- The return code, and the caller's buffer after a `get`. -/
inductive ContainerResult where
  | put (ret : Int)
  | get (ret : Int) (data : Buffer)
  deriving DecidableEq

def Container.creat : Container → Allocator → Int → MemM Buffer σ (Option Addr)
  | .queue => queueCreat
  | .stack => stackCreat

def Container.put : Container → Allocator → Addr → Buffer → MemM Buffer σ Int
  | .queue => queueEnq
  | .stack => stackPush

def Container.get : Container → Addr → MemM Buffer σ (Int × Option Buffer)
  | .queue => queueDeq
  | .stack => stackPop

/-- `memcpy(data, node->data, ptr->size)`, if there was a node. -/
def deliver (data : Buffer) (size : Int) : Option Buffer → Except Fault Buffer
  | none => .ok data
  | some x => memcpy data x size

def ContainerCall.run (kind : Container) (alloc : Allocator) (ptr : Addr) :
    ContainerCall → MemM Buffer σ ContainerResult
  | .put data => do
      let size ← readSize ptr
      return .put (← kind.put alloc ptr (data.take size.toNat))
  | .get data => do
      let size ← readSize ptr
      let (ret, x) ← kind.get ptr
      let data ← (deliver data size x : Except Fault Buffer)
      return .get ret data

def ContainerCall.exec (kind : Container) (alloc : Allocator) (ptr : Addr) (m : Mem Buffer σ)
    (call : ContainerCall) : Except Fault (ContainerResult × Mem Buffer σ) :=
  call.run kind alloc ptr m

/-- Would the `malloc` of a `put` made now return `NULL`? -/
def refuses (alloc : Allocator) (size : Int) (m : Mem Buffer σ) (_ : ContainerCall) : Bool :=
  (m.answer alloc (16 + size)).isNone

/-! ### The pure queue and the pure stack -/

def Container.add (kind : Container) (items : List Buffer) (x : Buffer) : List Buffer :=
  match kind with
  | .queue => items ++ [x]
  | .stack => x :: items

/-- A call comes with whether its allocation fails. -/
def Container.spec (kind : Container) (size : Int) (items : List Buffer)
    (call : Bool × ContainerCall) : ContainerResult × List Buffer :=
  match call.2, items with
  | .put data, items =>
      if call.1 then (.put (-1), items) else (.put 0, kind.add items (data.take size.toNat))
  | .get data, [] => (.get (-1) data, [])
  | .get data, x :: items => (.get 0 (x ++ data.drop size.toNat), items)

/-- The caller's buffer holds an element. -/
def ContainerCall.Legal (size : Int) : ContainerCall → Prop
  | .put data => size ≤ data.length
  | .get data => size ≤ data.length

/-- The list at `ptr` holds these elements, of `size` bytes each. -/
def HoldsItems (ptr : Addr) (size : Int) (m : Mem Buffer σ) (items : List Buffer) : Prop :=
  ∃ nodes, m.IsList ptr size nodes ∧ nodes.map Prod.snd = items ∧ ∀ x ∈ items, (x.length : Int) = size

section Steps

variable {kind : Container} {alloc : Allocator} {ptr : Addr} {size : Int} {m : Mem Buffer σ}
  {items : List Buffer}

theorem put_step (hsize : 0 ≤ size) (hholds : HoldsItems ptr size m items) {data : Buffer}
    (hdata : size ≤ data.length) :
    ∃ m', (ContainerCall.put data).exec kind alloc ptr m
        = .ok ((kind.spec size items (refuses alloc size m (.put data), .put data)).1, m') ∧
      HoldsItems ptr size m' (kind.spec size items (refuses alloc size m (.put data), .put data)).2 := by
  obtain ⟨nodes, hlist, hitems, hlengths⟩ := hholds
  have hrun : (ContainerCall.put data).exec kind alloc ptr m = (do
      return .put (← kind.put alloc ptr (data.take size.toNat)) : MemM Buffer σ ContainerResult) m := by
    rw [ContainerCall.exec, ContainerCall.run, run_bind (readSize_ok hlist.head_live hlist.size)]
  rw [hrun]
  cases hanswer : m.answer alloc (16 + size) with
  | none =>
      have hrefuses : refuses alloc size m (.put data) = true := by rw [refuses, hanswer]; rfl
      rw [hrefuses]
      refine ⟨m.refused, ?_, nodes, hlist.refused, hitems, hlengths⟩
      have hput : kind.put alloc ptr (data.take size.toNat) m = .ok (-1, m.refused) := by
        cases kind with
        | queue => exact queueEnq_refused hlist _ hanswer
        | stack => exact llistInsert_refused hlist _ llistForward hanswer
      rw [run_bind hput]
      rfl
  | some a =>
      have hrefuses : refuses alloc size m (.put data) = false := by rw [refuses, hanswer]; rfl
      rw [hrefuses]
      have hlength : ((data.take size.toNat).length : Int) = size := by
        rw [List.length_take]
        omega
      cases kind with
      | queue =>
          obtain ⟨m', hput, hinserted⟩ := queueEnq_ok hlist hsize (data.take size.toNat) hanswer
          refine ⟨m', ?_, _, hinserted.isList, ?_, ?_⟩
          · rw [Container.put, run_bind hput]
            rfl
          · rw [List.map_append, hitems]
            rfl
          · intro x hx
            rcases List.mem_append.mp hx with hx | hx
            · exact hlengths x hx
            · rw [List.mem_singleton.mp hx, hlength]
      | stack =>
          obtain ⟨m', hput, hinserted⟩ := llistInsert_forward hlist hsize (data.take size.toNat) hanswer
          refine ⟨m', ?_, _, hinserted.isList, ?_, ?_⟩
          · rw [Container.put, stackPush, run_bind hput]
            rfl
          · rw [List.map_cons, hitems]
            rfl
          · intro x hx
            rcases List.mem_cons.mp hx with rfl | hx
            · exact hlength
            · exact hlengths x hx

theorem get_step (hsize : 0 ≤ size) (hholds : HoldsItems ptr size m items) {data : Buffer}
    (hdata : size ≤ data.length) (refused : Bool) :
    ∃ m', (ContainerCall.get data).exec kind alloc ptr m
        = .ok ((kind.spec size items (refused, .get data)).1, m') ∧
      HoldsItems ptr size m' (kind.spec size items (refused, .get data)).2 := by
  obtain ⟨nodes, hlist, hitems, hlengths⟩ := hholds
  have hget : kind.get ptr m = queueDeq ptr m := by
    cases kind with
    | queue => rfl
    | stack => rfl
  cases nodes with
  | nil =>
      subst hitems
      refine ⟨m, ?_, [], hlist, rfl, by simp [Container.spec]⟩
      rw [ContainerCall.exec, ContainerCall.run, run_bind (readSize_ok hlist.head_live hlist.size),
        run_bind (hget.trans (queueDeq_nil hlist))]
      rfl
  | cons node nodes =>
      obtain ⟨a, x⟩ := node
      subst hitems
      obtain ⟨m', hdeq, hlist'⟩ := queueDeq_cons hlist hsize
      have hx : (x.length : Int) = size := hlengths x (by simp)
      refine ⟨m', ?_, nodes, hlist', rfl, fun y hy => hlengths y (List.mem_cons_of_mem x hy)⟩
      have hcopy : memcpy data x size = .ok (x ++ data.drop size.toNat) := by
        rw [memcpy_ok hsize hdata (by omega), List.take_of_length_le (by omega)]
      rw [ContainerCall.exec, ContainerCall.run, run_bind (readSize_ok hlist.head_live hlist.size),
        run_bind (hget.trans hdeq)]
      simp only [deliver, hcopy]
      rfl

end Steps

/-- **FIFO and LIFO.** Any sequence of calls on a fresh queue or stack returns and delivers what the pure
queue or stack does in which the same `put`s fail. -/
theorem container_refines_list (kind : Container) {alloc : Allocator} {size : Int} (hsize : 0 ≤ size)
    {m₀ m : Mem Buffer σ} {ptr : Addr} (hmade : kind.creat alloc size m₀ = .ok (some ptr, m))
    {calls : List ContainerCall} (hlegal : ∀ call ∈ calls, call.Legal size) :
    let labelled := (runLabels (ContainerCall.exec kind alloc ptr) (refuses alloc size) m calls).zip calls
    ∃ m', runCalls (ContainerCall.exec kind alloc ptr) m calls
        = .ok ((runSpec (kind.spec size) [] labelled).1, m') ∧
      HoldsItems ptr size m' (runSpec (kind.spec size) [] labelled).2 := by
  have hcreat : llistCreat alloc size m₀ = .ok (some ptr, m) := by
    cases kind with
    | queue => exact hmade
    | stack => exact hmade
  obtain ⟨hlist, _⟩ := llistCreat_some hcreat
  have hinit : HoldsItems ptr size m [] := ⟨[], hlist, rfl, by simp⟩
  have hstep : ∀ (m : Mem Buffer σ) items (call : ContainerCall), HoldsItems ptr size m items →
      call.Legal size → ∃ m', call.exec kind alloc ptr m
          = .ok ((kind.spec size items (refuses alloc size m call, call)).1, m') ∧
        HoldsItems ptr size m' (kind.spec size items (refuses alloc size m call, call)).2 := by
    intro m items call hholds hlegal
    cases call with
    | put data => exact put_step hsize hholds hlegal
    | get data => exact get_step hsize hholds hlegal _
  exact runCalls_refines_labelled hstep hinit hlegal

/-- Of three elements put into a queue the second finds no memory. -/
theorem container_refines_list_three : ∃ m : Mem Buffer Unit,
    Container.queue.creat (failsAt 2) 1 (.empty ()) = .ok (some 1, m) ∧
    let calls : List ContainerCall := [.put [some 1], .put [some 2], .put [some 3], .get [none, none],
      .get [none, none], .get [none, none]]
    let labelled := (runLabels (ContainerCall.exec .queue (failsAt 2) 1) (refuses (failsAt 2) 1) m
      calls).zip calls
    (runSpec (Container.queue.spec 1) [] labelled).1 = [.put 0, .put (-1), .put 0,
      .get 0 [some 1, none], .get 0 [some 3, none], .get (-1) [none, none]] ∧
    ∃ m', runCalls (ContainerCall.exec .queue (failsAt 2) 1) m calls
        = .ok ((runSpec (Container.queue.spec 1) [] labelled).1, m') ∧
      HoldsItems 1 1 m' (runSpec (Container.queue.spec 1) [] labelled).2 := by
  obtain ⟨m, hm, hmade⟩ : ∃ m : Mem Buffer Unit,
      m = ((((Mem.empty ()).allocated 1 24).setSize 1 1).setNext 1 1).setPrev 1 1 ∧
      Container.queue.creat (failsAt 2) 1 (.empty ()) = .ok (some 1, m) := ⟨_, rfl, rfl⟩
  refine ⟨m, hmade, ?_, container_refines_list .queue (by decide) hmade (by simp [ContainerCall.Legal])⟩
  subst hm
  decide +kernel

end Gittest
