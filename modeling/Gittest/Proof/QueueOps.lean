import Gittest.Proof.LinkListOps
import Gittest.Queue

/-!
# The queue, function by function
-/

namespace Gittest

variable {α σ : Type} {m : Mem α σ} {ptr a : Addr} {size : Int} {x : α} {nodes : List (Addr × α)}

theorem queueEnq_ok {alloc : Allocator} (hlist : m.IsList ptr size nodes) (hsize : 0 ≤ size) (x : α)
    (hanswer : m.answer alloc (16 + size) = some a) :
    ∃ m', queueEnq alloc ptr x m = .ok (0, m') ∧
      Inserted m m' ptr a size nodes (nodes ++ [(a, x)]) :=
  llistInsert_backward hlist hsize x hanswer

theorem queueEnq_refused {alloc : Allocator} (hlist : m.IsList ptr size nodes) (x : α)
    (hanswer : m.answer alloc (16 + size) = none) :
    queueEnq alloc ptr x m = .ok (-1, m.refused) :=
  llistInsert_refused hlist x llistBackward hanswer

theorem queueDeq_nil (hlist : m.IsList ptr size []) : queueDeq ptr m = .ok ((-1, none), m) :=
  llistFetch_none (f := fun _ => 0) hlist (fun _ _ => rfl) rfl

theorem queueDeq_cons (hlist : m.IsList ptr size ((a, x) :: nodes)) (hsize : 0 ≤ size) :
    ∃ m', queueDeq ptr m = .ok ((0, some x), m') ∧ m'.IsList ptr size nodes := by
  obtain ⟨m₁, hunlinked, hfetch⟩ : ∃ m₁, Unlinked m m₁ ptr a x size ((a, x) :: nodes) nodes ∧
      queueDeq ptr m = .ok ((0, some x), m₁.freed a) :=
    llistFetch_some (f := fun _ => 0) hlist hsize (fun _ _ => rfl) rfl
  exact ⟨m₁.freed a, hfetch, hunlinked.isList.freed hunlinked.notMem⟩

end Gittest
