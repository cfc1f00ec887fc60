import Gittest.Basic
import Mathlib.Data.Finset.Card
import Mathlib.Data.Finset.Lattice.Fold
import Mathlib.Logic.Function.Basic
import Mathlib.Order.Lattice.Nat

/-!
# Blocks and the heap

The heap of the pointer code: the lists, their nodes, and what the hash map allocates. A block is
live from the `malloc` that returns it to its `free`, and an access to one that is not live is a
fault. `α` is the type of the payloads of list nodes, and `σ` whatever the callbacks change outside
the heap.
-/

namespace Gittest

abbrev Addr := Nat

/-- A block, with the members of every type that is allocated. It uses those of its own type; one
that nothing has written is `none`. The head of a list is at the address of its `LLIST`. -/
structure Block (α : Type) where
  extent : Int
  size : Option Int
  prev : Option Addr
  next : Option Addr
  data : Option α
  bytes : Buffer
  cells : Int → Option (Option Addr)

structure Mem (α σ : Type) where
  live : Finset Addr
  block : Addr → Block α
  mallocs : Nat
  env : σ

/-- What `malloc` answers to its `n`-th call: `NULL` or a fresh address, as it likes. -/
structure Allocator where
  answer : Nat → Finset Addr → Int → Option Addr
  fresh : ∀ n live size a, answer n live size = some a → a ∉ live

/-- Allocations succeed. -/
def Allocator.Total (alloc : Allocator) : Prop :=
  ∀ n live size, ∃ a, alloc.answer n live size = some a

/-- `malloc` may return `NULL` for this size. -/
def Allocator.MayFail (alloc : Allocator) (size : Int) : Prop :=
  size < 0 ∨ ∃ n live, alloc.answer n live size = none

/-- The `n`-th call returns `NULL`, whatever it asks for. -/
def Allocator.Refuses (alloc : Allocator) (n : Nat) : Prop :=
  ∀ live size, alloc.answer n live size = none

/-- Of the calls from the `n`-th on, the first that fails is the one `j` calls later. -/
structure Allocator.FailsFirst (alloc : Allocator) (n j : Nat) : Prop where
  before : ∀ i < j, ∀ live size, ∃ a, alloc.answer (n + i) live size = some a
  refuses : alloc.Refuses (n + j)

/-- An allocator that never fails. -/
def nextAddress : Allocator where
  answer _ live _ := some (live.sup id + 1)
  fresh := by
    intro _ live _ a hanswer hmem
    cases hanswer
    exact absurd (Finset.le_sup (f := id) hmem) (Nat.not_succ_le_self _)

theorem nextAddress_total : nextAddress.Total := fun _ live _ => ⟨live.sup id + 1, rfl⟩

/-- An allocator of which call `k` fails, and no other. -/
def failsAt (k : Nat) : Allocator where
  answer n live _ := if n = k then none else some (live.sup id + 1)
  fresh := by
    intro n live size a hanswer
    split at hanswer
    · cases hanswer
    · exact nextAddress.fresh n live size a hanswer

theorem failsAt_failsFirst (n j : Nat) : (failsAt (n + j)).FailsFirst n j where
  before := by
    intro i hi live _
    exact ⟨live.sup id + 1, if_neg (by omega)⟩
  refuses := fun _ _ => if_pos rfl

abbrev MemM (α σ : Type) := StateT (Mem α σ) (Except Fault)

variable {α σ : Type}

namespace Mem

def sizeOf (m : Mem α σ) (a : Addr) : Option Int := (m.block a).size

def prevOf (m : Mem α σ) (a : Addr) : Option Addr := (m.block a).prev

def nextOf (m : Mem α σ) (a : Addr) : Option Addr := (m.block a).next

def dataOf (m : Mem α σ) (a : Addr) : Option α := (m.block a).data

def bytesOf (m : Mem α σ) (a : Addr) : Buffer := (m.block a).bytes

def cellOf (m : Mem α σ) (a : Addr) (i : Int) : Option (Option Addr) := (m.block a).cells i

def empty (s : σ) : Mem α σ where
  live := ∅
  block := fun _ => {
    extent := 0, size := none, prev := none, next := none, data := none, bytes := []
    cells := fun _ => none }
  mallocs := 0
  env := s

def put (m : Mem α σ) (a : Addr) (b : Block α) : Mem α σ :=
  { m with block := Function.update m.block a b }

def setSize (m : Mem α σ) (a : Addr) (size : Int) : Mem α σ :=
  m.put a { m.block a with size := some size }

def setPrev (m : Mem α σ) (a x : Addr) : Mem α σ := m.put a { m.block a with prev := some x }

def setNext (m : Mem α σ) (a x : Addr) : Mem α σ := m.put a { m.block a with next := some x }

def setData (m : Mem α σ) (a : Addr) (x : α) : Mem α σ := m.put a { m.block a with data := some x }

def setBytes (m : Mem α σ) (a : Addr) (bytes : Buffer) : Mem α σ :=
  m.put a { m.block a with bytes := bytes }

def setEnv (m : Mem α σ) (s : σ) : Mem α σ := { m with env := s }

/-- What the next `malloc(size)` returns. A negative `int` turns into a `size_t` that no block has. -/
def answer (m : Mem α σ) (alloc : Allocator) (size : Int) : Option Addr :=
  if size < 0 then none else alloc.answer m.mallocs m.live size

def refused (m : Mem α σ) : Mem α σ := { m with mallocs := m.mallocs + 1 }

def allocated (m : Mem α σ) (a : Addr) (size : Int) : Mem α σ where
  live := insert a m.live
  block := Function.update m.block a {
    extent := size, size := none, prev := none, next := none, data := none
    bytes := List.replicate size.toNat none, cells := fun _ => none }
  mallocs := m.mallocs + 1
  env := m.env

def freed (m : Mem α σ) (a : Addr) : Mem α σ :=
  { m with live := m.live.erase a }

end Mem

/-! ### Accesses -/

def mallocBlock (alloc : Allocator) (size : Int) : MemM α σ (Option Addr) := fun m =>
  match m.answer alloc size with
  | none => .ok (none, m.refused)
  | some a => .ok (some a, m.allocated a size)

def freeBlock (a : Addr) : MemM α σ Unit := fun m =>
  if a ∈ m.live then .ok ((), m.freed a) else .error .deadBlock

def readBlock {β : Type} (a : Addr) (member : Block α → Option β) : MemM α σ β := fun m =>
  if a ∈ m.live then
    match member (m.block a) with
    | some x => .ok (x, m)
    | none => .error .uninitialised
  else
    .error .deadBlock

def writeBlock (a : Addr) (f : Block α → Block α) : MemM α σ Unit := fun m =>
  if a ∈ m.live then .ok ((), m.put a (f (m.block a))) else .error .deadBlock

def readSize (a : Addr) : MemM α σ Int := readBlock a Block.size

def readPrev (a : Addr) : MemM α σ Addr := readBlock a Block.prev

def readNext (a : Addr) : MemM α σ Addr := readBlock a Block.next

def readData (a : Addr) : MemM α σ α := readBlock a Block.data

def writeSize (a : Addr) (size : Int) : MemM α σ Unit :=
  writeBlock a fun b => { b with size := some size }

def writePrev (a x : Addr) : MemM α σ Unit := writeBlock a fun b => { b with prev := some x }

def writeNext (a x : Addr) : MemM α σ Unit := writeBlock a fun b => { b with next := some x }

def writeData (a : Addr) (x : α) : MemM α σ Unit := writeBlock a fun b => { b with data := some x }

/-- Reading a pointer out of the array at `a`. -/
def readCell (a : Addr) (i : Int) : MemM α σ (Option Addr) := fun m =>
  if a ∈ m.live then
    if 0 ≤ i ∧ 8 * (i + 1) ≤ (m.block a).extent then
      match m.cellOf a i with
      | some x => .ok (x, m)
      | none => .error .uninitialised
    else
      .error .outOfBounds
  else
    .error .deadBlock

def writeCell (a : Addr) (i : Int) (x : Option Addr) : MemM α σ Unit := fun m =>
  if a ∈ m.live then
    if 0 ≤ i ∧ 8 * (i + 1) ≤ (m.block a).extent then
      .ok ((), m.put a { m.block a with cells := Function.update (m.block a).cells i (some x) })
    else
      .error .outOfBounds
  else
    .error .deadBlock

def readBytes (a : Addr) : MemM α σ Buffer := readBlock a fun b => some b.bytes

def writeBytes (a : Addr) (bytes : Buffer) : MemM α σ Unit :=
  writeBlock a fun b => { b with bytes := bytes }

def deref (p : Option Addr) : MemM α σ Addr :=
  match p with
  | some a => return a
  | none => throw .nullPointer

def incr (i : Int) : MemM α σ Int := fun m =>
  if i < intMax then .ok (i + 1, m) else .error .signedOverflow

def subInt (i n : Int) : MemM α σ Int := fun m =>
  if intMin ≤ i - n ∧ i - n ≤ intMax then .ok (i - n, m) else .error .signedOverflow

/-- `i + n` for an `i` below 0, which can only be too small for an `int`. -/
def addNegative (i n : Int) : MemM α σ Int := fun m =>
  if intMin ≤ i + n then .ok (i + n, m) else .error .signedOverflow

def remInt (a b : Int) : MemM α σ Int := fun m =>
  if b = 0 then .error .divisionByZero
  else if a = intMin ∧ b = -1 then .error .signedOverflow
  else .ok (a.tmod b, m)

/-! ### What they come to -/

theorem run_bind {β γ : Type} {x : MemM α σ β} {f : β → MemM α σ γ} {m m' : Mem α σ} {b : β}
    (hx : x m = .ok (b, m')) : (x >>= f) m = f b m' := by
  change (x m >>= fun p => f p.1 p.2) = _
  rw [hx]
  rfl

theorem run_bind_error {β γ : Type} {x : MemM α σ β} {f : β → MemM α σ γ} {m : Mem α σ}
    {fault : Fault} (hx : x m = .error fault) : (x >>= f) m = .error fault := by
  change (x m >>= fun p => f p.1 p.2) = _
  rw [hx]
  rfl

theorem of_run_bind {β γ : Type} {x : MemM α σ β} {f : β → MemM α σ γ} {m : Mem α σ}
    {result : γ × Mem α σ} (hrun : (x >>= f) m = .ok result) :
    ∃ b m', x m = .ok (b, m') ∧ f b m' = .ok result := by
  cases hx : x m with
  | error fault =>
      rw [run_bind_error hx] at hrun
      cases hrun
  | ok step =>
      rw [run_bind hx] at hrun
      exact ⟨step.1, step.2, rfl, hrun⟩

section Accesses

variable {m : Mem α σ} {a x : Addr}

theorem readBlock_ok {β : Type} {member : Block α → Option β} {y : β} (hlive : a ∈ m.live)
    (hmember : member (m.block a) = some y) : readBlock a member m = .ok (y, m) := by
  rw [readBlock, if_pos hlive, hmember]

theorem readSize_ok {size : Int} (hlive : a ∈ m.live) (hsize : m.sizeOf a = some size) :
    readSize a m = .ok (size, m) :=
  readBlock_ok hlive hsize

theorem readPrev_ok (hlive : a ∈ m.live) (hprev : m.prevOf a = some x) :
    readPrev a m = .ok (x, m) :=
  readBlock_ok hlive hprev

theorem readNext_ok (hlive : a ∈ m.live) (hnext : m.nextOf a = some x) :
    readNext a m = .ok (x, m) :=
  readBlock_ok hlive hnext

theorem readData_ok {y : α} (hlive : a ∈ m.live) (hdata : m.dataOf a = some y) :
    readData a m = .ok (y, m) :=
  readBlock_ok hlive hdata

theorem writePrev_ok (hlive : a ∈ m.live) : writePrev a x m = .ok ((), m.setPrev a x) :=
  if_pos hlive

theorem writeNext_ok (hlive : a ∈ m.live) : writeNext a x m = .ok ((), m.setNext a x) :=
  if_pos hlive

theorem writeData_ok {y : α} (hlive : a ∈ m.live) : writeData a y m = .ok ((), m.setData a y) :=
  if_pos hlive

theorem writeSize_ok {size : Int} (hlive : a ∈ m.live) :
    writeSize a size m = .ok ((), m.setSize a size) :=
  if_pos hlive

theorem mallocBlock_none {alloc : Allocator} {size : Int} (hanswer : m.answer alloc size = none) :
    mallocBlock alloc size m = .ok (none, m.refused) := by
  rw [mallocBlock, hanswer]

theorem mallocBlock_some {alloc : Allocator} {size : Int} (hanswer : m.answer alloc size = some a) :
    mallocBlock alloc size m = .ok (some a, m.allocated a size) := by
  rw [mallocBlock, hanswer]

theorem Mem.mayFail_of_answer {alloc : Allocator} {size : Int} (hanswer : m.answer alloc size = none) :
    alloc.MayFail size := by
  rw [Mem.answer] at hanswer
  split at hanswer
  · rename_i hneg
    exact Or.inl hneg
  · exact Or.inr ⟨_, _, hanswer⟩

theorem Mem.exists_answer {alloc : Allocator} {size : Int} (htotal : alloc.Total) (hsize : 0 ≤ size)
    (m : Mem α σ) : ∃ a, m.answer alloc size = some a := by
  rw [Mem.answer, if_neg (by omega)]
  exact htotal _ _ _

theorem Mem.answer_refused {alloc : Allocator} (hrefuses : alloc.Refuses m.mallocs) (size : Int) :
    m.answer alloc size = none := by
  rw [Mem.answer]
  split
  · rfl
  · exact hrefuses _ _

theorem Allocator.FailsFirst.refused {alloc : Allocator} (hfirst : alloc.FailsFirst m.mallocs 0) (size : Int) :
    m.answer alloc size = none :=
  Mem.answer_refused hfirst.refuses size

theorem Allocator.FailsFirst.answered {alloc : Allocator} {n j : Nat} (hfirst : alloc.FailsFirst n (j + 1))
    (hmallocs : m.mallocs = n) {size : Int} (hsize : 0 ≤ size) :
    (∃ a, m.answer alloc size = some a) ∧ alloc.FailsFirst (n + 1) j := by
  refine ⟨?_, fun i hi live size => ?_, ?_⟩
  · rw [Mem.answer, if_neg (by omega), hmallocs]
    exact hfirst.before 0 (by omega) _ _
  · rw [Nat.add_right_comm]
    exact hfirst.before (i + 1) (by omega) live size
  · rw [Nat.add_right_comm]
    exact hfirst.refuses

theorem Mem.answer_fresh {alloc : Allocator} {size : Int} (hanswer : m.answer alloc size = some a) :
    a ∉ m.live := by
  rw [Mem.answer] at hanswer
  split at hanswer
  · cases hanswer
  · exact alloc.fresh _ _ _ _ hanswer

theorem freeBlock_ok (hlive : a ∈ m.live) : freeBlock a m = .ok ((), m.freed a) :=
  if_pos hlive

theorem readBytes_ok (hlive : a ∈ m.live) : readBytes a m = .ok (m.bytesOf a, m) :=
  readBlock_ok hlive rfl

theorem writeBytes_ok {bytes : Buffer} (hlive : a ∈ m.live) :
    writeBytes a bytes m = .ok ((), m.setBytes a bytes) :=
  if_pos hlive

theorem deref_ok : deref (some a) m = .ok (a, m) := rfl

theorem readCell_ok {i : Int} {p : Option Addr} (hlive : a ∈ m.live)
    (hbounds : 0 ≤ i ∧ 8 * (i + 1) ≤ (m.block a).extent) (hcell : m.cellOf a i = some p) :
    readCell a i m = .ok (p, m) := by
  rw [readCell, if_pos hlive, if_pos hbounds, hcell]

theorem subInt_ok {i n : Int} (hmin : intMin ≤ i - n) (hmax : i - n ≤ intMax) :
    subInt i n m = .ok (i - n, m) :=
  if_pos ⟨hmin, hmax⟩

theorem addNegative_ok {i n : Int} (hmin : intMin ≤ i + n) : addNegative i n m = .ok (i + n, m) :=
  if_pos hmin

theorem remInt_ok {i n : Int} (hn : 0 < n) : remInt i n m = .ok (i.tmod n, m) := by
  rw [remInt, if_neg (by omega), if_neg (by omega)]

theorem incr_ok {i : Int} (hlt : i < intMax) : incr i m = .ok (i + 1, m) :=
  if_pos hlt

end Accesses

/-! ### The heap after an access -/

namespace Mem

variable (m : Mem α σ) (a x : Addr) (y : α) (size : Int)

@[simp] theorem live_setSize : (m.setSize a size).live = m.live := rfl

@[simp] theorem live_setPrev : (m.setPrev a x).live = m.live := rfl

@[simp] theorem live_setNext : (m.setNext a x).live = m.live := rfl

@[simp] theorem live_setData : (m.setData a y).live = m.live := rfl

@[simp] theorem live_setBytes (bytes : Buffer) : (m.setBytes a bytes).live = m.live := rfl

@[simp] theorem live_allocated : (m.allocated a size).live = insert a m.live := rfl

@[simp] theorem live_freed : (m.freed a).live = m.live.erase a := rfl

@[simp] theorem block_freed : (m.freed a).block = m.block := rfl

theorem block_put_self (b : Block α) : (m.put a b).block a = b := by
  simp only [put, Function.update_self]

theorem block_put_of_ne {b : Addr} (hne : b ≠ a) (c : Block α) : (m.put a c).block b = m.block b :=
  Function.update_of_ne hne _ _

theorem block_setSize_of_ne {b : Addr} (hne : b ≠ a) : (m.setSize a size).block b = m.block b :=
  m.block_put_of_ne a hne _

theorem block_setPrev_of_ne {b : Addr} (hne : b ≠ a) : (m.setPrev a x).block b = m.block b :=
  m.block_put_of_ne a hne _

theorem block_setNext_of_ne {b : Addr} (hne : b ≠ a) : (m.setNext a x).block b = m.block b :=
  m.block_put_of_ne a hne _

theorem block_setData_of_ne {b : Addr} (hne : b ≠ a) : (m.setData a y).block b = m.block b :=
  m.block_put_of_ne a hne _

theorem block_setBytes_of_ne {b : Addr} (hne : b ≠ a) (bytes : Buffer) :
    (m.setBytes a bytes).block b = m.block b :=
  m.block_put_of_ne a hne _

theorem bytesOf_setBytes (bytes : Buffer) : (m.setBytes a bytes).bytesOf a = bytes := by
  rw [bytesOf, setBytes, m.block_put_self]

theorem block_allocated_of_ne {b : Addr} (hne : b ≠ a) :
    (m.allocated a size).block b = m.block b :=
  Function.update_of_ne hne _ _

theorem member_put {β : Type} (member : Block α → β) (b : Block α) :
    (fun c => member ((m.put a b).block c))
      = Function.update (fun c => member (m.block c)) a (member b) := by
  funext c
  by_cases hc : c = a
  · subst hc
    rw [Function.update_self, m.block_put_self c]
  · rw [m.block_put_of_ne a hc, Function.update_of_ne hc]

@[simp]
theorem nextOf_setNext : (m.setNext a x).nextOf = Function.update m.nextOf a (some x) :=
  m.member_put a Block.next _

@[simp]
theorem prevOf_setPrev : (m.setPrev a x).prevOf = Function.update m.prevOf a (some x) :=
  m.member_put a Block.prev _

@[simp]
theorem nextOf_setPrev : (m.setPrev a x).nextOf = m.nextOf :=
  (m.member_put a Block.next _).trans (Function.update_eq_self a _)

@[simp]
theorem prevOf_setNext : (m.setNext a x).prevOf = m.prevOf :=
  (m.member_put a Block.prev _).trans (Function.update_eq_self a _)

@[simp]
theorem dataOf_setPrev : (m.setPrev a x).dataOf = m.dataOf :=
  (m.member_put a Block.data _).trans (Function.update_eq_self a _)

@[simp]
theorem dataOf_setNext : (m.setNext a x).dataOf = m.dataOf :=
  (m.member_put a Block.data _).trans (Function.update_eq_self a _)

@[simp]
theorem sizeOf_setSize : (m.setSize a size).sizeOf = Function.update m.sizeOf a (some size) :=
  m.member_put a Block.size _

@[simp]
theorem sizeOf_setPrev : (m.setPrev a x).sizeOf = m.sizeOf :=
  (m.member_put a Block.size _).trans (Function.update_eq_self a _)

@[simp]
theorem sizeOf_setNext : (m.setNext a x).sizeOf = m.sizeOf :=
  (m.member_put a Block.size _).trans (Function.update_eq_self a _)

@[simp]
theorem sizeOf_setData : (m.setData a y).sizeOf = m.sizeOf :=
  (m.member_put a Block.size _).trans (Function.update_eq_self a _)

@[simp]
theorem nextOf_setData : (m.setData a y).nextOf = m.nextOf :=
  (m.member_put a Block.next _).trans (Function.update_eq_self a _)

@[simp]
theorem prevOf_setData : (m.setData a y).prevOf = m.prevOf :=
  (m.member_put a Block.prev _).trans (Function.update_eq_self a _)

@[simp]
theorem dataOf_setData : (m.setData a y).dataOf = Function.update m.dataOf a (some y) :=
  m.member_put a Block.data _

@[simp]
theorem bytesOf_setData : (m.setData a y).bytesOf = m.bytesOf :=
  (m.member_put a Block.bytes _).trans (Function.update_eq_self a _)

theorem member_allocated {β : Type} (member : Block α → β) :
    (fun c => member ((m.allocated a size).block c))
      = Function.update (fun c => member (m.block c)) a
          (member ((m.allocated a size).block a)) := by
  funext c
  by_cases hc : c = a
  · subst hc
    rw [Function.update_self]
  · rw [m.block_allocated_of_ne a size hc, Function.update_of_ne hc]

theorem block_allocated_self : (m.allocated a size).block a = {
    extent := size, size := none, prev := none, next := none, data := none
    bytes := List.replicate size.toNat none, cells := fun _ => none } := by
  simp only [allocated, Function.update_self]

theorem bytesOf_allocated : (m.allocated a size).bytesOf a = List.replicate size.toNat none := by
  rw [bytesOf, block_allocated_self]

@[simp]
theorem nextOf_allocated : (m.allocated a size).nextOf = Function.update m.nextOf a none := by
  have hmember := m.member_allocated a size Block.next
  rwa [block_allocated_self] at hmember

@[simp]
theorem prevOf_allocated : (m.allocated a size).prevOf = Function.update m.prevOf a none := by
  have hmember := m.member_allocated a size Block.prev
  rwa [block_allocated_self] at hmember

@[simp]
theorem dataOf_allocated : (m.allocated a size).dataOf = Function.update m.dataOf a none := by
  have hmember := m.member_allocated a size Block.data
  rwa [block_allocated_self] at hmember

@[simp]
theorem sizeOf_allocated : (m.allocated a size).sizeOf = Function.update m.sizeOf a none := by
  have hmember := m.member_allocated a size Block.size
  rwa [block_allocated_self] at hmember

theorem setNext_setPrev (p q : Addr) : (m.setNext p q).setPrev q p = (m.setPrev q p).setNext p q := by
  by_cases heq : p = q
  · subst heq
    simp only [setNext, setPrev, put, Function.update_self, Function.update_idem]
  · simp only [setNext, setPrev, put, Function.update_of_ne heq,
      Function.update_of_ne (Ne.symm heq), Function.update_comm heq]

def SameOff (s : List Addr) (m m' : Mem α σ) : Prop := ∀ b, b ∉ s → m'.block b = m.block b

end Mem

end Gittest
