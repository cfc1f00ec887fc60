import Gittest.Lib.Simulation
import Gittest.Proof.LinkListWalk

/-!
# Callbacks on payload bytes

A callback that touches nothing of the heap but payloads, whichever they are, runs on the `Payloads` of
the heap. A `Chain` is a list of which only the addresses of the nodes are looked at: such a callback
keeps it, and taking a node out of it shortens it.
-/

namespace Gittest

open Outcome

variable {α β σ : Type}

/-- The payloads there are, and what lies outside the heap. -/
structure Payloads (α σ : Type) where
  payload : Addr → Option α
  env : σ

abbrev PayloadM (α σ : Type) := StateT (Payloads α σ) (Except Fault)

/-- A callback that touches at most payload bytes: it reads and writes payloads that are there. -/
structure Callback (α σ β : Type) where
  run : Addr → PayloadM α σ β
  keeps : ∀ a s, Meets (fun result => ∀ b, (result.2.payload b).isSome = (s.payload b).isSome)
    (fun _ => True) (run a s)

def Payloads.forget (s : Payloads α σ) (a : Addr) : Payloads α σ :=
  { s with payload := Function.update s.payload a none }

def Mem.payloads (m : Mem α σ) : Payloads α σ where
  payload a := if a ∈ m.live then m.dataOf a else none
  env := m.env

def Mem.withPayloads (m : Mem α σ) (s : Payloads α σ) : Mem α σ :=
  { m with
    block := fun a => if a ∈ m.live then { m.block a with data := s.payload a } else m.block a
    env := s.env }

/-- The callback as the functions on lists are given it. -/
def Callback.onHeap (f : Callback α σ β) (a : Addr) : MemM α σ β := fun m =>
  match f.run a m.payloads with
  | .ok (r, s) => .ok (r, m.withPayloads s)
  | .error fault => .error fault

/-- The list at `ptr` has its nodes at these addresses. -/
def Mem.Chain (m : Mem α σ) (ptr : Addr) (size : Int) (addrs : List Addr) : Prop :=
  ∃ nodes, m.IsList ptr size nodes ∧ nodes.map Prod.fst = addrs

namespace Mem

variable {m : Mem α σ} {s : Payloads α σ} {ptr a : Addr} {size : Int} {addrs us vs : List Addr}

theorem member_withPayloads {γ : Type} (member : Block α → γ)
    (hmember : ∀ (b : Block α) x, member { b with data := x } = member b) (a : Addr) :
    member ((m.withPayloads s).block a) = member (m.block a) := by
  rw [withPayloads]
  dsimp only
  split
  · exact hmember (m.block a) (s.payload a)
  · rfl

theorem dataOf_withPayloads (hlive : a ∈ m.live) : (m.withPayloads s).dataOf a = s.payload a := by
  rw [dataOf, withPayloads]
  dsimp only
  rw [if_pos hlive]

theorem payload_of_live (hlive : a ∈ m.live) : m.payloads.payload a = m.dataOf a := if_pos hlive

theorem IsList.payload {nodes : List (Addr × α)} (hlist : m.IsList ptr size nodes) {node : Addr × α}
    (hmem : node ∈ nodes) : m.payloads.payload node.1 = some node.2 := by
  rw [payload_of_live (hlist.node_live hmem), hlist.data node hmem]

theorem payloads_withPayloads
    (hkeeps : ∀ b, (s.payload b).isSome = (m.payloads.payload b).isSome) :
    (m.withPayloads s).payloads = s := by
  have hpayload : (m.withPayloads s).payloads.payload = s.payload := by
    funext b
    by_cases hlive : b ∈ m.live
    · exact (payload_of_live (m := m.withPayloads s) hlive).trans (dataOf_withPayloads hlive)
    · have hnone : s.payload b = none := by
        rw [← Option.not_isSome_iff_eq_none, hkeeps b, payloads]
        simp [hlive]
      rw [hnone]
      exact if_neg hlive
  change (⟨(m.withPayloads s).payloads.payload, s.env⟩ : Payloads α σ) = s
  rw [hpayload]

theorem withPayloads_payloads (m : Mem α σ) : m.withPayloads m.payloads = m := by
  have hblock : (m.withPayloads m.payloads).block = m.block := by
    funext b
    rw [withPayloads]
    dsimp only
    split
    · rename_i hlive
      rw [payload_of_live hlive, dataOf]
    · rfl
  change { m with block := (m.withPayloads m.payloads).block } = m
  rw [hblock]

theorem IsList.chain {nodes : List (Addr × α)} (hlist : m.IsList ptr size nodes) :
    m.Chain ptr size (nodes.map Prod.fst) := ⟨nodes, hlist, rfl⟩

theorem Chain.live (hchain : m.Chain ptr size addrs) : ∀ b ∈ ptr :: addrs, b ∈ m.live := by
  obtain ⟨nodes, hlist, rfl⟩ := hchain
  exact hlist.live

/-- A chain with these payloads is the list of the two. -/
theorem Chain.isList {nodes : List (Addr × α)} (hchain : m.Chain ptr size (nodes.map Prod.fst))
    (hdata : ∀ node ∈ nodes, m.payloads.payload node.1 = some node.2) : m.IsList ptr size nodes := by
  obtain ⟨kept, hlist, haddrs⟩ := hchain
  refine ⟨hlist.size, haddrs ▸ hlist.circular, haddrs ▸ hlist.live, fun node hmem => ?_⟩
  have hlive : node.1 ∈ m.live := by
    apply hlist.live
    rw [haddrs]
    exact List.mem_cons_of_mem ptr (List.mem_map_of_mem hmem)
  rw [← payload_of_live hlive]
  exact hdata node hmem

theorem Chain.split (hchain : m.Chain ptr size (us ++ a :: vs)) :
    ∃ before x after, m.IsList ptr size (before ++ (a, x) :: after) ∧
      before.map Prod.fst = us ∧ after.map Prod.fst = vs := by
  obtain ⟨nodes, hlist, haddrs⟩ := hchain
  obtain ⟨before, rest, rfl, hbefore, hrest⟩ := List.map_eq_append_iff.mp haddrs
  obtain ⟨node, after, rfl, rfl, hafter⟩ := List.map_eq_cons_iff.mp hrest
  exact ⟨before, node.2, after, hlist, hbefore, hafter⟩

theorem Chain.cursor (hchain : m.Chain ptr size (us ++ a :: vs)) :
    a ≠ ptr ∧ ∃ next, m.nextOf a = some next ∧ (vs ++ [ptr]).head? = some next := by
  obtain ⟨before, x, after, hlist, rfl, rfl⟩ := hchain.split
  exact hlist.cursor

theorem Chain.withPayloads (hchain : m.Chain ptr size addrs)
    (hkeeps : ∀ b, (s.payload b).isSome = (m.payloads.payload b).isSome) :
    (m.withPayloads s).Chain ptr size addrs := by
  obtain ⟨nodes, hlist, rfl⟩ := hchain
  have hnext : (m.withPayloads s).nextOf = m.nextOf :=
    funext fun b => member_withPayloads Block.next (fun _ _ => rfl) b
  have hprev : (m.withPayloads s).prevOf = m.prevOf :=
    funext fun b => member_withPayloads Block.prev (fun _ _ => rfl) b
  have haddrs : (nodes.map fun node => (node.1, (s.payload node.1).getD node.2)).map Prod.fst
      = nodes.map Prod.fst := by
    rw [List.map_map]
    rfl
  refine ⟨nodes.map fun node => (node.1, (s.payload node.1).getD node.2), ⟨?_, ?_, ?_, ?_⟩, haddrs⟩
  · exact (member_withPayloads Block.size (fun _ _ => rfl) ptr).trans hlist.size
  · rw [haddrs, hnext, hprev]
    exact hlist.circular
  · rw [haddrs]
    exact hlist.live
  · intro node hmem
    obtain ⟨old, hold, rfl⟩ := List.mem_map.mp hmem
    have hlive := hlist.node_live hold
    have hsome : (s.payload old.1).isSome = true := by
      rw [hkeeps old.1, hlist.payload hold]
      rfl
    obtain ⟨y, hy⟩ := Option.isSome_iff_exists.mp hsome
    rw [dataOf_withPayloads hlive, hy]
    rfl

theorem Chain.freed (hchain : m.Chain ptr size addrs) (hnot : a ∉ ptr :: addrs) :
    (m.freed a).Chain ptr size addrs := by
  obtain ⟨nodes, hlist, rfl⟩ := hchain
  exact ⟨nodes, hlist.freed hnot, rfl⟩

theorem payloads_freed (m : Mem α σ) (a : Addr) : (m.freed a).payloads = m.payloads.forget a := by
  have hpayload : (m.freed a).payloads.payload = Function.update m.payloads.payload a none := by
    funext b
    by_cases hb : b = a
    · subst hb
      rw [Function.update_self]
      exact if_neg (by simp)
    · rw [Function.update_of_ne hb]
      simp only [payloads, dataOf, live_freed, block_freed, Finset.mem_erase, ne_eq, hb,
        not_false_eq_true, true_and]
  change (⟨(m.freed a).payloads.payload, m.env⟩ : Payloads α σ) = _
  rw [hpayload]
  rfl

/-- Taking a node out is a matter of links. -/
theorem Chain.unlink (hchain : m.Chain ptr size (us ++ a :: vs)) :
    ∃ m', unlinkNode a m = .ok ((), m') ∧ m'.Chain ptr size (us ++ vs) ∧ m'.live = m.live ∧
      m'.payloads = m.payloads ∧ a ∈ m.live ∧ a ∉ ptr :: (us ++ vs) := by
  obtain ⟨before, x, after, hlist, rfl, rfl⟩ := hchain.split
  obtain ⟨p, q, hunlink, hunlinked⟩ := unlinkNode_linkedOut hlist
  have hdata : (m.linkedOut p q).dataOf = m.dataOf := by
    rw [linkedOut, dataOf_setNext, dataOf_setPrev]
  have hnot := hunlinked.notMem
  rw [List.map_append] at hnot
  refine ⟨m.linkedOut p q, hunlink, ?_, hunlinked.live, ?_, hunlinked.node_live, hnot⟩
  · rw [← List.map_append]
    exact hunlinked.isList.chain
  · rw [payloads, hdata]
    rfl

end Mem

/-! ### The callbacks simulated -/

def handPayload (nodeOp : Option (Callback α σ Unit)) (a : Addr) : PayloadM α σ Unit :=
  match nodeOp with
  | some op => op.run a
  | none => return

/-- The node is handed to `node_op`, and its payload is gone. -/
def releasePayload (nodeOp : Option (Callback α σ Unit)) (a : Addr) : PayloadM α σ Unit := do
  handPayload nodeOp a
  modify fun s => s.forget a

section Simulated

variable {m : Mem α σ} {ptr a : Addr} {size : Int} {addrs us vs : List Addr}

theorem Callback.onHeap_simulates (f : Callback α σ β) (hchain : m.Chain ptr size addrs) (a : Addr) :
    Simulates Mem.payloads
      (fun r r' m' => r = r' ∧ m'.Chain ptr size addrs ∧ m'.live = m.live)
      (f.onHeap a m) (f.run a m.payloads) := by
  have hkeeps := f.keeps a m.payloads
  rw [Callback.onHeap]
  cases hrun : f.run a m.payloads with
  | error fault => rfl
  | ok result =>
      rw [hrun] at hkeeps
      exact ⟨result.1, _, rfl, Mem.payloads_withPayloads hkeeps, rfl, hchain.withPayloads hkeeps, rfl⟩

theorem callNodeOp_simulates (nodeOp : Option (Callback α σ Unit)) (hchain : m.Chain ptr size addrs)
    (a : Addr) :
    Simulates Mem.payloads (fun _ _ m' => m'.Chain ptr size addrs ∧ m'.live = m.live)
      (callNodeOp (nodeOp.map Callback.onHeap) a m)
      (handPayload nodeOp a m.payloads) := by
  cases nodeOp with
  | none => exact Simulates.pure_pure ⟨hchain, rfl⟩
  | some op =>
      exact (op.onHeap_simulates hchain a).mono fun _ _ _ hkept => hkept.2

theorem removeNode_simulates (nodeOp : Option (Callback α σ Unit))
    (hchain : m.Chain ptr size (us ++ a :: vs)) :
    Simulates Mem.payloads
      (fun _ _ m' => m'.Chain ptr size (us ++ vs) ∧ m'.live = m.live.erase a)
      ((do unlinkNode a; callNodeOp (nodeOp.map Callback.onHeap) a; freeBlock a : MemM α σ Unit) m)
      (releasePayload nodeOp a m.payloads) := by
  obtain ⟨m₁, hunlink, hchain₁, hlive₁, hpayloads, ha, hnot⟩ := hchain.unlink
  rw [run_bind hunlink, ← hpayloads, releasePayload]
  apply (callNodeOp_simulates nodeOp hchain₁ a).bind
  rintro _ _ m₂ ⟨hchain₂, hlive₂⟩
  have ha₂ : a ∈ m₂.live := by
    rw [hlive₂, hlive₁]
    exact ha
  rw [freeBlock_ok ha₂]
  refine ⟨(), m₂.freed a, rfl, m₂.payloads_freed a, hchain₂.freed hnot, ?_⟩
  rw [Mem.live_freed, hlive₂, hlive₁]

end Simulated

end Gittest
