import Gittest.Lib.Calls
import Gittest.Lib.Ledger
import Gittest.Proof.XRingCreate
import Gittest.XRingHeap

/-!
# The ring owns its memory

Whatever `malloc` answers: a ring that has been made, and used without a crash, owns its own block and
one for each entry that has one; its callers own those of their entries, and nothing else is live that
was not before. The destructor frees what the ring owns. Nothing is freed twice, or used after that, as
it would be a fault. That the destructor is given an `op` that frees is one.
-/

namespace Gittest

open Ledger Outcome

variable {α σ ι : Type}

/-- Where a pointer to a block is kept. -/
inductive RingPlace (ι : Type) where
  | header
  | slot (i : Nat)
  | out (o : ι)
  deriving DecidableEq

def HeapClient.held (s : HeapClient ι) : RingPlace ι → Option Addr
  | .header => some s.ring.block
  | .slot i => s.ring.ring[i]?.bind HeapEntry.data
  | .out o => (s.outs o).data

/-- What the callers hold where there is no ring. -/
def outsHeld (outs : ι → HeapEntry) : RingPlace ι → Option Addr
  | .out o => (outs o).data
  | _ => none

/-! ### One access -/

section Accesses

variable {P : Type} [DecidableEq P] {held : P → Option Addr} {base : Finset Addr} {m : Mem α σ} {p : P}

theorem freeData_owns (howns : Owns held base m.live) (p : P) :
    ∃ m', freeData (held p) m = .ok ((), m') ∧ m'.block = m.block ∧
      Owns (Function.update held p none) base m'.live := by
  cases hp : held p with
  | none =>
      refine ⟨m, rfl, rfl, howns.congr fun q => ?_⟩
      rw [← hp, Function.update_eq_self]
  | some a => exact ⟨m.freed a, if_pos (howns.mem_live hp), rfl, howns.release hp⟩

theorem mallocBlock_owns (howns : Owns held base m.live) (hp : held p = none) (alloc : Allocator)
    (size : Int) : ∃ x m', mallocBlock alloc size m = .ok (x, m') ∧
      (∀ a, x ≠ some a → m'.block a = m.block a) ∧ Owns (Function.update held p x) base m'.live := by
  cases hanswer : m.answer alloc size with
  | none =>
      refine ⟨none, m.refused, mallocBlock_none hanswer, fun _ _ => rfl, howns.congr fun q => ?_⟩
      rw [← hp, Function.update_eq_self]
  | some a =>
      have hfresh : a ∉ m.live := Mem.answer_fresh hanswer
      refine ⟨some a, m.allocated a size, mallocBlock_some hanswer, fun b hb => ?_,
        howns.acquire hp hfresh⟩
      exact Function.update_of_ne (fun h => hb (by rw [h])) _ _

/-- A block makes way for another. -/
theorem renewBlock_owns (howns : Owns held base m.live) (p : P) (alloc : Allocator) (size : Int) :
    ∃ m₁ x m', freeData (held p) m = .ok ((), m₁) ∧ mallocBlock alloc size m₁ = .ok (x, m') ∧
      (∀ a, x ≠ some a → m'.block a = m.block a) ∧ Owns (Function.update held p x) base m'.live := by
  obtain ⟨m₁, hfree, hblock, howns₁⟩ := freeData_owns howns p
  obtain ⟨x, m', hmalloc, hsame, howns'⟩ :=
    mallocBlock_owns howns₁ (Function.update_self p none held) alloc size
  rw [Function.update_idem] at howns'
  exact ⟨m₁, x, m', hfree, hmalloc, fun a ha => by rw [hsame a ha, hblock], howns'⟩

end Accesses

/-! ### What leaves the live blocks as they are -/

/-- The live blocks stay what they are, and the result is as `ok` says. -/
def Leaves {β : Type} (x : MemM α σ β) (ok : β → Prop) : Prop :=
  ∀ m result, x m = .ok result → ok result.1 ∧ result.2.live = m.live

namespace Leaves

variable {β γ : Type} {ok : β → Prop} {ok' : γ → Prop}

theorem bind {x : MemM α σ β} {f : β → MemM α σ γ} (hx : Leaves x ok)
    (hf : ∀ b, ok b → Leaves (f b) ok') : Leaves (x >>= f) ok' := by
  intro m result hrun
  obtain ⟨b, m', hb, hrest⟩ := of_run_bind hrun
  obtain ⟨hok, hlive⟩ := hx m (b, m') hb
  obtain ⟨hok', hlive'⟩ := hf b hok m' result hrest
  exact ⟨hok', hlive'.trans hlive⟩

theorem pure {b : β} (hb : ok b) : Leaves (pure b : MemM α σ β) ok := by
  intro m result hrun
  cases hrun
  exact ⟨hb, rfl⟩

theorem throw (fault : Fault) : Leaves (throw fault : MemM α σ β) ok := by
  intro m result hrun
  cases hrun

theorem lift (x : Except Fault β) : Leaves (liftM x : MemM α σ β) fun _ => True := by
  intro m result hrun
  cases x with
  | error fault => cases hrun
  | ok b =>
      cases hrun
      exact ⟨trivial, rfl⟩

theorem deref (q : Option Addr) : Leaves (deref q : MemM α σ Addr) fun _ => True := by
  cases q with
  | none => exact throw _
  | some a => exact pure trivial

theorem readBytes (a : Addr) : Leaves (readBytes a : MemM α σ Buffer) fun _ => True := by
  intro m result hrun
  unfold Gittest.readBytes readBlock at hrun
  split at hrun
  · cases hrun
    exact ⟨trivial, rfl⟩
  · cases hrun

theorem writeBytes (a : Addr) (bytes : Buffer) :
    Leaves (writeBytes a bytes : MemM α σ Unit) fun _ => True := by
  intro m result hrun
  unfold Gittest.writeBytes writeBlock at hrun
  split at hrun
  · cases hrun
    exact ⟨trivial, rfl⟩
  · cases hrun

theorem useBlock (a : Addr) : Leaves (useBlock a : MemM α σ Unit) fun _ => True := by
  intro m result hrun
  unfold Gittest.useBlock at hrun
  split at hrun
  · cases hrun
    exact ⟨trivial, rfl⟩
  · cases hrun

end Leaves

/-! ### What an access does to an entry -/

/-- The entry that comes out holds its block in the place of the one that went in, if it comes out. -/
def Renews (ι : Type) [DecidableEq ι] (f : HeapEntry → MemM α σ HeapEntry) : Prop :=
  ∀ (held : RingPlace ι → Option Addr) (base : Finset Addr) (m : Mem α σ) (p : RingPlace ι) (e : HeapEntry),
    Owns held base m.live → held p = e.data →
    Meets (fun result => Owns (Function.update held p result.1.data) base result.2.live)
      (fun _ => True) (f e m)

namespace HeapEntry

variable [DecidableEq ι]

theorem renews_of_leaves {f : HeapEntry → MemM α σ HeapEntry}
    (hleaves : ∀ e, Leaves (f e) fun e' => e'.data = e.data) : Renews ι f := by
  intro held base m p e howns hp
  apply Meets.of_eq_ok
  intro result hresult
  obtain ⟨hdata, hlive⟩ := hleaves e m result hresult
  rw [hdata, hlive, ← hp]
  exact howns.congr fun q => by rw [Function.update_eq_self]

theorem grow_renews (alloc : Allocator) (size : Int) :
    Renews ι (grow alloc size : HeapEntry → MemM α σ HeapEntry) := by
  intro held base m p e howns hp
  unfold grow
  split
  · obtain ⟨m₁, x, m', hfree, hmalloc, -, howns'⟩ := renewBlock_owns howns p alloc size
    rw [hp] at hfree
    rw [run_bind hfree, run_bind hmalloc]
    exact howns'
  · change Owns (Function.update held p e.data) base m.live
    rw [← hp]
    exact howns.congr fun q => by rw [Function.update_eq_self]

theorem growOut_renews (alloc : Allocator) (slot : HeapEntry) :
    Renews ι (slot.growOut alloc : HeapEntry → MemM α σ HeapEntry) := by
  intro held base m p e howns hp
  unfold growOut
  split
  · obtain ⟨m₁, x, m', hfree, hmalloc, -, howns'⟩ := renewBlock_owns howns p alloc slot.size
    rw [hp] at hfree
    rw [run_bind hfree, run_bind hmalloc]
    exact howns'
  · change Owns (Function.update held p e.data) base m.live
    rw [← hp]
    exact howns.congr fun q => by rw [Function.update_eq_self]

theorem copyIn_renews (data : Buffer) (size : Int) :
    Renews ι (copyIn data size : HeapEntry → MemM α σ HeapEntry) :=
  renews_of_leaves fun e => (Leaves.deref e.data).bind fun a _ => (Leaves.readBytes a).bind fun _ _ =>
    (Leaves.lift _).bind fun copied _ => (Leaves.writeBytes a copied).bind fun _ _ => Leaves.pure rfl

theorem copyBy_renews (copy : CopyFn) (data : Buffer) (size : Int) :
    Renews ι (copyBy copy data size : HeapEntry → MemM α σ HeapEntry) := by
  refine renews_of_leaves fun e => (Leaves.deref e.data).bind fun a _ =>
    (Leaves.readBytes a).bind fun bytes _ => ?_
  split
  · exact (Leaves.lift _).bind fun result _ => (Leaves.writeBytes a result.1).bind fun _ _ =>
      Leaves.pure rfl
  · exact Leaves.throw _

theorem setContentLength_renews (length : Int) :
    Renews ι (setContentLength length : HeapEntry → MemM α σ HeapEntry) :=
  renews_of_leaves fun _ => Leaves.pure rfl

theorem copyOut_renews (slot : HeapEntry) :
    Renews ι (slot.copyOut : HeapEntry → MemM α σ HeapEntry) :=
  renews_of_leaves fun out => (Leaves.deref out.data).bind fun dst _ => (Leaves.deref slot.data).bind
    fun src _ => (Leaves.readBytes dst).bind fun _ _ => (Leaves.readBytes src).bind fun _ _ =>
    (Leaves.lift _).bind fun copied _ => (Leaves.writeBytes dst copied).bind fun _ _ => Leaves.pure rfl

theorem setOutLength_renews (slot : HeapEntry) :
    Renews ι (slot.setOutLength : HeapEntry → MemM α σ HeapEntry) :=
  renews_of_leaves fun _ => Leaves.pure rfl

end HeapEntry

/-! ### Calls -/

/-- What a client holds, where that and what belongs to others is what is live. -/
def HeapClient.Owns (s : HeapClient ι) (base : Finset Addr) (m : Mem α σ) : Prop :=
  Ledger.Owns s.held base m.live

theorem HeapClient.held_slot {s : HeapClient ι} {i : Nat} {e : HeapEntry} (he : s.ring.ring[i]? = some e) :
    s.held (.slot i) = e.data := by
  rw [held, he]
  rfl

theorem HeapClient.held_setSlot [DecidableEq ι] {s : HeapClient ι} {i : Nat} (hi : i < s.ring.ring.length)
    (e : HeapEntry) (p : RingPlace ι) :
    ({ s with ring := { s.ring with ring := s.ring.ring.set i e } } : HeapClient ι).held p
      = Function.update s.held (.slot i) e.data p := by
  cases p with
  | slot j =>
      by_cases hj : j = i
      · subst hj
        rw [Function.update_self, held, List.getElem?_set_self hi]
        rfl
      · have hne : (RingPlace.slot j : RingPlace ι) ≠ .slot i := fun h => hj (RingPlace.slot.inj h)
        rw [Function.update_of_ne hne, held, List.getElem?_set_ne (Ne.symm hj)]
        rfl
  | header => rfl
  | out o => rfl

theorem HeapClient.held_setOut [DecidableEq ι] (s : HeapClient ι) (o : ι) (e : HeapEntry) (p : RingPlace ι) :
    ({ s with outs := Function.update s.outs o e } : HeapClient ι).held p
      = Function.update s.held (.out o) e.data p := by
  cases p with
  | out q =>
      by_cases hq : q = o
      · subst hq
        change (Function.update s.outs q e q).data = _
        rw [Function.update_self, Function.update_self]
      · have hne : (RingPlace.out q : RingPlace ι) ≠ .out o := fun h => hq (RingPlace.out.inj h)
        change (Function.update s.outs o e q).data = _
        rw [Function.update_of_ne hne, Function.update_of_ne hq]
        rfl
  | header => rfl
  | slot j => rfl

theorem Leaves.meets {β : Type} {x : MemM α σ β} {ok : β → Prop} (hx : Leaves x ok) (m : Mem α σ) :
    Meets (fun result => ok result.1 ∧ result.2.live = m.live) (fun _ => True) (x m) :=
  Meets.of_eq_ok (hx m)

section Calls

variable [DecidableEq ι] {s : HeapClient ι} {r : HeapRing} {outs : ι → HeapEntry} {base : Finset Addr}
  {m m' : Mem α σ}

omit [DecidableEq ι] in
theorem HeapClient.Owns.of_live (howns : s.Owns base m) (hlive : m'.live = m.live) : s.Owns base m' := by
  rwa [Owns, hlive]

theorem HeapRing.modify_owns {f : HeapEntry → MemM α σ HeapEntry} (hf : Renews ι f)
    (howns : HeapClient.Owns ⟨r, outs⟩ base m) (i : UInt32) :
    Meets (fun result => HeapClient.Owns ⟨result.1, outs⟩ base result.2) (fun _ => True)
      (r.modify i f m) := by
  cases he : r.ring[i.toNat]? with
  | none =>
      rw [modify, entry, he]
      trivial
  | some e =>
      have hentry : r.entry i m = .ok (e, m) := by
        rw [entry, he]
        rfl
      rw [modify, run_bind hentry]
      refine (hf _ base m (.slot i.toNat) e howns (HeapClient.held_slot he)).run_bind fun e' m₁ howns₁ => ?_
      exact Ledger.Owns.congr howns₁ (HeapClient.held_setSlot (s := ⟨r, outs⟩)
        (List.getElem?_eq_some_iff.mp he).1 e')

theorem HeapRing.mpReserve_eq (r : HeapRing) (patience : Nat) : r.mpReserve patience
    = if (r.prodHead + 1) &&& r.mask = r.consTail then .ok none
      else .ok (some (r.prodHead, (r.prodHead + 1) &&& r.mask,
        { r with prodHead := (r.prodHead + 1) &&& r.mask })) := by
  unfold mpReserve
  simp [atomic32Cmpset]

theorem HeapRing.mcReserve_eq (r : HeapRing) (patience : Nat) : r.mcReserve patience
    = if r.consHead = r.prodTail then .ok none
      else .ok (some (r.consHead, (r.consHead + 1) &&& r.mask,
        { r with consHead := (r.consHead + 1) &&& r.mask })) := by
  unfold mcReserve
  simp [atomic32Cmpset]

theorem HeapRing.xRingSpEnqueue_owns (howns : HeapClient.Owns ⟨r, outs⟩ base m) (alloc : Allocator)
    (data : Buffer) (size : Int) :
    Meets (fun result => HeapClient.Owns ⟨result.1.2, outs⟩ base result.2) (fun _ => True)
      (r.xRingSpEnqueue alloc data size m) := by
  refine ((Leaves.useBlock r.block).meets m).run_bind fun _ m₁ h₁ => ?_
  have howns₁ : HeapClient.Owns ⟨r, outs⟩ base m₁ := howns.of_live h₁.2
  dsimp only
  split
  · exact howns₁
  · have howns₀ : HeapClient.Owns ⟨{ r with prodHead := (r.prodHead + 1) &&& r.mask }, outs⟩ base m₁ := howns₁
    refine (modify_owns (HeapEntry.grow_renews alloc size) howns₀ _).run_bind fun r₂ m₂ howns₂ => ?_
    refine (modify_owns (HeapEntry.copyIn_renews data size) howns₂ _).run_bind fun r₃ m₃ howns₃ => ?_
    refine (modify_owns (HeapEntry.setContentLength_renews size) howns₃ _).run_bind fun r₄ m₄ howns₄ => ?_
    exact howns₄

theorem HeapRing.xRingSpEnqueue2_owns (howns : HeapClient.Owns ⟨r, outs⟩ base m) (alloc : Allocator)
    (copy : CopyFn) (data : Buffer) (size : Int) :
    Meets (fun result => HeapClient.Owns ⟨result.1.2, outs⟩ base result.2) (fun _ => True)
      (r.xRingSpEnqueue2 alloc copy data size m) := by
  refine ((Leaves.useBlock r.block).meets m).run_bind fun _ m₁ h₁ => ?_
  have howns₁ : HeapClient.Owns ⟨r, outs⟩ base m₁ := howns.of_live h₁.2
  dsimp only
  split
  · exact howns₁
  · have howns₀ : HeapClient.Owns ⟨{ r with prodHead := (r.prodHead + 1) &&& r.mask }, outs⟩ base m₁ := howns₁
    refine (modify_owns (HeapEntry.grow_renews alloc size) howns₀ _).run_bind fun r₂ m₂ howns₂ => ?_
    refine (modify_owns (HeapEntry.copyBy_renews copy data size) howns₂ _).run_bind fun r₃ m₃ howns₃ => ?_
    exact howns₃

theorem HeapRing.xRingMpEnqueue_owns (howns : HeapClient.Owns ⟨r, outs⟩ base m) (alloc : Allocator)
    (patience : Nat) (data : Buffer) (size : Int) :
    Meets (fun result => HeapClient.Owns ⟨result.1.2, outs⟩ base result.2) (fun _ => True)
      (r.xRingMpEnqueue alloc patience data size m) := by
  refine ((Leaves.useBlock r.block).meets m).run_bind fun _ m₁ h₁ => ?_
  have howns₁ : HeapClient.Owns ⟨r, outs⟩ base m₁ := howns.of_live h₁.2
  rw [mpReserve_eq]
  split
  · exact howns₁
  · have howns₀ : HeapClient.Owns ⟨{ r with prodHead := (r.prodHead + 1) &&& r.mask }, outs⟩ base m₁ := howns₁
    rw [run_bind rfl]
    refine (modify_owns (HeapEntry.grow_renews alloc size) howns₀ _).run_bind fun r₂ m₂ howns₂ => ?_
    refine (modify_owns (HeapEntry.copyIn_renews data size) howns₂ _).run_bind fun r₃ m₃ howns₃ => ?_
    refine (modify_owns (HeapEntry.setContentLength_renews size) howns₃ _).run_bind fun r₄ m₄ howns₄ => ?_
    refine ((Leaves.lift _).meets m₄).run_bind fun _ m₅ h₅ => ?_
    exact howns₄.of_live h₅.2

theorem Renews.again {f : HeapEntry → MemM α σ HeapEntry} (hf : Renews ι f)
    {held : RingPlace ι → Option Addr} {p : RingPlace ι} {e : HeapEntry}
    (howns : Ledger.Owns (Function.update held p e.data) base m.live) :
    Meets (fun result => Ledger.Owns (Function.update held p result.1.data) base result.2.live)
      (fun _ => True) (f e m) := by
  have hmeets := hf _ base m p e howns (Function.update_self ..)
  simpa only [Function.update_idem] using hmeets

omit [DecidableEq ι] in
theorem HeapRing.entry_leaves (r : HeapRing) (i : UInt32) :
    Leaves (r.entry i : MemM α σ HeapEntry) fun _ => True := by
  unfold entry
  split
  · exact Leaves.pure trivial
  · exact Leaves.throw _

theorem HeapClient.Owns.setOut {o : ι} {out : HeapEntry}
    (howns : Ledger.Owns (Function.update (HeapClient.held ⟨r, outs⟩) (.out o) out.data) base m.live) :
    HeapClient.Owns ⟨r, Function.update outs o out⟩ base m :=
  Ledger.Owns.congr howns (HeapClient.held_setOut ⟨r, outs⟩ o out)

/-- What a dequeue does to the entry of its caller, before it goes on. -/
theorem HeapRing.drain_owns {o : ι} {out : HeapEntry} {γ : Type} {next : γ × Mem α σ → Prop}
    {k : HeapEntry → MemM α σ γ} (howns : HeapClient.Owns ⟨r, Function.update outs o out⟩ base m)
    (alloc : Allocator) (i : UInt32)
    (hk : ∀ out' m', HeapClient.Owns ⟨r, Function.update outs o out'⟩ base m' →
      Meets next (fun _ => True) (k out' m')) :
    Meets next (fun _ => True) ((do
      let out ← (← r.entry i).growOut alloc out
      let out ← (← r.entry i).copyOut out
      let out ← (← r.entry i).setOutLength out
      k out) m) := by
  have hheld : Ledger.Owns (Function.update (HeapClient.held ⟨r, outs⟩) (.out o) out.data) base m.live :=
    Ledger.Owns.congr howns fun p => (HeapClient.held_setOut ⟨r, outs⟩ o out p).symm
  refine ((entry_leaves r i).meets m).run_bind fun slot₁ m₁ h₁ => ?_
  rw [← h₁.2] at hheld
  refine ((HeapEntry.growOut_renews alloc slot₁).again hheld).run_bind fun out₂ m₂ hheld₂ => ?_
  refine ((entry_leaves r i).meets m₂).run_bind fun slot₃ m₃ h₃ => ?_
  dsimp only at hheld₂
  rw [← h₃.2] at hheld₂
  refine ((HeapEntry.copyOut_renews slot₃).again hheld₂).run_bind fun out₄ m₄ hheld₄ => ?_
  refine ((entry_leaves r i).meets m₄).run_bind fun slot₅ m₅ h₅ => ?_
  dsimp only at hheld₄
  rw [← h₅.2] at hheld₄
  refine ((HeapEntry.setOutLength_renews slot₅).again hheld₄).run_bind fun out₆ m₆ hheld₆ => ?_
  exact hk out₆ m₆ (HeapClient.Owns.setOut hheld₆)

theorem HeapRing.xRingScDequeue_owns (howns : HeapClient.Owns ⟨r, outs⟩ base m) (alloc : Allocator) (o : ι) :
    Meets (fun result => HeapClient.Owns ⟨result.1.2.1, Function.update outs o result.1.2.2⟩ base result.2)
      (fun _ => True) (r.xRingScDequeue alloc (outs o) m) := by
  refine ((Leaves.useBlock r.block).meets m).run_bind fun _ m₁ h₁ => ?_
  have howns₁ : HeapClient.Owns ⟨r, Function.update outs o (outs o)⟩ base m₁ := by
    rw [Function.update_eq_self]
    exact howns.of_live h₁.2
  dsimp only
  split
  · exact howns₁
  · have howns₀ : HeapClient.Owns ⟨{ r with consHead := (r.consHead + 1) &&& r.mask },
        Function.update outs o (outs o)⟩ base m₁ := howns₁
    exact drain_owns howns₀ alloc r.consHead fun out m h => h

theorem HeapRing.xRingMcDequeue_owns (howns : HeapClient.Owns ⟨r, outs⟩ base m) (alloc : Allocator)
    (patience : Nat) (o : ι) :
    Meets (fun result => HeapClient.Owns ⟨result.1.2.1, Function.update outs o result.1.2.2⟩ base result.2)
      (fun _ => True) (r.xRingMcDequeue alloc patience (outs o) m) := by
  refine ((Leaves.useBlock r.block).meets m).run_bind fun _ m₁ h₁ => ?_
  have howns₁ : HeapClient.Owns ⟨r, Function.update outs o (outs o)⟩ base m₁ := by
    rw [Function.update_eq_self]
    exact howns.of_live h₁.2
  rw [mcReserve_eq]
  split
  · exact howns₁
  · have howns₀ : HeapClient.Owns ⟨{ r with consHead := (r.consHead + 1) &&& r.mask },
        Function.update outs o (outs o)⟩ base m₁ := howns₁
    rw [run_bind rfl]
    refine drain_owns howns₀ alloc r.consHead fun out m₂ howns₂ => ?_
    refine ((Leaves.lift _).meets m₂).run_bind fun _ m₃ h₃ => ?_
    exact howns₂.of_live h₃.2

omit [DecidableEq ι] in
theorem HeapEntry.payload_leaves (e : HeapEntry) :
    Leaves (e.payload : MemM α σ (Int × Buffer)) fun _ => True :=
  (Leaves.deref e.data).bind fun a _ => (Leaves.readBytes a).bind fun _ _ => Leaves.pure trivial

/-- **One call.** -/
theorem XRingCall.call_owns (howns : s.Owns base m) (alloc : Allocator) (patience : Nat)
    (call : XRingCall ι) : Meets (fun result => result.1.2.Owns base result.2) (fun _ => True)
      (call.call alloc patience s m) := by
  have hdequeued : ∀ (o : ι) (result : Int × HeapRing × HeapEntry) (m' : Mem α σ),
      HeapClient.Owns ⟨result.2.1, Function.update s.outs o result.2.2⟩ base m' →
      Meets (fun result => result.1.2.Owns base result.2) (fun _ => True) (s.dequeued o result m') := by
    intro o result m' howns'
    unfold HeapClient.dequeued
    dsimp only
    split
    · refine ((HeapEntry.payload_leaves _).meets m').run_bind fun _ m₂ h₂ => ?_
      exact howns'.of_live h₂.2
    · exact howns'
  cases call with
  | spEnqueue data size =>
      exact (HeapRing.xRingSpEnqueue_owns howns alloc data size).run_bind fun _ _ howns' => howns'
  | spEnqueue2 copy data size =>
      exact (HeapRing.xRingSpEnqueue2_owns howns alloc copy data size).run_bind fun _ _ howns' => howns'
  | mpEnqueue data size =>
      exact (HeapRing.xRingMpEnqueue_owns howns alloc patience data size).run_bind fun _ _ howns' => howns'
  | scDequeue o =>
      exact (HeapRing.xRingScDequeue_owns howns alloc o).run_bind fun _ _ howns' => hdequeued o _ _ howns'
  | mcDequeue o =>
      exact (HeapRing.xRingMcDequeue_owns howns alloc patience o).run_bind
        fun _ _ howns' => hdequeued o _ _ howns'

theorem XRingCall.execHeap_owns {c : HeapClient ι × Mem α σ} (howns : c.1.Owns base c.2)
    (alloc : Allocator) (patience : Nat) (call : XRingCall ι) :
    Meets (fun result => result.2.1.Owns base result.2.2) (fun _ => True)
      (call.execHeap alloc patience c) :=
  (call.call_owns howns alloc patience).bind fun _ howns' => howns'

end Calls

/-! ### Creation -/

/-- What is held once the entries from `i` on are `entries`. -/
def heldWith (held : RingPlace ι → Option Addr) (i : Nat) (entries : List HeapEntry) :
    RingPlace ι → Option Addr
  | .slot j => if i ≤ j then entries[j - i]?.bind HeapEntry.data else held (.slot j)
  | p => held p

section Creation

variable [DecidableEq ι] {base : Finset Addr}

omit [DecidableEq ι] in
theorem heldWith_nil {held : RingPlace ι → Option Addr} {i : Nat}
    (hnone : ∀ j, i ≤ j → held (.slot j) = none) (p : RingPlace ι) : heldWith held i [] p = held p := by
  cases p with
  | slot j =>
      by_cases hj : i ≤ j
      · rw [heldWith, if_pos hj, hnone j hj]
        rfl
      · rw [heldWith, if_neg hj]
  | header => rfl
  | out o => rfl

theorem heldWith_cons (held : RingPlace ι → Option Addr) (i : Nat) (e : HeapEntry) (rest : List HeapEntry)
    (p : RingPlace ι) : heldWith held i (e :: rest) p
      = heldWith (Function.update held (.slot i) e.data) (i + 1) rest p := by
  cases p with
  | slot j =>
      rw [heldWith, heldWith]
      rcases Nat.lt_trichotomy j i with hlt | rfl | hgt
      · have hne : (RingPlace.slot j : RingPlace ι) ≠ .slot i := fun h => by cases h; omega
        rw [if_neg (by omega), if_neg (by omega), Function.update_of_ne hne]
      · rw [if_pos le_rfl, if_neg (by omega), Nat.sub_self, Function.update_self]
        rfl
      · obtain ⟨k, rfl⟩ : ∃ k, j = i + 1 + k := ⟨j - (i + 1), by omega⟩
        rw [if_pos (by omega), if_pos (by omega), Nat.add_sub_cancel_left,
          show i + 1 + k - i = k + 1 by omega, List.getElem?_cons_succ]
  | header => rfl
  | out o => rfl

theorem createEntries_owns (alloc : Allocator) (garbage : Nat → Int) (ringbufSize : Int) (n : Nat) :
    ∀ (held : RingPlace ι → Option Addr) (i : Nat) (m : Mem α σ),
      Ledger.Owns held base m.live → (∀ j, i ≤ j → held (.slot j) = none) →
      ∃ entries m', createEntries alloc garbage ringbufSize i n m = .ok (entries, m') ∧
        Ledger.Owns (heldWith held i entries) base m'.live := by
  induction n with
  | zero => exact fun held i m howns hnone => ⟨[], m, rfl, howns.congr (heldWith_nil hnone)⟩
  | succ n ih =>
      intro held i m howns hnone
      obtain ⟨x, m₁, hmalloc, -, howns₁⟩ := mallocBlock_owns howns (hnone i le_rfl) alloc ringbufSize
      obtain ⟨rest, m', hrest, howns'⟩ := ih _ (i + 1) m₁ howns₁ fun j hj => by
        have hne : (RingPlace.slot j : RingPlace ι) ≠ .slot i := fun h => by cases h; omega
        rw [Function.update_of_ne hne]
        exact hnone j (by omega)
      refine ⟨⟨ringbufSize, garbage i, x⟩ :: rest, m', ?_, howns'.congr (heldWith_cons held i _ rest)⟩
      rw [createEntries, run_bind hmalloc, run_bind hrest]
      rfl

theorem roundedCount_total (count : UInt32) : ∃ size, roundedCount count = .ok size := by
  unfold roundedCount
  split
  · exact ⟨count, rfl⟩
  · by_cases hzero : count = 0
    · subst hzero
      exact ⟨0, by decide⟩
    · obtain ⟨p, hp, -⟩ := roundupPowerOfTwo_eq (show count.toUInt64.toNat ≠ 0 by
        rw [UInt32.toNat_toUInt64]
        exact fun h => hzero (UInt32.toNat_inj.mp h))
      rw [hp]
      exact ⟨p.toUInt32, rfl⟩

/-- **Creation.** It gives back a ring, or `NULL` and the heap as it was. -/
theorem HeapRing.xRingCreate_owns {outs : ι → HeapEntry} {m : Mem α σ}
    (howns : Ledger.Owns (outsHeld outs) base m.live) (alloc : Allocator) (garbage : Nat → Int)
    (count : UInt32) (ringbufSize : Int) :
    ∃ result m', xRingCreate alloc garbage count ringbufSize m = .ok (result, m') ∧
      (result = none → m'.live = m.live) ∧
      ∀ r, result = some r → HeapClient.Owns ⟨r, outs⟩ base m' := by
  obtain ⟨size, hround⟩ := roundedCount_total count
  have hlift : (liftM (roundedCount count) : MemM α σ UInt32) m = .ok (size, m) := by
    rw [hround]
    rfl
  obtain ⟨x, m₁, hmalloc, -, howns₁⟩ := mallocBlock_owns (p := .header) howns rfl alloc (ringBytes size)
  cases x with
  | none =>
      refine ⟨none, m₁, ?_, fun _ => ?_, fun r hr => ?_⟩
      · rw [xRingCreate, run_bind hlift, run_bind hmalloc]
        rfl
      · cases hanswer : m.answer alloc (ringBytes size) with
        | none =>
            rw [mallocBlock_none hanswer] at hmalloc
            cases hmalloc
            rfl
        | some a =>
            rw [mallocBlock_some hanswer] at hmalloc
            cases hmalloc
      · cases hr
  | some block =>
      obtain ⟨entries, m', hentries, howns'⟩ :=
        createEntries_owns alloc garbage ringbufSize size.toNat _ 0 m₁ howns₁ fun _ _ => rfl
      let r : HeapRing := {
        block := block, prodHead := 0, prodTail := 0, consHead := 0, consTail := 0
        size := size, mask := size - 1, ring := entries }
      refine ⟨some r, m', ?_, ?_, fun r' hr => ?_⟩
      · rw [xRingCreate, run_bind hlift, run_bind hmalloc]
        exact run_bind hentries
      · intro hnone
        cases hnone
      · cases hr
        refine howns'.congr fun p => ?_
        cases p <;> rfl

end Creation

/-! ### Destruction -/

/-- An `op` that frees nothing and allocates nothing. -/
def SparesBlocks (op : Option (Addr → MemM α σ Unit)) : Prop :=
  ∀ f ∈ op, ∀ (a : Addr) (m : Mem α σ), a ∈ m.live → ∃ m', f a m = .ok ((), m') ∧ m'.live = m.live

section Destruction

variable [DecidableEq ι] {base : Finset Addr} {op : Option (Addr → MemM α σ Unit)}

theorem heldWith_nil_succ (held : RingPlace ι → Option Addr) (i : Nat) (p : RingPlace ι) :
    heldWith held i [] p = heldWith (Function.update held (.slot i) none) (i + 1) [] p := by
  cases p with
  | slot j =>
      rw [heldWith, heldWith]
      rcases Nat.lt_trichotomy j i with hlt | rfl | hgt
      · have hne : (RingPlace.slot j : RingPlace ι) ≠ .slot i := fun h => by cases h; omega
        rw [if_neg (by omega), if_neg (by omega), Function.update_of_ne hne]
      · rw [if_pos le_rfl, if_neg (by omega), Function.update_self]
        rfl
      · rw [if_pos (by omega), if_pos (by omega)]
        rfl
  | header => rfl
  | out o => rfl

theorem destroyEntry_owns (hop : SparesBlocks op) {held : RingPlace ι → Option Addr} {p : RingPlace ι}
    {e : HeapEntry} {m : Mem α σ} (howns : Ledger.Owns held base m.live) (hp : held p = e.data) :
    ∃ m', destroyEntry op e m = .ok ((), m') ∧
      Ledger.Owns (Function.update held p none) base m'.live := by
  unfold destroyEntry
  cases hdata : e.data with
  | none =>
      refine ⟨m, rfl, ?_⟩
      rw [← hdata, ← hp, Function.update_eq_self]
      exact howns
  | some a =>
      have hlive := howns.mem_live (hp.trans hdata)
      have hreleased := howns.release (hp.trans hdata)
      obtain ⟨m₁, hcall, hlive₁⟩ : ∃ m₁, callOp op a m = .ok ((), m₁) ∧ m₁.live = m.live := by
        cases op with
        | none => exact ⟨m, rfl, rfl⟩
        | some f => exact hop f rfl a m hlive
      rw [← hlive₁] at hlive hreleased
      exact ⟨m₁.freed a, (run_bind hcall).trans (if_pos hlive), hreleased⟩

theorem destroyEntries_owns (hop : SparesBlocks op) (entries : List HeapEntry) :
    ∀ (held : RingPlace ι → Option Addr) (i : Nat) (m : Mem α σ), Ledger.Owns held base m.live →
      (∀ j, held (.slot (i + j)) = entries[j]?.bind HeapEntry.data) →
      ∃ m', destroyEntries op entries m = .ok ((), m') ∧
        Ledger.Owns (heldWith held i []) base m'.live := by
  induction entries with
  | nil =>
      intro held i m howns hslots
      refine ⟨m, rfl, howns.congr (heldWith_nil fun j hj => ?_)⟩
      rw [show j = i + (j - i) by omega, hslots]
      rfl
  | cons e rest ih =>
      intro held i m howns hslots
      have hrest : ∀ j, Function.update held (.slot i) none (.slot (i + 1 + j))
          = rest[j]?.bind HeapEntry.data := by
        intro j
        have hne : (RingPlace.slot (i + 1 + j) : RingPlace ι) ≠ .slot i := fun h => by
          have := RingPlace.slot.inj h
          omega
        rw [Function.update_of_ne hne, Nat.add_assoc, Nat.add_comm 1 j, hslots, List.getElem?_cons_succ]
      obtain ⟨m₁, hentry, howns₁⟩ := destroyEntry_owns hop howns (show held (.slot i) = e.data from hslots 0)
      obtain ⟨m', hrun, howns'⟩ := ih _ (i + 1) m₁ howns₁ hrest
      refine ⟨m', ?_, howns'.congr (heldWith_nil_succ held i)⟩
      rw [destroyEntries, run_bind hentry]
      exact hrun

/-- **Destruction.** -/
theorem HeapClient.Owns.destroy {s : HeapClient ι} {m : Mem α σ} (howns : s.Owns base m)
    (hop : SparesBlocks op) : ∃ m', s.ring.xRingDestroy op m = .ok ((), m') ∧
      Ledger.Owns (outsHeld s.outs) base m'.live := by
  have hlive : s.ring.block ∈ m.live := howns.mem_live (p := .header) rfl
  obtain ⟨m₁, hentries, howns₁⟩ := destroyEntries_owns hop s.ring.ring s.held 0 m howns fun j => by
    rw [Nat.zero_add]
    rfl
  have hheader : heldWith s.held 0 [] .header = some s.ring.block := rfl
  have huse : useBlock s.ring.block m = .ok ((), m) := if_pos hlive
  refine ⟨m₁.freed s.ring.block, ?_, (howns₁.release hheader).congr fun p => ?_⟩
  · rw [HeapRing.xRingDestroy, run_bind huse, run_bind hentries]
    exact if_pos (howns₁.mem_live hheader)
  · cases p <;> rfl

omit [DecidableEq ι] in
/-- The tests' `op` frees the block, and then the destructor does. -/
theorem HeapClient.Owns.destroy_twice {s : HeapClient ι} {m : Mem α σ} (howns : s.Owns base m)
    (hdata : ∃ e ∈ s.ring.ring, e.data ≠ none) :
    s.ring.xRingDestroy (some doWhenDestroyRing) m = .error .deadBlock := by
  have hlive : s.ring.block ∈ m.live := howns.mem_live (p := .header) rfl
  have hslots : ∀ e ∈ s.ring.ring, ∀ a, e.data = some a → a ∈ m.live := by
    intro e hmem a ha
    obtain ⟨i, hi⟩ := List.mem_iff_getElem?.mp hmem
    exact howns.mem_live ((HeapClient.held_slot hi).trans ha)
  have hentries : ∀ entries : List HeapEntry, (∃ e ∈ entries, e.data ≠ none) →
      (∀ e ∈ entries, ∀ a, e.data = some a → a ∈ m.live) →
      destroyEntries (some doWhenDestroyRing) entries m = .error .deadBlock := by
    intro entries
    induction entries with
    | nil => exact fun hsome _ => by simp at hsome
    | cons e rest ih =>
        intro hsome hrest
        rw [destroyEntries, destroyEntry]
        cases hdata : e.data with
        | none =>
            refine ih ?_ fun e' he' => hrest e' (List.mem_cons_of_mem _ he')
            obtain ⟨e', he', hne⟩ := hsome
            rcases List.mem_cons.mp he' with rfl | he'
            · exact absurd hdata hne
            · exact ⟨e', he', hne⟩
        | some a =>
            have ha := hrest e (List.mem_cons_self ..) a hdata
            have hfree : callOp (some doWhenDestroyRing) a m = .ok ((), m.freed a) := if_pos ha
            have hagain : freeBlock a (m.freed a) = .error .deadBlock :=
              if_neg (Finset.notMem_erase a m.live)
            exact run_bind_error ((run_bind hfree).trans hagain)
  have huse : useBlock s.ring.block m = .ok ((), m) := if_pos hlive
  rw [HeapRing.xRingDestroy, run_bind huse]
  exact run_bind_error (hentries _ hdata hslots)

end Destruction

/-! ### Every run -/

/-- **The ring owns its memory.** Creation gives `NULL` and leaves the heap as it was, or a ring; and after
any calls that have not crashed, whatever `malloc` has answered, each live block is one of the
surroundings or is held in one place of the ring or of an entry of its callers. The destructor then
leaves those of the surroundings and of the callers, if its `op` frees nothing; with the `op` of the
tests it frees a block twice as soon as any entry has one. -/
theorem xRing_owns_its_memory [DecidableEq ι] (alloc : Allocator) (garbage : Nat → Int) (count : UInt32)
    (ringbufSize : Int) (patience : Nat) {outs : ι → HeapEntry} {base : Finset Addr} {m₀ : Mem α σ}
    (houts : Ledger.Owns (outsHeld outs) base m₀.live) :
    ∃ result m, HeapRing.xRingCreate alloc garbage count ringbufSize m₀ = .ok (result, m) ∧
      (result = none → m.live = m₀.live) ∧
      ∀ r, result = some r → ∀ (calls : List (XRingCall ι)) results s m',
        Calls.runCalls (XRingCall.execHeap alloc patience) (⟨r, outs⟩, m) calls = .ok (results, s, m') →
        s.Owns base m' ∧
        (∀ op, SparesBlocks op → ∃ m'', s.ring.xRingDestroy op m' = .ok ((), m'') ∧
          Ledger.Owns (outsHeld s.outs) base m''.live) ∧
        ((∃ e ∈ s.ring.ring, e.data ≠ none) →
          s.ring.xRingDestroy (some doWhenDestroyRing) m' = .error .deadBlock) := by
  obtain ⟨result, m, hmade, hnull, hring⟩ := HeapRing.xRingCreate_owns houts alloc garbage count
    ringbufSize
  refine ⟨result, m, hmade, hnull, fun r hr calls results s m' hrun => ?_⟩
  have hstep : ∀ (c : HeapClient ι × Mem α σ) (call : XRingCall ι), c.1.Owns base c.2 → True →
      Meets (fun result => result.2.1.Owns base result.2.2) (fun _ => True)
        (call.execHeap alloc patience c) :=
    fun c call howns _ => XRingCall.execHeap_owns howns alloc patience call
  have hinit : (⟨r, outs⟩ : HeapClient ι).Owns base m := hring r hr
  have hmeets := Calls.runCalls_meets hstep (s := (⟨r, outs⟩, m)) hinit (fun call (_ : call ∈ calls) => trivial)
  rw [hrun] at hmeets
  have howns : s.Owns base m' := hmeets
  exact ⟨howns, fun op hop => howns.destroy hop, howns.destroy_twice⟩

/-- A caller's entry with a block of four bytes, and the heap with that block. -/
def ownEntry (_ : Unit) : HeapEntry := ⟨4, 0, some 1⟩

def ownHeap : Mem Unit Unit := (Mem.empty ()).allocated 1 4

theorem ownEntry_owns : Ledger.Owns (outsHeld ownEntry) ∅ ownHeap.live := by
  constructor
  case apart =>
    intro p q a hp hq
    cases p with
    | header | slot => cases hp
    | out =>
        cases q with
        | header | slot => cases hq
        | out => rfl
  case outside => exact fun _ a _ => Finset.notMem_empty a
  case live_iff =>
    intro a
    have hlive : a ∈ ownHeap.live ↔ a = 1 := by simp [ownHeap, Mem.allocated, Mem.empty]
    rw [hlive]
    constructor
    · rintro rfl
      exact Or.inr ⟨.out (), rfl⟩
    · rintro (hbase | ⟨p, hp⟩)
      · exact absurd hbase (Finset.notMem_empty a)
      · cases p with
        | header | slot => cases hp
        | out => exact (Option.some.inj hp).symm

/-- A ring of two entries is made, and a payload goes through it. -/
def useRing : Except Fault (List XRingOutcome × HeapClient Unit × Mem Unit Unit) := do
  let (r, m) ← HeapRing.xRingCreate nextAddress (fun _ => 0) 2 4 ownHeap
  match r with
  | none => .error .nullPointer
  | some r =>
      Calls.runCalls (XRingCall.execHeap nextAddress 0) (⟨r, ownEntry⟩, m)
        [.spEnqueue [some 7] 1, .mcDequeue ()]

theorem useRing_meets : Meets (fun result => result.1 = [⟨0, none⟩, ⟨0, some (1, [some 7])⟩])
    (fun _ => False) useRing := by
  decide +kernel

theorem xRing_owns_its_memory_round : ∃ s m' m'',
    useRing = .ok ([⟨0, none⟩, ⟨0, some (1, [some 7])⟩], s, m') ∧
    s.ring.xRingDestroy none m' = .ok ((), m'') ∧ Ledger.Owns (outsHeld s.outs) ∅ m''.live := by
  obtain ⟨⟨_, s, m'⟩, huse, rfl⟩ := useRing_meets.exists_ok
  obtain ⟨result, m, hmade, -, hring⟩ :=
    xRing_owns_its_memory nextAddress (fun _ => 0) 2 4 0 ownEntry_owns
  obtain ⟨⟨result', m₁⟩, hmade', hcalls⟩ := bind_eq_ok.mp huse
  rw [hmade] at hmade'
  cases hmade'
  cases result with
  | none => cases hcalls
  | some r =>
      obtain ⟨-, hdestroy, -⟩ := hring r rfl _ _ s m' hcalls
      obtain ⟨m'', hrun, howns⟩ := hdestroy none (by intro f hf; cases hf)
      exact ⟨s, m', m'', huse, hrun, howns⟩

end Gittest
