import Gittest.XRingFifo
import Gittest.XRingOwnership

/-!
# The ring on the heap is the bounded queue

While `malloc` has memory, what lies on the heap shows the ring of buffers of `Gittest.XRing`: each
pointer leads to the buffer that stands in its place there, and no two of them to the same one. A call
on the ring of buffers that does not fault has its counterpart on the heap, so the ring on the heap is
the bounded queue as well, and it still owns its memory.
-/

namespace Gittest

open Calls Outcome

variable {α σ ι : Type}

structure HeapEntry.Shows (e : HeapEntry) (m : Mem α σ) (v : XRingEntry) : Prop where
  size : e.size = v.size
  contentLength : e.contentLength = v.contentLength
  data : ∃ a, e.data = some a ∧ m.bytesOf a = v.data

structure HeapRing.Shows (r : HeapRing) (m : Mem α σ) (v : XRing) : Prop where
  prodHead : r.prodHead = v.prodHead
  prodTail : r.prodTail = v.prodTail
  consHead : r.consHead = v.consHead
  consTail : r.consTail = v.consTail
  mask : r.mask = v.mask
  length : r.ring.length = v.ring.length
  entries : ∀ (i : Nat) e w, r.ring[i]? = some e → v.ring[i]? = some w → e.Shows m w

structure HeapClient.Shows (s : HeapClient ι) (base : Finset Addr) (m : Mem α σ) (c : XRingClient ι) :
    Prop where
  ring : s.ring.Shows m c.ring
  outs : ∀ o, (s.outs o).Shows m (c.outs o)
  owns : s.Owns base m

/-! ### One access -/

section Accesses

variable {P : Type} [DecidableEq P] {held : P → Option Addr} {base : Finset Addr} {m : Mem α σ} {p : P}

/-- A place gets a block of `size` bytes, and no other place takes notice. -/
theorem mallocBlock_total (howns : Ledger.Owns held base m.live) (hp : held p = none) {alloc : Allocator}
    (htotal : alloc.Total) {size : Int} (hsize : 0 ≤ size) :
    ∃ a m', mallocBlock alloc size m = .ok (some a, m') ∧
      m'.bytesOf a = List.replicate size.toNat none ∧
      Ledger.Owns (Function.update held p (some a)) base m'.live ∧
      ∀ q b, held q = some b → m'.bytesOf b = m.bytesOf b := by
  obtain ⟨a, hanswer⟩ := Mem.exists_answer htotal hsize m
  have hfresh : a ∉ m.live := Mem.answer_fresh hanswer
  refine ⟨a, m.allocated a size, mallocBlock_some hanswer, m.bytesOf_allocated a size,
    howns.acquire hp hfresh, fun q b hb => ?_⟩
  have hne : b ≠ a := by
    rintro rfl
    exact howns.not_held hfresh q hb
  rw [Mem.bytesOf, m.block_allocated_of_ne a size hne, Mem.bytesOf]

/-- A block makes way for one of `size` bytes. -/
theorem renewBlock_total (howns : Ledger.Owns held base m.live) (p : P) {alloc : Allocator}
    (htotal : alloc.Total) {size : Int} (hsize : 0 ≤ size) :
    ∃ m₁ a m', freeData (held p) m = .ok ((), m₁) ∧ mallocBlock alloc size m₁ = .ok (some a, m') ∧
      m'.bytesOf a = List.replicate size.toNat none ∧
      Ledger.Owns (Function.update held p (some a)) base m'.live ∧
      ∀ q b, q ≠ p → held q = some b → m'.bytesOf b = m.bytesOf b := by
  obtain ⟨m₁, hfree, hblock, howns₁⟩ := freeData_owns howns p
  obtain ⟨a, m', hmalloc, hbytes, howns', hother⟩ :=
    mallocBlock_total howns₁ (Function.update_self p none held) htotal hsize
  rw [Function.update_idem] at howns'
  refine ⟨m₁, a, m', hfree, hmalloc, hbytes, howns', fun q b hq hb => ?_⟩
  rw [hother q b (by rw [Function.update_of_ne hq, hb]), Mem.bytesOf, hblock, Mem.bytesOf]

omit [DecidableEq P] in
/-- The bytes at one place are written, and no other place takes notice. -/
theorem bytesOf_setBytes_other (howns : Ledger.Owns held base m.live) {a : Addr} (ha : held p = some a)
    (bytes : Buffer) (q : P) (b : Addr) (hq : q ≠ p) (hb : held q = some b) :
    (m.setBytes a bytes).bytesOf b = m.bytesOf b := by
  have hne : b ≠ a := by
    rintro rfl
    exact hq (howns.apart q p b hb ha)
  rw [Mem.bytesOf, m.block_setBytes_of_ne a hne, Mem.bytesOf]

end Accesses

/-- Where `g` succeeds on the entry shown, `f` succeeds on the one that shows it, and what comes out of it
shows what comes out of `g`; no other place takes notice. `pre` is what `f` needs of the heap. -/
def Follows (ι : Type) [DecidableEq ι] (pre : Mem α σ → Prop) (f : HeapEntry → MemM α σ HeapEntry)
    (g : XRingEntry → Except Fault XRingEntry) : Prop :=
  ∀ (held : RingPlace ι → Option Addr) (base : Finset Addr) (m : Mem α σ) (p : RingPlace ι) e v v',
    Ledger.Owns held base m.live → held p = e.data → e.Shows m v → pre m → g v = .ok v' →
    ∃ e' m', f e m = .ok (e', m') ∧ Ledger.Owns (Function.update held p e'.data) base m'.live ∧
      e'.Shows m' v' ∧ ∀ q a, q ≠ p → held q = some a → m'.bytesOf a = m.bytesOf a

/-- The heap says of the slot what the ring of buffers does. -/
def SlotShown (slot : HeapEntry) (w : XRingEntry) (m : Mem α σ) : Prop :=
  slot.Shows m w ∧ ∀ a, slot.data = some a → a ∈ m.live

namespace HeapEntry

variable [DecidableEq ι] {alloc : Allocator}

theorem grow_follows (htotal : alloc.Total) (size : Int) :
    Follows ι (fun _ : Mem α σ => True) (grow alloc size) (XRingEntry.grow size) := by
  intro held base m p e v v' howns hp hshows _ hgrow
  unfold XRingEntry.grow at hgrow
  unfold grow
  rw [← hshows.size] at hgrow
  split at hgrow
  · rename_i hsmall
    obtain ⟨data, hmalloc, hv'⟩ := bind_eq_ok.mp hgrow
    cases hv'
    have hsize : 0 ≤ size := by
      by_contra hneg
      rw [malloc, if_pos (by omega)] at hmalloc
      cases hmalloc
    rw [malloc_ok hsize] at hmalloc
    cases hmalloc
    obtain ⟨m₁, a, m', hfree, hmade, hbytes, howns', hother⟩ := renewBlock_total howns p htotal hsize
    rw [hp] at hfree
    refine ⟨{ e with data := some a, size := size }, m', ?_, howns', ⟨rfl, hshows.contentLength, a, rfl, hbytes⟩,
      hother⟩
    rw [if_pos hsmall, run_bind hfree, run_bind hmade]
    rfl
  · rename_i hfits
    cases hgrow
    refine ⟨e, m, by rw [if_neg hfits]; rfl, ?_, hshows, fun _ _ _ _ => rfl⟩
    rw [← hp, Function.update_eq_self]
    exact howns

/-- Bytes are written to the block that the entry points to. -/
theorem writeBytes_follows {held : RingPlace ι → Option Addr} {base : Finset Addr} {m : Mem α σ}
    {p : RingPlace ι} {e : HeapEntry} {a : Addr} (howns : Ledger.Owns held base m.live)
    (hp : held p = e.data) (ha : e.data = some a) (bytes : Buffer) :
    writeBytes a bytes m = .ok ((), m.setBytes a bytes) ∧
      Ledger.Owns (Function.update held p e.data) base (m.setBytes a bytes).live ∧
      ∀ q b, q ≠ p → held q = some b → (m.setBytes a bytes).bytesOf b = m.bytesOf b := by
  have hlive := howns.mem_live (hp.trans ha)
  refine ⟨if_pos hlive, ?_, bytesOf_setBytes_other howns (hp.trans ha) bytes⟩
  rw [← hp, Function.update_eq_self]
  exact howns

theorem copyIn_follows (data : Buffer) (size : Int) :
    Follows ι (fun _ : Mem α σ => True) (copyIn data size) (XRingEntry.copyIn data size) := by
  intro held base m p e v v' howns hp hshows _ hcopy
  obtain ⟨copied, hcopied, hv'⟩ := bind_eq_ok.mp hcopy
  cases hv'
  obtain ⟨a, ha, hbytes⟩ := hshows.data
  have hlive := howns.mem_live (hp.trans ha)
  rw [← hbytes] at hcopied
  obtain ⟨hwrite, howns', hother⟩ := writeBytes_follows howns hp ha copied
  refine ⟨e, m.setBytes a copied, ?_, howns',
    ⟨hshows.size, hshows.contentLength, a, ha, m.bytesOf_setBytes a copied⟩, hother⟩
  have hderef : deref e.data m = .ok (a, m) := by
    rw [ha]
    rfl
  have hlift : (liftM (memcpy (m.bytesOf a) data size) : MemM α σ Buffer) m = .ok (copied, m) := by
    rw [hcopied]
    rfl
  rw [copyIn, run_bind hderef, run_bind (readBytes_ok hlive), run_bind hlift, run_bind hwrite]
  rfl

theorem copyBy_follows (copy : CopyFn) (data : Buffer) (size : Int) :
    Follows ι (fun _ : Mem α σ => True) (copyBy copy data size) (XRingEntry.copyBy copy data size) := by
  intro held base m p e v v' howns hp hshows _ hcopy
  unfold XRingEntry.copyBy at hcopy
  split at hcopy
  · rename_i hroom
    obtain ⟨⟨copied, length⟩, hcopied, hv'⟩ := bind_eq_ok.mp hcopy
    cases hv'
    obtain ⟨a, ha, hbytes⟩ := hshows.data
    have hlive := howns.mem_live (hp.trans ha)
    rw [← hbytes] at hcopied hroom
    obtain ⟨hwrite, howns', hother⟩ := writeBytes_follows howns hp ha copied
    refine ⟨{ e with contentLength := length }, m.setBytes a copied, ?_, howns',
      ⟨hshows.size, rfl, a, ha, m.bytesOf_setBytes a copied⟩, hother⟩
    have hderef : deref e.data m = .ok (a, m) := by
      rw [ha]
      rfl
    have hlift : (liftM (copy (m.bytesOf a) data size) : MemM α σ (Buffer × Int)) m
        = .ok ((copied, length), m) := by
      rw [hcopied]
      rfl
    rw [copyBy, run_bind hderef, run_bind (readBytes_ok hlive), if_pos hroom, run_bind hlift]
    dsimp only
    rw [run_bind hwrite]
    rfl
  · cases hcopy

theorem setContentLength_follows (length : Int) :
    Follows ι (fun _ : Mem α σ => True) (setContentLength length)
      (XRingEntry.setContentLength length) := by
  intro held base m p e v v' howns hp hshows _ hset
  cases hset
  refine ⟨{ e with contentLength := length }, m, rfl, ?_, ⟨hshows.size, rfl, hshows.data⟩,
    fun _ _ _ _ => rfl⟩
  change Ledger.Owns (Function.update held p e.data) base m.live
  rw [← hp, Function.update_eq_self]
  exact howns

/-! ### What a dequeue does to the entry of its caller -/

variable (slot : HeapEntry) (w : XRingEntry)

theorem growOut_follows (htotal : alloc.Total) :
    Follows ι (SlotShown slot w : Mem α σ → Prop) (slot.growOut alloc) w.growOut := by
  intro held base m p e v v' howns hp hshows hslot hgrow
  unfold XRingEntry.growOut at hgrow
  unfold growOut
  rw [← hshows.size, ← hslot.1.size, ← hslot.1.contentLength] at hgrow
  split at hgrow
  · rename_i hsmall
    obtain ⟨data, hmalloc, hv'⟩ := bind_eq_ok.mp hgrow
    cases hv'
    have hsize : 0 ≤ slot.size := by
      by_contra hneg
      rw [malloc, if_pos (by omega)] at hmalloc
      cases hmalloc
    rw [malloc_ok hsize] at hmalloc
    cases hmalloc
    obtain ⟨m₁, a, m', hfree, hmade, hbytes, howns', hother⟩ := renewBlock_total howns p htotal hsize
    rw [hp] at hfree
    refine ⟨{ e with data := some a }, m', ?_, howns', ⟨rfl, hshows.contentLength, a, rfl, hbytes⟩,
      hother⟩
    rw [if_pos hsmall, run_bind hfree, run_bind hmade]
    rfl
  · rename_i hfits
    cases hgrow
    refine ⟨e, m, by rw [if_neg hfits]; rfl, ?_, hshows, fun _ _ _ _ => rfl⟩
    rw [← hp, Function.update_eq_self]
    exact howns

theorem copyOut_follows :
    Follows ι (SlotShown slot w : Mem α σ → Prop) slot.copyOut w.copyOut := by
  intro held base m p e v v' howns hp hshows hslot hcopy
  obtain ⟨copied, hcopied, hv'⟩ := bind_eq_ok.mp hcopy
  cases hv'
  obtain ⟨a, ha, hbytes⟩ := hshows.data
  obtain ⟨b, hb, hsource⟩ := hslot.1.data
  have hlive := howns.mem_live (hp.trans ha)
  rw [← hbytes, ← hsource, ← hslot.1.contentLength] at hcopied
  obtain ⟨hwrite, howns', hother⟩ := writeBytes_follows howns hp ha copied
  refine ⟨e, m.setBytes a copied, ?_, howns',
    ⟨hshows.size, hshows.contentLength, a, ha, m.bytesOf_setBytes a copied⟩, hother⟩
  have hdst : deref e.data m = .ok (a, m) := by
    rw [ha]
    rfl
  have hsrc : deref slot.data m = .ok (b, m) := by
    rw [hb]
    rfl
  have hlift : (liftM (memcpy (m.bytesOf a) (m.bytesOf b) slot.contentLength) : MemM α σ Buffer) m
      = .ok (copied, m) := by
    rw [hcopied]
    rfl
  rw [copyOut, run_bind hdst, run_bind hsrc, run_bind (readBytes_ok hlive),
    run_bind (readBytes_ok (hslot.2 b hb)), run_bind hlift, run_bind hwrite]
  rfl

theorem setOutLength_follows :
    Follows ι (SlotShown slot w : Mem α σ → Prop) slot.setOutLength w.setOutLength := by
  intro held base m p e v v' howns hp hshows hslot hset
  cases hset
  refine ⟨{ e with contentLength := slot.contentLength }, m, rfl, ?_,
    ⟨hshows.size, hslot.1.contentLength, hshows.data⟩, fun _ _ _ _ => rfl⟩
  change Ledger.Owns (Function.update held p e.data) base m.live
  rw [← hp, Function.update_eq_self]
  exact howns

end HeapEntry

/-- The entry that this one shows. -/
def HeapEntry.shown (e : HeapEntry) (m : Mem α σ) : XRingEntry where
  size := e.size
  contentLength := e.contentLength
  data := (e.data.map m.bytesOf).getD []

theorem HeapEntry.shows_shown {e : HeapEntry} {m : Mem α σ}
    (hdata : ∃ a, e.data = some a ∧ e.size ≤ (m.bytesOf a).length) : e.Shows m (e.shown m) := by
  obtain ⟨a, ha, -⟩ := hdata
  exact ⟨rfl, rfl, a, ha, by rw [shown, ha]; rfl⟩

theorem HeapEntry.shown_fits {e : HeapEntry} {m : Mem α σ}
    (hdata : ∃ a, e.data = some a ∧ e.size ≤ (m.bytesOf a).length) : (e.shown m).Fits := by
  obtain ⟨a, ha, hfits⟩ := hdata
  rw [XRingEntry.Fits, shown, ha]
  exact hfits

/-! ### One call -/

theorem HeapEntry.Shows.frame {e : HeapEntry} {m m' : Mem α σ} {v : XRingEntry} (hshows : e.Shows m v)
    (hsame : ∀ a, e.data = some a → m'.bytesOf a = m.bytesOf a) : e.Shows m' v := by
  obtain ⟨a, ha, hbytes⟩ := hshows.data
  exact ⟨hshows.size, hshows.contentLength, a, ha, (hsame a ha).trans hbytes⟩

section Calls

variable [DecidableEq ι] {r : HeapRing} {outs : ι → HeapEntry} {base : Finset Addr} {m : Mem α σ}
  {v : XRing} {vouts : ι → XRingEntry} {alloc : Allocator}

omit [DecidableEq ι] in
theorem HeapClient.Shows.entry (hshows : HeapClient.Shows ⟨r, outs⟩ base m ⟨v, vouts⟩) {i : UInt32}
    {w : XRingEntry} (hentry : v.entry i = .ok w) :
    ∃ e, r.ring[i.toNat]? = some e ∧ r.entry i m = .ok (e, m) ∧ SlotShown e w m := by
  unfold XRing.entry at hentry
  split at hentry
  · rename_i w' hw
    cases hentry
    have hlt : i.toNat < r.ring.length := by
      rw [hshows.ring.length]
      exact (List.getElem?_eq_some_iff.mp hw).1
    refine ⟨r.ring[i.toNat], List.getElem?_eq_getElem hlt, ?_, ?_, fun a ha => ?_⟩
    · rw [HeapRing.entry, List.getElem?_eq_getElem hlt]
      rfl
    · exact hshows.ring.entries _ _ _ (List.getElem?_eq_getElem hlt) hw
    · exact hshows.owns.mem_live
        ((HeapClient.held_slot (s := ⟨r, outs⟩) (List.getElem?_eq_getElem hlt)).trans ha)
  · cases hentry

/-- A write to a slot. -/
theorem HeapClient.Shows.modify (hshows : HeapClient.Shows ⟨r, outs⟩ base m ⟨v, vouts⟩)
    {f : HeapEntry → MemM α σ HeapEntry} {g : XRingEntry → Except Fault XRingEntry}
    (hf : Follows ι (fun _ : Mem α σ => True) f g) {i j : UInt32} (hij : i = j) {v' : XRing}
    (hmodify : v.modify j g = .ok v') :
    ∃ r' m', r.modify i f m = .ok (r', m') ∧ HeapClient.Shows ⟨r', outs⟩ base m' ⟨v', vouts⟩ := by
  subst hij
  obtain ⟨w, hentry, hrest⟩ := bind_eq_ok.mp hmodify
  obtain ⟨w', hw', hv'⟩ := bind_eq_ok.mp hrest
  cases hv'
  obtain ⟨e, he, hread, hslot⟩ := hshows.entry hentry
  obtain ⟨e', m', hrun, howns, hshows', hother⟩ :=
    hf _ base m (.slot i.toNat) e w w' hshows.owns (HeapClient.held_slot he) hslot.1 trivial hw'
  refine ⟨{ r with ring := r.ring.set i.toNat e' }, m', ?_, ?_⟩
  · rw [HeapRing.modify, run_bind hread, run_bind hrun]
    rfl
  constructor
  case ring =>
    refine { hshows.ring with length := ?_, entries := fun k e₁ w₁ he₁ hw₁ => ?_ }
    · rw [List.length_set, List.length_set]
      exact hshows.ring.length
    · by_cases hk : i.toNat = k
      · subst hk
        have hlt := (List.getElem?_eq_some_iff.mp he).1
        rw [List.getElem?_set_self hlt] at he₁
        rw [List.getElem?_set_self (hshows.ring.length ▸ hlt)] at hw₁
        cases he₁
        cases hw₁
        exact hshows'
      · rw [List.getElem?_set_ne hk] at he₁ hw₁
        refine (hshows.ring.entries k e₁ w₁ he₁ hw₁).frame fun a ha => ?_
        refine hother (.slot k) a (fun h => hk (RingPlace.slot.inj h).symm) ?_
        exact (HeapClient.held_slot (s := ⟨r, outs⟩) he₁).trans ha
  case outs =>
    intro o
    refine (hshows.outs o).frame fun a ha => hother (.out o) a ?_ ha
    intro h
    cases h
  case owns =>
    exact Ledger.Owns.congr howns (HeapClient.held_setSlot (s := ⟨r, outs⟩)
      (List.getElem?_eq_some_iff.mp he).1 e')

/-- A write to an entry of a caller. -/
theorem HeapClient.Shows.setOut (hshows : HeapClient.Shows ⟨r, outs⟩ base m ⟨v, vouts⟩)
    {pre : Mem α σ → Prop} {f : HeapEntry → MemM α σ HeapEntry}
    {g : XRingEntry → Except Fault XRingEntry} (hf : Follows ι pre f g) (hpre : pre m) {o : ι}
    {w' : XRingEntry} (hg : g (vouts o) = .ok w') :
    ∃ e' m', f (outs o) m = .ok (e', m') ∧
      HeapClient.Shows ⟨r, Function.update outs o e'⟩ base m' ⟨v, Function.update vouts o w'⟩ := by
  obtain ⟨e', m', hrun, howns, hshows', hother⟩ :=
    hf _ base m (.out o) (outs o) (vouts o) w' hshows.owns rfl (hshows.outs o) hpre hg
  refine ⟨e', m', hrun, ?_⟩
  constructor
  case ring =>
    refine { hshows.ring with entries := fun j e₁ w₁ he₁ hw₁ => ?_ }
    refine (hshows.ring.entries j e₁ w₁ he₁ hw₁).frame fun a ha => hother (.slot j) a ?_ ?_
    · intro h
      cases h
    · exact (HeapClient.held_slot (s := ⟨r, outs⟩) he₁).trans ha
  case outs =>
    intro q
    dsimp only
    by_cases hq : q = o
    · subst hq
      rw [Function.update_self, Function.update_self]
      exact hshows'
    · rw [Function.update_of_ne hq, Function.update_of_ne hq]
      exact (hshows.outs q).frame fun a ha => hother (.out q) a (fun h => hq (RingPlace.out.inj h)) ha
  case owns => exact Ledger.Owns.congr howns (HeapClient.held_setOut ⟨r, outs⟩ o e')

omit [DecidableEq ι] in
theorem HeapClient.Shows.useBlock (hshows : HeapClient.Shows ⟨r, outs⟩ base m ⟨v, vouts⟩) :
    useBlock r.block m = .ok ((), m) :=
  if_pos (hshows.owns.mem_live (p := .header) rfl)

omit [DecidableEq ι] in
/-- The test for room, and the index that is next. -/
theorem HeapClient.Shows.prodNext (hshows : HeapClient.Shows ⟨r, outs⟩ base m ⟨v, vouts⟩) :
    (r.prodHead + 1) &&& r.mask = (v.prodHead + 1) &&& v.mask ∧
      ((r.prodHead + 1) &&& r.mask = r.consTail ↔ (v.prodHead + 1) &&& v.mask = v.consTail) := by
  have hhead : r.prodHead = v.prodHead := hshows.ring.prodHead
  have hmask : r.mask = v.mask := hshows.ring.mask
  have htail : r.consTail = v.consTail := hshows.ring.consTail
  rw [hhead, hmask, htail]
  exact ⟨rfl, Iff.rfl⟩

theorem HeapClient.Shows.xRingSpEnqueue (htotal : alloc.Total)
    (hshows : HeapClient.Shows ⟨r, outs⟩ base m ⟨v, vouts⟩) {data : Buffer} {size ret : Int} {v' : XRing}
    (hcall : xRingSpEnqueue v data size = .ok (ret, v')) :
    ∃ r' m', r.xRingSpEnqueue alloc data size m = .ok ((ret, r'), m') ∧
      HeapClient.Shows ⟨r', outs⟩ base m' ⟨v', vouts⟩ := by
  obtain ⟨hnext, hfull⟩ := hshows.prodNext
  have hhead : r.prodHead = v.prodHead := hshows.ring.prodHead
  unfold Gittest.xRingSpEnqueue at hcall
  unfold HeapRing.xRingSpEnqueue
  rw [run_bind hshows.useBlock]
  dsimp only at hcall ⊢
  split at hcall
  · rename_i hnospace
    cases hcall
    exact ⟨r, m, by rw [if_pos (hfull.mpr hnospace)]; rfl, hshows⟩
  · rename_i hroom
    rw [if_neg fun h => hroom (hfull.mp h)]
    obtain ⟨v₁, h₁, hcall⟩ := bind_eq_ok.mp hcall
    obtain ⟨v₂, h₂, hcall⟩ := bind_eq_ok.mp hcall
    obtain ⟨v₃, h₃, hcall⟩ := bind_eq_ok.mp hcall
    cases hcall
    have hshows₀ : HeapClient.Shows ⟨{ r with prodHead := (r.prodHead + 1) &&& r.mask }, outs⟩ base m
        ⟨{ v with prodHead := (v.prodHead + 1) &&& v.mask }, vouts⟩ :=
      { hshows with ring := { hshows.ring with prodHead := hnext } }
    obtain ⟨r₁, m₁, hrun₁, hshows₁⟩ := hshows₀.modify (HeapEntry.grow_follows htotal size) hhead h₁
    obtain ⟨r₂, m₂, hrun₂, hshows₂⟩ := hshows₁.modify (HeapEntry.copyIn_follows data size) hhead h₂
    obtain ⟨r₃, m₃, hrun₃, hshows₃⟩ := hshows₂.modify (HeapEntry.setContentLength_follows size) hhead h₃
    refine ⟨{ r₃ with prodTail := (r.prodHead + 1) &&& r.mask }, m₃, ?_,
      { hshows₃ with ring := { hshows₃.ring with prodTail := hnext } }⟩
    rw [run_bind hrun₁, run_bind hrun₂, run_bind hrun₃]
    rfl

theorem HeapClient.Shows.xRingSpEnqueue2 (htotal : alloc.Total)
    (hshows : HeapClient.Shows ⟨r, outs⟩ base m ⟨v, vouts⟩) {copy : CopyFn} {data : Buffer} {size ret : Int}
    {v' : XRing} (hcall : xRingSpEnqueue2 copy v data size = .ok (ret, v')) :
    ∃ r' m', r.xRingSpEnqueue2 alloc copy data size m = .ok ((ret, r'), m') ∧
      HeapClient.Shows ⟨r', outs⟩ base m' ⟨v', vouts⟩ := by
  obtain ⟨hnext, hfull⟩ := hshows.prodNext
  have hhead : r.prodHead = v.prodHead := hshows.ring.prodHead
  unfold Gittest.xRingSpEnqueue2 at hcall
  unfold HeapRing.xRingSpEnqueue2
  rw [run_bind hshows.useBlock]
  dsimp only at hcall ⊢
  split at hcall
  · rename_i hnospace
    cases hcall
    exact ⟨r, m, by rw [if_pos (hfull.mpr hnospace)]; rfl, hshows⟩
  · rename_i hroom
    rw [if_neg fun h => hroom (hfull.mp h)]
    obtain ⟨v₁, h₁, hcall⟩ := bind_eq_ok.mp hcall
    obtain ⟨v₂, h₂, hcall⟩ := bind_eq_ok.mp hcall
    cases hcall
    have hshows₀ : HeapClient.Shows ⟨{ r with prodHead := (r.prodHead + 1) &&& r.mask }, outs⟩ base m
        ⟨{ v with prodHead := (v.prodHead + 1) &&& v.mask }, vouts⟩ :=
      { hshows with ring := { hshows.ring with prodHead := hnext } }
    obtain ⟨r₁, m₁, hrun₁, hshows₁⟩ := hshows₀.modify (HeapEntry.grow_follows htotal size) hhead h₁
    obtain ⟨r₂, m₂, hrun₂, hshows₂⟩ := hshows₁.modify (HeapEntry.copyBy_follows copy data size) hhead h₂
    refine ⟨{ r₂ with prodTail := (r.prodHead + 1) &&& r.mask }, m₂, ?_,
      { hshows₂ with ring := { hshows₂.ring with prodTail := hnext } }⟩
    rw [run_bind hrun₁, run_bind hrun₂]
    rfl

/-- With no other thread running, the loop of `x_ring_mp_enqueue` reserves at once, and its tail has come
round when the other ring's has. -/
theorem HeapClient.Shows.xRingMpEnqueue (htotal : alloc.Total)
    (hshows : HeapClient.Shows ⟨r, outs⟩ base m ⟨v, vouts⟩) {patience : Nat} {data : Buffer}
    {size ret : Int} {v' : XRing} (hcall : xRingMpEnqueue patience v data size = .ok (ret, v')) :
    ∃ r' m', r.xRingMpEnqueue alloc patience data size m = .ok ((ret, r'), m') ∧
      HeapClient.Shows ⟨r', outs⟩ base m' ⟨v', vouts⟩ := by
  obtain ⟨hnext, hfull⟩ := hshows.prodNext
  have hhead : r.prodHead = v.prodHead := hshows.ring.prodHead
  obtain ⟨reserved, hreserve, hcall⟩ := bind_eq_ok.mp hcall
  rw [Gittest.mpReserve_eq] at hreserve
  unfold HeapRing.xRingMpEnqueue
  rw [run_bind hshows.useBlock, HeapRing.mpReserve_eq]
  split at hreserve
  · rename_i hnospace
    cases hreserve
    cases hcall
    exact ⟨r, m, by rw [if_pos (hfull.mpr hnospace)]; rfl, hshows⟩
  · rename_i hroom
    cases hreserve
    rw [if_neg fun h => hroom (hfull.mp h), run_bind rfl]
    obtain ⟨v₁, h₁, hcall⟩ := bind_eq_ok.mp hcall
    obtain ⟨v₂, h₂, hcall⟩ := bind_eq_ok.mp hcall
    obtain ⟨v₃, h₃, hcall⟩ := bind_eq_ok.mp hcall
    obtain ⟨_, hawait, hcall⟩ := bind_eq_ok.mp hcall
    cases hcall
    have hshows₀ : HeapClient.Shows ⟨{ r with prodHead := (r.prodHead + 1) &&& r.mask }, outs⟩ base m
        ⟨{ v with prodHead := (v.prodHead + 1) &&& v.mask }, vouts⟩ :=
      { hshows with ring := { hshows.ring with prodHead := hnext } }
    obtain ⟨r₁, m₁, hrun₁, hshows₁⟩ := hshows₀.modify (HeapEntry.grow_follows htotal size) hhead h₁
    obtain ⟨r₂, m₂, hrun₂, hshows₂⟩ := hshows₁.modify (HeapEntry.copyIn_follows data size) hhead h₂
    obtain ⟨r₃, m₃, hrun₃, hshows₃⟩ := hshows₂.modify (HeapEntry.setContentLength_follows size) hhead h₃
    have hlift : (liftM (awaitTail r₃.prodTail r.prodHead patience) : MemM α σ Unit) m₃ = .ok ((), m₃) := by
      rw [show r₃.prodTail = v₃.prodTail from hshows₃.ring.prodTail, hhead, hawait]
      rfl
    refine ⟨{ r₃ with prodTail := (r.prodHead + 1) &&& r.mask }, m₃, ?_,
      { hshows₃ with ring := { hshows₃.ring with prodTail := hnext } }⟩
    dsimp only
    rw [run_bind hrun₁, run_bind hrun₂, run_bind hrun₃, run_bind hlift]
    rfl

/-- The accesses of a dequeue, before it goes on. -/
theorem HeapClient.Shows.drain (htotal : alloc.Total)
    (hshows : HeapClient.Shows ⟨r, outs⟩ base m ⟨v, vouts⟩) {o : ι} {i j : UInt32} (hij : i = j)
    {w w₁ w₂ w₃ : XRingEntry} (hentry : v.entry j = .ok w) (hgrow : w.growOut (vouts o) = .ok w₁)
    (hcopy : w.copyOut w₁ = .ok w₂) (hset : w.setOutLength w₂ = .ok w₃) :
    ∃ e' m', (∀ {γ : Type} (k : HeapEntry → MemM α σ γ), (do
          let out ← (← r.entry i).growOut alloc (outs o)
          let out ← (← r.entry i).copyOut out
          let out ← (← r.entry i).setOutLength out
          k out) m = k e' m') ∧
      HeapClient.Shows ⟨r, Function.update outs o e'⟩ base m' ⟨v, Function.update vouts o w₃⟩ := by
  subst hij
  obtain ⟨e₀, _, hread₀, hslot₀⟩ := hshows.entry hentry
  obtain ⟨e₁, m₁, hrun₁, hshows₁⟩ :=
    hshows.setOut (HeapEntry.growOut_follows e₀ w htotal) hslot₀ hgrow
  obtain ⟨e₀', _, hread₁, hslot₁⟩ := hshows₁.entry hentry
  obtain ⟨e₂, m₂, hrun₂, hshows₂⟩ :=
    hshows₁.setOut (o := o) (HeapEntry.copyOut_follows e₀' w) hslot₁ (by
      rw [Function.update_self]
      exact hcopy)
  obtain ⟨e₀'', _, hread₂, hslot₂⟩ := hshows₂.entry hentry
  obtain ⟨e₃, m₃, hrun₃, hshows₃⟩ :=
    hshows₂.setOut (o := o) (HeapEntry.setOutLength_follows e₀'' w) hslot₂ (by
      rw [Function.update_self]
      exact hset)
  rw [Function.update_self] at hrun₂ hrun₃
  simp only [Function.update_idem] at hshows₃
  refine ⟨e₃, m₃, fun k => ?_, hshows₃⟩
  rw [run_bind hread₀, run_bind hrun₁, run_bind hread₁, run_bind hrun₂, run_bind hread₂, run_bind hrun₃]

omit [DecidableEq ι] in
theorem HeapClient.Shows.consNext (hshows : HeapClient.Shows ⟨r, outs⟩ base m ⟨v, vouts⟩) :
    (r.consHead + 1) &&& r.mask = (v.consHead + 1) &&& v.mask ∧
      (r.consHead = r.prodTail ↔ v.consHead = v.prodTail) := by
  have hhead : r.consHead = v.consHead := hshows.ring.consHead
  have hmask : r.mask = v.mask := hshows.ring.mask
  have htail : r.prodTail = v.prodTail := hshows.ring.prodTail
  rw [hhead, hmask, htail]
  exact ⟨rfl, Iff.rfl⟩

theorem HeapClient.Shows.xRingScDequeue (htotal : alloc.Total)
    (hshows : HeapClient.Shows ⟨r, outs⟩ base m ⟨v, vouts⟩) {o : ι} {ret : Int} {v' : XRing} {w' : XRingEntry}
    (hcall : xRingScDequeue v (vouts o) = .ok (ret, v', w')) :
    ∃ r' e' m', r.xRingScDequeue alloc (outs o) m = .ok ((ret, r', e'), m') ∧
      HeapClient.Shows ⟨r', Function.update outs o e'⟩ base m' ⟨v', Function.update vouts o w'⟩ := by
  obtain ⟨hnext, hempty⟩ := hshows.consNext
  have hhead : r.consHead = v.consHead := hshows.ring.consHead
  unfold Gittest.xRingScDequeue at hcall
  unfold HeapRing.xRingScDequeue
  rw [run_bind hshows.useBlock]
  dsimp only at hcall ⊢
  split at hcall
  · rename_i hnoent
    cases hcall
    refine ⟨r, outs o, m, by rw [if_pos (hempty.mpr hnoent)]; rfl, ?_⟩
    rw [Function.update_eq_self, Function.update_eq_self]
    exact hshows
  · rename_i hsome
    rw [if_neg fun h => hsome (hempty.mp h)]
    obtain ⟨w, hw, hcall⟩ := bind_eq_ok.mp hcall
    obtain ⟨w₁, h₁, hcall⟩ := bind_eq_ok.mp hcall
    obtain ⟨wa, hwa, hcall⟩ := bind_eq_ok.mp hcall
    obtain ⟨w₂, h₂, hcall⟩ := bind_eq_ok.mp hcall
    obtain ⟨wb, hwb, hcall⟩ := bind_eq_ok.mp hcall
    obtain ⟨w₃, h₃, hcall⟩ := bind_eq_ok.mp hcall
    cases hcall
    rw [hw] at hwa hwb
    cases hwa
    cases hwb
    have hshows₀ : HeapClient.Shows ⟨{ r with consHead := (r.consHead + 1) &&& r.mask }, outs⟩ base m
        ⟨{ v with consHead := (v.consHead + 1) &&& v.mask }, vouts⟩ :=
      { hshows with ring := { hshows.ring with consHead := hnext } }
    obtain ⟨e', m', hdrain, hshows'⟩ := hshows₀.drain htotal hhead hw h₁ h₂ h₃
    refine ⟨{ r with consHead := (r.consHead + 1) &&& r.mask, consTail := (r.consHead + 1) &&& r.mask }, e', m',
      hdrain _, { hshows' with ring := { hshows'.ring with consTail := hnext } }⟩

theorem HeapClient.Shows.xRingMcDequeue (htotal : alloc.Total)
    (hshows : HeapClient.Shows ⟨r, outs⟩ base m ⟨v, vouts⟩) {patience : Nat} {o : ι} {ret : Int} {v' : XRing}
    {w' : XRingEntry} (hcall : xRingMcDequeue patience v (vouts o) = .ok (ret, v', w')) :
    ∃ r' e' m', r.xRingMcDequeue alloc patience (outs o) m = .ok ((ret, r', e'), m') ∧
      HeapClient.Shows ⟨r', Function.update outs o e'⟩ base m' ⟨v', Function.update vouts o w'⟩ := by
  obtain ⟨hnext, hempty⟩ := hshows.consNext
  have hhead : r.consHead = v.consHead := hshows.ring.consHead
  obtain ⟨reserved, hreserve, hcall⟩ := bind_eq_ok.mp hcall
  rw [Gittest.mcReserve_eq] at hreserve
  unfold HeapRing.xRingMcDequeue
  rw [run_bind hshows.useBlock, HeapRing.mcReserve_eq]
  split at hreserve
  · rename_i hnoent
    cases hreserve
    cases hcall
    refine ⟨r, outs o, m, by rw [if_pos (hempty.mpr hnoent)]; rfl, ?_⟩
    rw [Function.update_eq_self, Function.update_eq_self]
    exact hshows
  · rename_i hsome
    cases hreserve
    rw [if_neg fun h => hsome (hempty.mp h), run_bind rfl]
    obtain ⟨w, hw, hcall⟩ := bind_eq_ok.mp hcall
    obtain ⟨w₁, h₁, hcall⟩ := bind_eq_ok.mp hcall
    obtain ⟨wa, hwa, hcall⟩ := bind_eq_ok.mp hcall
    obtain ⟨w₂, h₂, hcall⟩ := bind_eq_ok.mp hcall
    obtain ⟨wb, hwb, hcall⟩ := bind_eq_ok.mp hcall
    obtain ⟨w₃, h₃, hcall⟩ := bind_eq_ok.mp hcall
    obtain ⟨_, hawait, hcall⟩ := bind_eq_ok.mp hcall
    cases hcall
    rw [hw] at hwa hwb
    cases hwa
    cases hwb
    have hshows₀ : HeapClient.Shows ⟨{ r with consHead := (r.consHead + 1) &&& r.mask }, outs⟩ base m
        ⟨{ v with consHead := (v.consHead + 1) &&& v.mask }, vouts⟩ :=
      { hshows with ring := { hshows.ring with consHead := hnext } }
    obtain ⟨e', m', hdrain, hshows'⟩ := hshows₀.drain htotal hhead hw h₁ h₂ h₃
    have hlift : (liftM (awaitTail r.consTail r.consHead patience) : MemM α σ Unit) m' = .ok ((), m') := by
      rw [show r.consTail = v.consTail from hshows.ring.consTail, hhead, hawait]
      rfl
    refine ⟨{ r with consHead := (r.consHead + 1) &&& r.mask, consTail := (r.consHead + 1) &&& r.mask }, e', m',
      ?_, { hshows' with ring := { hshows'.ring with consTail := hnext } }⟩
    refine (hdrain _).trans ?_
    rw [run_bind hlift]
    rfl

omit [DecidableEq ι] in
/-- What the caller finds in its entry is what it would find in the one shown. -/
theorem HeapClient.Shows.payload (hshows : HeapClient.Shows ⟨r, outs⟩ base m ⟨v, vouts⟩) (o : ι) :
    (outs o).payload m = .ok ((vouts o).payload, m) := by
  have hentry : (outs o).Shows m (vouts o) := hshows.outs o
  obtain ⟨a, ha, hbytes⟩ := hentry.data
  have hlive : a ∈ m.live :=
    hshows.owns.mem_live (show HeapClient.held ⟨r, outs⟩ (.out o) = some a from ha)
  have hderef : deref (outs o).data m = .ok (a, m) := by
    rw [ha]
    rfl
  rw [HeapEntry.payload, run_bind hderef, run_bind (readBytes_ok hlive), hbytes, hentry.contentLength]
  rfl

theorem HeapClient.Shows.dequeued {s : HeapClient ι} {c : XRingClient ι} {o : ι} {ret : Int} {e' : HeapEntry}
    {w' : XRingEntry} (hshows : HeapClient.Shows ⟨r, Function.update s.outs o e'⟩ base m
      ⟨v, Function.update c.outs o w'⟩) :
    ∃ s', s.dequeued o (ret, r, e') m = .ok (((c.dequeued o (ret, v, w')).1, s'), m) ∧
      s'.Shows base m (c.dequeued o (ret, v, w')).2 := by
  have hpayload : e'.payload m = .ok (w'.payload, m) := by
    have hfound := hshows.payload o
    rwa [Function.update_self, Function.update_self] at hfound
  refine ⟨⟨r, Function.update s.outs o e'⟩, ?_, hshows⟩
  unfold HeapClient.dequeued XRingClient.dequeued
  dsimp only
  split
  · rw [run_bind hpayload]
    rfl
  · rfl

/-- **One call.** Where it does not fault on the ring of buffers, it does the same on the heap. -/
theorem HeapClient.Shows.call (htotal : alloc.Total) {s : HeapClient ι} {c c' : XRingClient ι}
    (hshows : s.Shows base m c) {patience : Nat} {call : XRingCall ι} {outcome : XRingOutcome}
    (hexec : call.exec patience c = .ok (outcome, c')) :
    ∃ s' m', call.execHeap alloc patience (s, m) = .ok (outcome, s', m') ∧ s'.Shows base m' c' := by
  have hcall : ∃ s' m', call.call alloc patience s m = .ok ((outcome, s'), m') ∧ s'.Shows base m' c' := by
    cases call with
    | spEnqueue data size =>
        obtain ⟨⟨ret, v'⟩, hv', hexec⟩ := bind_eq_ok.mp hexec
        cases hexec
        obtain ⟨r', m', hrun, hshows'⟩ := hshows.xRingSpEnqueue htotal hv'
        exact ⟨⟨r', s.outs⟩, m', run_bind hrun, hshows'⟩
    | spEnqueue2 copy data size =>
        obtain ⟨⟨ret, v'⟩, hv', hexec⟩ := bind_eq_ok.mp hexec
        cases hexec
        obtain ⟨r', m', hrun, hshows'⟩ := hshows.xRingSpEnqueue2 htotal hv'
        exact ⟨⟨r', s.outs⟩, m', run_bind hrun, hshows'⟩
    | mpEnqueue data size =>
        obtain ⟨⟨ret, v'⟩, hv', hexec⟩ := bind_eq_ok.mp hexec
        cases hexec
        obtain ⟨r', m', hrun, hshows'⟩ := hshows.xRingMpEnqueue htotal hv'
        exact ⟨⟨r', s.outs⟩, m', run_bind hrun, hshows'⟩
    | scDequeue o =>
        obtain ⟨⟨ret, v', w'⟩, hv', hexec⟩ := bind_eq_ok.mp hexec
        cases hexec
        obtain ⟨r', e', m', hrun, hshows'⟩ := hshows.xRingScDequeue htotal hv'
        obtain ⟨s', hdequeued, hshows''⟩ := hshows'.dequeued
        exact ⟨s', m', (run_bind hrun).trans hdequeued, hshows''⟩
    | mcDequeue o =>
        obtain ⟨⟨ret, v', w'⟩, hv', hexec⟩ := bind_eq_ok.mp hexec
        cases hexec
        obtain ⟨r', e', m', hrun, hshows'⟩ := hshows.xRingMcDequeue htotal hv'
        obtain ⟨s', hdequeued, hshows''⟩ := hshows'.dequeued
        exact ⟨s', m', (run_bind hrun).trans hdequeued, hshows''⟩
  obtain ⟨s', m', hrun, hshows'⟩ := hcall
  refine ⟨s', m', ?_, hshows'⟩
  rw [XRingCall.execHeap, hrun]
  rfl

end Calls

/-! ### Creation -/

section Creation

variable [DecidableEq ι] {base : Finset Addr} {alloc : Allocator} {ringbufSize : Int}

/-- The entries that the loop of `x_ring_create` makes, each with a block of its own. -/
theorem createEntries_shows (htotal : alloc.Total) (garbage : Nat → Int) (hsize : 0 ≤ ringbufSize)
    (n : Nat) : ∀ (held : RingPlace ι → Option Addr) (i : Nat) (m : Mem α σ),
    Ledger.Owns held base m.live → (∀ j, i ≤ j → held (.slot j) = none) →
    ∃ entries m', createEntries alloc garbage ringbufSize i n m = .ok (entries, m') ∧
      Ledger.Owns (heldWith held i entries) base m'.live ∧ entries.length = n ∧
      (∀ (k : Nat) (e : HeapEntry), entries[k]? = some e →
        e.Shows m' ⟨ringbufSize, garbage (i + k), List.replicate ringbufSize.toNat none⟩) ∧
      ∀ p a, held p = some a → m'.bytesOf a = m.bytesOf a := by
  induction n with
  | zero =>
      refine fun held i m howns hnone => ⟨[], m, rfl, howns.congr (heldWith_nil hnone), rfl, ?_,
        fun _ _ _ => rfl⟩
      intro k e hget
      cases hget
  | succ n ih =>
      intro held i m howns hnone
      obtain ⟨a, m₁, hmalloc, hbytes, howns₁, hother₁⟩ :=
        mallocBlock_total howns (hnone i le_rfl) htotal hsize
      obtain ⟨rest, m', hrest, howns', hlength, hshows, hother⟩ := ih _ (i + 1) m₁ howns₁ fun j hj => by
        have hne : (RingPlace.slot j : RingPlace ι) ≠ .slot i := fun h => by cases h; omega
        rw [Function.update_of_ne hne]
        exact hnone j (by omega)
      refine ⟨⟨ringbufSize, garbage i, some a⟩ :: rest, m', ?_, howns'.congr (heldWith_cons held i _ rest),
        by rw [List.length_cons, hlength], ?_, ?_⟩
      · rw [createEntries, run_bind hmalloc, run_bind hrest]
        rfl
      · intro k e hget
        cases k with
        | zero =>
            cases hget
            exact ⟨rfl, rfl, a, rfl, (hother (.slot i) a (Function.update_self ..)).trans hbytes⟩
        | succ k =>
            rw [List.getElem?_cons_succ] at hget
            rw [← Nat.add_assoc, Nat.add_right_comm]
            exact hshows k e hget
      · intro p b hb
        have hne : p ≠ .slot i := by
          rintro rfl
          rw [hnone i le_rfl] at hb
          cases hb
        rw [hother p b (by rw [Function.update_of_ne hne, hb]), hother₁ p b hb]

/-- **Creation.** The new ring shows the new ring of buffers. -/
theorem HeapRing.xRingCreate_shows (htotal : alloc.Total) {garbage : Nat → Int} (hsize : 0 ≤ ringbufSize)
    {count : UInt32} {v : XRing} (hmade : Gittest.xRingCreate garbage count ringbufSize = .ok v)
    {outs : ι → HeapEntry} {m : Mem α σ} (howns : Ledger.Owns (outsHeld outs) base m.live)
    {vouts : ι → XRingEntry} (houts : ∀ o, (outs o).Shows m (vouts o)) :
    ∃ r m', xRingCreate alloc garbage count ringbufSize m = .ok (some r, m') ∧
      HeapClient.Shows ⟨r, outs⟩ base m' ⟨v, vouts⟩ := by
  obtain ⟨size, hround⟩ := roundedCount_total count
  rw [xRingCreate_eq_newRing hsize hround] at hmade
  cases hmade
  have hlift : (liftM (roundedCount count) : MemM α σ UInt32) m = .ok (size, m) := by
    rw [hround]
    rfl
  have hheader : 0 ≤ ringBytes size := by
    rw [ringBytes]
    omega
  obtain ⟨block, m₁, hmalloc, -, howns₁, hother₁⟩ :=
    mallocBlock_total (p := .header) howns rfl htotal hheader
  obtain ⟨entries, m', hentries, howns', hlength, hshows, hother⟩ :=
    createEntries_shows htotal garbage hsize size.toNat _ 0 m₁ howns₁ fun _ _ => rfl
  let r : HeapRing := {
    block := block, prodHead := 0, prodTail := 0, consHead := 0, consTail := 0
    size := size, mask := size - 1, ring := entries }
  refine ⟨r, m', ?_, ?_⟩
  · rw [xRingCreate, run_bind hlift, run_bind hmalloc]
    exact run_bind hentries
  constructor
  case ring =>
    refine ⟨rfl, rfl, rfl, rfl, rfl, ?_, fun i e w he hw => ?_⟩
    · change entries.length = (newEntries garbage ringbufSize size.toNat).length
      rw [hlength, newEntries, List.length_map, List.length_range]
    · have hi : i < size.toNat := hlength ▸ (List.getElem?_eq_some_iff.mp he).1
      change (newEntries garbage ringbufSize size.toNat)[i]? = some w at hw
      rw [newEntries, List.getElem?_map, List.getElem?_range hi] at hw
      cases hw
      have hentry := hshows i e he
      rwa [Nat.zero_add] at hentry
  case outs =>
    intro o
    refine (houts o).frame fun a ha => ?_
    rw [hother (.out o) a ha, hother₁ (.out o) a ha]
  case owns =>
    refine howns'.congr fun p => ?_
    cases p <;> rfl

end Creation

/-! ### Every run -/

/-- **The ring on the heap is the bounded queue.** While `malloc` has memory, creation gives a ring, any
sequence of calls has the results of the queue, and what is live at its end is what the ring and its
callers hold; the destructor leaves what the callers do. -/
theorem heapRing_refines_fifo [DecidableEq ι] {alloc : Allocator} (htotal : alloc.Total)
    (garbage : Nat → Int) {count : UInt32} (hpos : 1 ≤ count.toNat) (hle : count.toNat ≤ 2 ^ 31)
    {ringbufSize : Int} (hringbuf : 0 ≤ ringbufSize) {size : Nat}
    (hsize : IsLeast {p : Nat | (∃ k, p = 2 ^ k) ∧ count.toNat ≤ p} size) (patience : Nat)
    {outs : ι → HeapEntry} {base : Finset Addr} {m₀ : Mem α σ}
    (houts : Ledger.Owns (outsHeld outs) base m₀.live)
    (hfits : ∀ o, ∃ a, (outs o).data = some a ∧ (outs o).size ≤ (m₀.bytesOf a).length)
    (calls : List (XRingCall ι)) (hlegal : ∀ call ∈ calls, call.Legal (· = xRingDataCopy)) :
    ∃ r m s m', HeapRing.xRingCreate alloc garbage count ringbufSize m₀ = .ok (some r, m) ∧
      runCalls (XRingCall.execHeap alloc patience) (⟨r, outs⟩, m) calls
        = .ok ((runSpec (XRingCall.spec (size - 1)) [] calls).1, s, m') ∧
      s.Owns base m' ∧
      ∃ m'', s.ring.xRingDestroy none m' = .ok ((), m'') ∧ Ledger.Owns (outsHeld s.outs) base m''.live := by
  cases hsize.unique (isLeast_ringSize count)
  obtain ⟨rounded, hround, -⟩ := roundedCount_ok hpos hle
  have hmade : xRingCreate garbage count ringbufSize = .ok (newRing garbage ringbufSize rounded) :=
    xRingCreate_eq_newRing hringbuf hround
  obtain ⟨r, m, hcreate, hshows⟩ := HeapRing.xRingCreate_shows htotal hringbuf hmade houts
    (fun o => HeapEntry.shows_shown (hfits o))
  have hstores : XRingClient.Stores (ringSize count)
      ⟨newRing garbage ringbufSize rounded, fun o => (outs o).shown m₀⟩ [] :=
    ⟨⟨0, 0, stores_of_made hmade hpos hle⟩, fun o => HeapEntry.shown_fits (hfits o)⟩
  have hstep : ∀ (x : HeapClient ι × Mem α σ) q (call : XRingCall ι),
      (∃ c, c.Stores (ringSize count) q ∧ x.1.Shows base x.2 c) → call.Legal (· = xRingDataCopy) →
      ∃ x', call.execHeap alloc patience x = .ok ((call.spec (ringSize count - 1) q).1, x') ∧
        ∃ c, c.Stores (ringSize count) (call.spec (ringSize count - 1) q).2 ∧ x'.1.Shows base x'.2 c := by
    rintro ⟨s, m⟩ q call ⟨c, hstores, hshows⟩ hcall
    obtain ⟨c', hexec, hstores', -⟩ := hstores.exec_refines hcall patience
    obtain ⟨s', m', hrun, hshows'⟩ := hshows.call htotal hexec
    exact ⟨(s', m'), hrun, c', hstores', hshows'⟩
  obtain ⟨⟨s, m'⟩, hrun, c, -, hshows'⟩ := runCalls_refines hstep (s := (⟨r, outs⟩, m))
    ⟨_, hstores, hshows⟩ (admissible_of_forall_mem [] hlegal)
  have howns : s.Owns base m' := hshows'.owns
  have hspares : SparesBlocks (none : Option (Addr → MemM α σ Unit)) := by
    intro f hf
    cases hf
  obtain ⟨m'', hdestroy, hleft⟩ := howns.destroy hspares
  exact ⟨r, m, s, m', hcreate, hrun, howns, m'', hdestroy, hleft⟩

/-- A ring of size 2 with buffers of 4 bytes takes a byte string of 5, turns the next one away and gives
the first one back, in a block of its own. -/
theorem heapRing_refines_fifo_two : ∃ r m s m' m'',
    HeapRing.xRingCreate nextAddress (fun _ => 0) 2 4 ownHeap = .ok (some r, m) ∧
    runCalls (XRingCall.execHeap nextAddress 0) (⟨r, ownEntry⟩, m)
        [.mpEnqueue (List.replicate 5 (some 7)) 5, .spEnqueue [some 8] 1, .mcDequeue ()]
      = .ok ([⟨0, none⟩, ⟨-1, none⟩, ⟨0, some (5, List.replicate 5 (some 7))⟩], s, m') ∧
    s.ring.xRingDestroy none m' = .ok ((), m'') ∧ Ledger.Owns (outsHeld s.outs) ∅ m''.live := by
  have hsize : IsLeast {p : Nat | (∃ k, p = 2 ^ k) ∧ (2 : UInt32).toNat ≤ p} 2 :=
    ⟨⟨⟨1, rfl⟩, le_rfl⟩, fun _ hp => hp.2⟩
  have hfits : ∀ o, ∃ a, (ownEntry o).data = some a ∧ (ownEntry o).size ≤ (ownHeap.bytesOf a).length :=
    fun () => ⟨1, rfl, by decide⟩
  have hlegal : ∀ call ∈ ([.mpEnqueue (List.replicate 5 (some 7)) 5, .spEnqueue [some 8] 1,
      .mcDequeue ()] : List (XRingCall Unit)), call.Legal (· = xRingDataCopy) := by
    simp [XRingCall.Legal]
  obtain ⟨r, m, s, m', hmade, hrun, -, m'', hdestroy, howns⟩ :=
    heapRing_refines_fifo nextAddress_total (fun _ => 0) (by decide) (by decide)
      (show (0 : Int) ≤ 4 by decide) hsize 0 ownEntry_owns
      hfits _ hlegal
  exact ⟨r, m, s, m', m'', hmade, hrun, hdestroy, howns⟩

end Gittest
