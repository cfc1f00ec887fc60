import Gittest.Proof.XRingCalls
import Mathlib.Logic.Relation

/-!
# A thread alone

A thread that takes all its steps with no other in between computes what its entry point computes:
the steps of `ProdPc.step` and `ConsPc.step` are the functions of `Gittest.XRing` cut into their
accesses to the shared memory.
-/

namespace Gittest

open Relation Transition

/-- The entry points of a side. -/
def XRingMode.enqueue (patience : Nat) : XRingMode → XRing → Buffer → Int →
    Except Fault (Int × XRing)
  | .single => xRingSpEnqueue
  | .multi => xRingMpEnqueue patience

def XRingMode.dequeue (patience : Nat) : XRingMode → XRing → XRingEntry →
    Except Fault (Int × XRing × XRingEntry)
  | .single => xRingScDequeue
  | .multi => xRingMcDequeue patience

variable {mode prodMode consMode : XRingMode}

/-! ### Producers -/

/-- A producer's steps with no other thread in between. -/
def ProdPc.Alone (mode : XRingMode) (s t : XRing × ProdPc) : Prop := s.2.step mode s.1 = some t

/-- Where a producer is when the function it runs has come to its end. -/
def ProdPc.EndsAs : Except Fault (Int × XRing) → XRing × ProdPc → Prop
  | .ok (ret, r), (r', pc) => r' = r ∧ pc = .idle (some ret)
  | .error fault, (_, pc) => pc = .crashed fault

theorem ProdPc.alone_write {r : XRing} {pc next : ProdPc} {written : Except Fault XRing}
    {rest : XRing → Except Fault (Int × XRing)}
    (hstep : pc.step mode r = some (ProdPc.write r next written))
    (hrest : ∀ r', written = .ok r' →
      ∃ t, ReflTransGen (Alone mode) (r', next) t ∧ EndsAs (rest r') t) :
    ∃ t, ReflTransGen (Alone mode) (r, pc) t ∧ EndsAs (written >>= rest) t := by
  cases hwritten : written with
  | error fault =>
      rw [hwritten] at hstep
      exact ⟨(r, .crashed fault), .single hstep, rfl⟩
  | ok r' =>
      rw [hwritten] at hstep
      obtain ⟨t, hreach, hends⟩ := hrest r' hwritten
      exact ⟨t, .head hstep hreach, hends⟩

theorem ProdPc.alone_fill {r : XRing} {prodHead : UInt32}
    (hturn : mode = .multi → r.prodTail = prodHead) (data : Buffer) (prodNext : UInt32) :
    ∃ t, ReflTransGen (Alone mode) (r, .fill .grow data prodHead prodNext) t ∧
      EndsAs (do
        let r ← r.modify prodHead (·.grow data.length)
        let r ← r.modify prodHead (·.copyIn data data.length)
        let r ← r.modify prodHead (·.setContentLength data.length)
        return (XRingRet.success.code, { r with prodTail := prodNext })) t := by
  apply alone_write rfl
  intro r₁ hgrow
  obtain ⟨e₁, rfl⟩ := XRing.modify_eq_ok hgrow
  apply alone_write rfl
  intro r₂ hcopy
  obtain ⟨e₂, rfl⟩ := XRing.modify_eq_ok hcopy
  apply alone_write rfl
  intro r₃ hlength
  obtain ⟨e₃, rfl⟩ := XRing.modify_eq_ok hlength
  cases mode with
  | single => exact ⟨_, .single rfl, rfl, rfl⟩
  | multi => exact ⟨_, .head (if_neg (not_not.mpr (hturn rfl))) (.single rfl), rfl, rfl⟩

theorem ProdPc.alone_enqueue {r : XRing} (hturn : mode = .multi → r.prodTail = r.prodHead)
    (patience : Nat) (data : Buffer) :
    ∃ t, ReflTransGen (Alone mode) (r, .readHead data) t ∧
      EndsAs (mode.enqueue patience r data data.length) t := by
  have heq : mode.enqueue patience r data data.length = xRingSpEnqueue r data data.length := by
    cases mode with
    | single => rfl
    | multi => exact xRingMpEnqueue_eq (hturn rfl) patience data data.length
  rw [heq, xRingSpEnqueue]
  by_cases hfull : (r.prodHead + 1) &&& r.mask = r.consTail
  · refine ⟨(r, .idle (some (-XRingRet.nospace.code))), .head rfl (.single (if_pos hfull)), ?_⟩
    simp only [hfull, if_true]
    exact ⟨rfl, rfl⟩
  · simp only [hfull, if_false]
    have hreserve : Alone mode
        (r, .reserve data r.prodHead ((r.prodHead + 1) &&& r.mask))
        ({ r with prodHead := (r.prodHead + 1) &&& r.mask },
          .fill .grow data r.prodHead ((r.prodHead + 1) &&& r.mask)) := by
      cases mode with
      | single => rfl
      | multi => rw [Alone, step, atomic32Cmpset, if_pos rfl]
    obtain ⟨t, hfill, hends⟩ := alone_fill
      (r := { r with prodHead := (r.prodHead + 1) &&& r.mask }) hturn data
      ((r.prodHead + 1) &&& r.mask)
    exact ⟨t, .head rfl (.head (if_neg hfull) (.head hreserve hfill)), hends⟩

/-! ### Consumers -/

def ConsPc.Alone (mode : XRingMode) (s t : XRing × ConsPc) : Prop := s.2.step mode s.1 = some t

/-- The same for a consumer about to return, which still has the entry it hands back. -/
def ConsPc.EndsAs (mode : XRingMode) : Except Fault (Int × XRing × XRingEntry) → XRing × ConsPc → Prop
  | .ok (ret, r, out), (r', pc) => pc.step mode r' = some (r, .idle (some ret)) ∧ pc.out? = some out
  | .error fault, (_, pc) => pc = .crashed fault

theorem ConsPc.alone_read {r : XRing} {pc : ConsPc} {next : XRingEntry → ConsPc}
    {readout : Except Fault XRingEntry}
    {rest : XRingEntry → Except Fault (Int × XRing × XRingEntry)}
    (hstep : pc.step mode r = some (r, ConsPc.read next readout))
    (hrest : ∀ out, ∃ t, ReflTransGen (Alone mode) (r, next out) t ∧ EndsAs mode (rest out) t) :
    ∃ t, ReflTransGen (Alone mode) (r, pc) t ∧ EndsAs mode (readout >>= rest) t := by
  cases hreadout : readout with
  | error fault =>
      rw [hreadout] at hstep
      exact ⟨(r, .crashed fault), .single hstep, rfl⟩
  | ok out =>
      rw [hreadout] at hstep
      obtain ⟨t, hreach, hends⟩ := hrest out
      exact ⟨t, .head hstep hreach, hends⟩

theorem ConsPc.alone_drain {r : XRing} {consHead : UInt32}
    (hturn : mode = .multi → r.consTail = consHead) (out : XRingEntry) (consNext : UInt32) :
    ∃ t, ReflTransGen (Alone mode) (r, .drain .grow out consHead consNext) t ∧
      EndsAs mode (do
        let out ← (r.entry consHead >>= (·.growOut out))
        let out ← (r.entry consHead >>= (·.copyOut out))
        let out ← (r.entry consHead >>= (·.setOutLength out))
        return (XRingRet.success.code, { r with consTail := consNext }, out)) t := by
  apply alone_read rfl
  intro out₁
  apply alone_read rfl
  intro out₂
  apply alone_read rfl
  intro out₃
  cases mode with
  | single => exact ⟨_, .refl, rfl, rfl⟩
  | multi => exact ⟨_, .single (if_neg (not_not.mpr (hturn rfl))), rfl, rfl⟩

theorem ConsPc.alone_dequeue {r : XRing} (hturn : mode = .multi → r.consTail = r.consHead)
    (patience : Nat) (out : XRingEntry) :
    ∃ t, ReflTransGen (Alone mode) (r, .readHead out) t ∧
      EndsAs mode (mode.dequeue patience r out) t := by
  have heq : mode.dequeue patience r out = xRingScDequeue r out := by
    cases mode with
    | single => rfl
    | multi => exact xRingMcDequeue_eq (hturn rfl) patience out
  rw [heq, xRingScDequeue]
  by_cases hempty : r.consHead = r.prodTail
  · refine ⟨(r, .readTail out r.consHead), .single rfl, ?_⟩
    simp only [hempty, if_true]
    exact ⟨if_pos rfl, rfl⟩
  · simp only [hempty, if_false]
    have hclaim : Alone mode
        (r, .reserve out r.consHead ((r.consHead + 1) &&& r.mask))
        ({ r with consHead := (r.consHead + 1) &&& r.mask },
          .drain .grow out r.consHead ((r.consHead + 1) &&& r.mask)) := by
      cases mode with
      | single => rfl
      | multi => rw [Alone, step, atomic32Cmpset, if_pos rfl]
    obtain ⟨t, hdrain, hends⟩ := alone_drain
      (r := { r with consHead := (r.consHead + 1) &&& r.mask }) hturn out
      ((r.consHead + 1) &&& r.mask)
    refine ⟨t, .head rfl (.head (if_neg hempty) (.head hclaim hdrain)), ?_⟩
    simpa only [bind_assoc] using hends

/-! ### Among the other threads -/

section Threads

variable {P C : Type} [DecidableEq P] [DecidableEq C] {s : XRingThreads P C}

theorem XRingThreads.run_prod_alone {p : P} {t : XRing × ProdPc}
    (hreach : ReflTransGen (ProdPc.Alone prodMode) (s.ring, s.prod p) t) :
    ∃ n s', run (step prodMode consMode) s (List.replicate n (.prod p)) = some s' ∧
      s'.ring = t.1 ∧ s'.prod = Function.update s.prod p t.2 ∧ s'.cons = s.cons := by
  induction hreach with
  | refl => exact ⟨0, s, rfl, rfl, (Function.update_eq_self p s.prod).symm, rfl⟩
  | @tail u t _ hlast ih =>
      obtain ⟨n, s', hrun, hring, hprod, hcons⟩ := ih
      have hpc : s'.prod p = u.2 := by rw [hprod, Function.update_self]
      have hstep : step prodMode consMode s' (.prod p) = some { s' with
          ring := t.1
          prod := Function.update s'.prod p t.2
          log := s'.log.recordProd (s'.prod p) t.2 } := by
        rw [step, hpc, hring, show u.2.step prodMode u.1 = some t from hlast]
        rfl
      have hrun' := run_concat_eq_some.mpr ⟨s', hrun, hstep⟩
      rw [← List.replicate_succ'] at hrun'
      refine ⟨n + 1, _, hrun', rfl, ?_, hcons⟩
      dsimp only
      rw [hprod, Function.update_idem]

theorem XRingThreads.run_cons_alone {c : C} {t : XRing × ConsPc}
    (hreach : ReflTransGen (ConsPc.Alone consMode) (s.ring, s.cons c) t) :
    ∃ n s', run (step prodMode consMode) s (List.replicate n (.cons c)) = some s' ∧
      s'.ring = t.1 ∧ s'.cons = Function.update s.cons c t.2 ∧ s'.prod = s.prod := by
  induction hreach with
  | refl => exact ⟨0, s, rfl, rfl, (Function.update_eq_self c s.cons).symm, rfl⟩
  | @tail u t _ hlast ih =>
      obtain ⟨n, s', hrun, hring, hcons, hprod⟩ := ih
      have hpc : s'.cons c = u.2 := by rw [hcons, Function.update_self]
      have hstep : step prodMode consMode s' (.cons c) = some { s' with
          ring := t.1
          cons := Function.update s'.cons c t.2
          log := s'.log.recordCons c (s'.cons c) t.2 } := by
        rw [step, hpc, hring, show u.2.step consMode u.1 = some t from hlast]
        rfl
      have hrun' := run_concat_eq_some.mpr ⟨s', hrun, hstep⟩
      rw [← List.replicate_succ'] at hrun'
      refine ⟨n + 1, _, hrun', rfl, ?_, hprod⟩
      dsimp only
      rw [hcons, Function.update_idem]

/-- **An enqueue with no other thread in between** ends as the function does. -/
theorem XRingThreads.enqueue_alone {p : P} {ret : Option Int} (hidle : s.prod p = .idle ret)
    (hturn : prodMode = .multi → s.ring.prodTail = s.ring.prodHead) (patience : Nat)
    (data : Buffer) :
    ∃ n s', run (step prodMode consMode) s (.enqueue p data :: List.replicate n (.prod p))
        = some s' ∧
      ProdPc.EndsAs (prodMode.enqueue patience s.ring data data.length) (s'.ring, s'.prod p) ∧
      s'.cons = s.cons := by
  have hstart : step prodMode consMode s (.enqueue p data)
      = some { s with prod := Function.update s.prod p (.readHead data) } := by
    rw [step, hidle]
  obtain ⟨t, hreach, hends⟩ := ProdPc.alone_enqueue hturn patience data
  rw [← Function.update_self p (.readHead data) s.prod] at hreach
  obtain ⟨n, s', hrun, hring, hprod, hcons⟩ :=
    run_prod_alone (s := { s with prod := Function.update s.prod p (.readHead data) }) hreach
  refine ⟨n, s', run_cons_eq_some.mpr ⟨_, hstart, hrun⟩, ?_, hcons⟩
  rw [hring, hprod, Function.update_self]
  exact hends

/-- **A dequeue with no other thread in between** ends as the function does. -/
theorem XRingThreads.dequeue_alone {c : C} {ret : Option Int} (hidle : s.cons c = .idle ret)
    (hturn : consMode = .multi → s.ring.consTail = s.ring.consHead) (patience : Nat)
    {out : XRingEntry} (hfits : out.Fits) :
    ∃ n s', run (step prodMode consMode) s (.dequeue c out :: List.replicate n (.cons c))
        = some s' ∧
      ConsPc.EndsAs consMode (consMode.dequeue patience s.ring out) (s'.ring, s'.cons c) ∧
      s'.prod = s.prod := by
  have hstart : step prodMode consMode s (.dequeue c out)
      = some { s with cons := Function.update s.cons c (.readHead out) } := by
    rw [step, hidle]
    exact if_pos hfits
  obtain ⟨t, hreach, hends⟩ := ConsPc.alone_dequeue hturn patience out
  rw [← Function.update_self c (.readHead out) s.cons] at hreach
  obtain ⟨n, s', hrun, hring, hcons, hprod⟩ :=
    run_cons_alone (s := { s with cons := Function.update s.cons c (.readHead out) }) hreach
  refine ⟨n, s', run_cons_eq_some.mpr ⟨_, hstart, hrun⟩, ?_, hprod⟩
  rw [hring, hcons, Function.update_self]
  exact hends

end Threads

end Gittest
