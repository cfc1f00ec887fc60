import Gittest.Proof.XRingCallSteps
import Gittest.XLogText
import Gittest.XLogThread

/-!
# Stopping the logger

The logger's thread writes what the ring holds to the file, in order and with the right count, whatever
it was doing; but nothing of `thread_status` reaches its loop. `x_log_destroy` waits for ever.
-/

namespace Gittest

open Transition

variable {P : Type}

namespace XLogServer

/-! ### What the thread has done -/

/-- The file and the count are those of these texts. -/
structure Accounts (s : XLogServer P) (texts : List Payload) : Prop where
  fp : s.fp = (texts.map Prod.snd).flatten
  logCount : s.logCount = UInt64.ofNat texts.length

/-- An entry that has come out of the ring last and has not been written yet. -/
structure HasDequeued (s : XLogServer P) (ringEntry : XRingEntry) : Prop where
  filled : ringEntry.Filled
  delivered : ∃ before, s.threads.log.delivered = before ++ [ringEntry.payload] ∧ s.Accounts before

/-- The same with the entry written and not yet counted. -/
structure HasWritten (s : XLogServer P) (ringEntry : XRingEntry) : Prop where
  fp : s.fp = (s.threads.log.delivered.map Prod.snd).flatten
  delivered : ∃ before, s.threads.log.delivered = before ++ [ringEntry.payload] ∧
    s.logCount = UInt64.ofNat before.length

/-- Between two dequeues. -/
structure AtRest (s : XLogServer P) (ringEntry : XRingEntry) : Prop where
  fits : ringEntry.Fits
  idle : ∃ ret, s.threads.cons () = .idle ret

def ThreadOk (s : XLogServer P) : Prop :=
  match s.thread with
  | .loop ringEntry => s.AtRest ringEntry ∧ s.Accounts s.threads.log.delivered
  | .dequeue => (s.threads.cons ()).out?.isSome ∧ s.Accounts s.threads.log.delivered
  | .test ret ringEntry => s.AtRest ringEntry ∧
      if ret = XRingRet.success.code then
        s.HasDequeued ringEntry
      else
        s.Accounts s.threads.log.delivered
  | .noLog ringEntry => s.AtRest ringEntry ∧ s.Accounts s.threads.log.delivered
  | .write ringEntry => s.AtRest ringEntry ∧ s.HasDequeued ringEntry
  | .count ringEntry => s.AtRest ringEntry ∧ s.HasWritten ringEntry
  | .freeEntry _ => False
  | .returned => False
  | .crashed _ => False

structure Inv (size : Nat) (s : XLogServer P) : Prop where
  ring : XRingInv .multi .single size s.threads
  threadOk : s.ThreadOk

/-! ### How far it has to go -/

/-- An entry is out of the ring, and has not been counted. -/
def Holding (s : XLogServer P) : Bool :=
  match s.thread with
  | .test ret _ => ret = XRingRet.success.code
  | .write _ => true
  | .count _ => true
  | _ => false

/-- The entries that are still to be counted. -/
def pending (s : XLogServer P) : Nat :=
  s.threads.log.published - s.threads.log.released + s.Holding.toNat

def stepsLeft (s : XLogServer P) : Nat :=
  match s.thread with
  | .test ret _ => if ret = XRingRet.success.code then 3 else 14
  | .noLog _ => 13
  | .loop _ => 12
  | .dequeue => 3 + (s.threads.cons ()).stepsLeft
  | .write _ => 2
  | .count _ => 1
  | _ => 0

/-- It decreases with every step of the thread that has entries left to count. -/
def measure (s : XLogServer P) : Nat := 16 * s.pending + s.stepsLeft

/-! ### One step of the thread -/

theorem ofDequeue_of_out {pc pc' : ConsPc} (hout : pc'.out?.isSome) :
    XLogThreadPc.ofDequeue pc pc' = .dequeue := by
  cases pc' with
  | idle => cases hout
  | crashed => cases hout
  | readHead => rfl
  | readTail => rfl
  | reserve => rfl
  | drain => rfl

theorem ofDequeue_idle {pc : ConsPc} {out : XRingEntry} (hout : pc.out? = some out) (ret : Int) :
    XLogThreadPc.ofDequeue pc (.idle (some ret)) = .test ret out := by
  simp only [XLogThreadPc.ofDequeue, hout]

theorem fwrite_ok {fp : Buffer} {ringEntry : XRingEntry} (hfilled : ringEntry.Filled) :
    fwrite fp ringEntry.data ringEntry.contentLength = .ok (fp ++ ringEntry.payload.2) :=
  if_pos hfilled

section Steps

variable [DecidableEq P] {size : Nat} {s : XLogServer P} {ringEntry : XRingEntry}

theorem Inv.loop_step (hinv : s.Inv size) (hthread : s.thread = .loop ringEntry) :
    ∃ t, s.threadStep = some t ∧ t.Inv size ∧ t.threads.log = s.threads.log ∧
      t.measure < s.measure := by
  have hok := hinv.threadOk
  rw [ThreadOk, hthread] at hok
  obtain ⟨⟨hfits, ret, hidle⟩, haccounts⟩ := hok
  have hcall : s.threads.step .multi .single (.dequeue () ringEntry)
      = some { s.threads with
          cons := Function.update s.threads.cons () (.readHead ringEntry) } := by
    rw [XRingThreads.step, hidle]
    exact if_pos hfits
  have hring := hinv.ring.step (by simp) (fun _ => inferInstance)
    (a := .dequeue () ringEntry) trivial hcall
  have hstep : s.threadStep = some { s with
      threads := { s.threads with
        cons := Function.update s.threads.cons () (.readHead ringEntry) }
      thread := .dequeue } := by
    rw [threadStep, hthread]
    exact if_pos Int.one_ne_zero
  refine ⟨_, hstep, ⟨hring, ?_⟩, rfl, ?_⟩
  · refine ⟨?_, haccounts.fp, haccounts.logCount⟩
    dsimp only
    rw [Function.update_self]
    rfl
  · simp only [measure, pending, Holding, stepsLeft, hthread, Function.update_self,
      ConsPc.stepsLeft]
    omega

theorem Inv.dequeue_step (hinv : s.Inv size) (hthread : s.thread = .dequeue) :
    ∃ t, s.threadStep = some t ∧ t.Inv size ∧ t.threads.log.accepted = s.threads.log.accepted ∧
      (s.pending ≠ 0 → t.measure < s.measure) := by
  have hok := hinv.threadOk
  rw [ThreadOk, hthread] at hok
  obtain ⟨hsome, haccounts⟩ := hok
  obtain ⟨out, hout⟩ := Option.isSome_iff_exists.mp hsome
  obtain ⟨threads', hcons, hring, hreserved, hpublished, hdequeue⟩ := hinv.ring.dequeue_step hout
  have hstep : s.threadStep = some { s with
      threads := threads'
      thread := .ofDequeue (s.threads.cons ()) (threads'.cons ()) } := by
    rw [threadStep, hthread]
    dsimp only
    rw [hcons]
    rfl
  have haccepted : threads'.log.accepted = s.threads.log.accepted := by
    rw [XRingLog.accepted, XRingLog.accepted, hreserved, hpublished]
  refine ⟨_, hstep, ⟨hring, ?_⟩, haccepted, fun hpending => ?_⟩
  · cases hdequeue with
    | goesOn hsome' hlog _ _ =>
        rw [ThreadOk, ofDequeue_of_out hsome']
        refine ⟨hsome', ?_⟩
        dsimp only
        rw [XRingLog.delivered, hlog]
        exact ⟨haccounts.fp, haccounts.logCount⟩
    | noent hidle hlog _ _ =>
        rw [ThreadOk, hidle, ofDequeue_idle hout]
        refine ⟨⟨hinv.ring.out_fits hout, _, hidle⟩, ?_⟩
        rw [if_neg (by decide)]
        dsimp only
        rw [XRingLog.delivered, hlog]
        exact ⟨haccounts.fp, haccounts.logCount⟩
    | success hidle hlog _ _ hfilled _ =>
        rw [ThreadOk, hidle, ofDequeue_idle hout]
        refine ⟨⟨hinv.ring.out_fits hout, _, hidle⟩, ?_⟩
        rw [if_pos rfl]
        exact ⟨hfilled, s.threads.log.delivered, hlog, haccounts.fp, haccounts.logCount⟩
  · cases hdequeue with
    | goesOn hsome' _ hreleased hleft =>
        simp only [measure, pending, Holding, stepsLeft, hthread, ofDequeue_of_out hsome',
          hpublished, hreleased]
        omega
    | noent _ _ _ hempty =>
        refine absurd ?_ hpending
        simp only [pending, Holding, hthread, hempty, Nat.sub_self]
        rfl
    | success hidle _ hreleased hlt _ hlast =>
        simp only [measure, pending, Holding, stepsLeft, hthread, hidle, ofDequeue_idle hout,
          hpublished, hreleased, hlast, decide_true, Bool.toNat_true, Bool.toNat_false, if_true]
        omega

/-- The thread is never stuck, and while entries are pending it comes nearer to the last of them. -/
theorem Inv.threadStep (hinv : s.Inv size) :
    ∃ t, s.threadStep = some t ∧ t.Inv size ∧ t.threads.log.accepted = s.threads.log.accepted ∧
      (s.pending ≠ 0 → t.measure < s.measure) := by
  have hok := hinv.threadOk
  cases hthread : s.thread with
  | loop ringEntry =>
      obtain ⟨t, hstep, hinv', hlog, hless⟩ := hinv.loop_step hthread
      exact ⟨t, hstep, hinv', by rw [hlog], fun _ => hless⟩
  | dequeue => exact hinv.dequeue_step hthread
  | test ret ringEntry =>
      rw [ThreadOk, hthread] at hok
      obtain ⟨hrest, hcase⟩ := hok
      by_cases hret : ret = XRingRet.success.code
      · rw [if_pos hret] at hcase
        refine ⟨{ s with thread := .write ringEntry }, ?_, ⟨hinv.ring, ?_⟩, rfl, fun _ => ?_⟩
        · rw [XLogServer.threadStep, hthread]
          exact if_neg (not_not.mpr hret)
        · obtain ⟨hfilled, before, hdelivered, haccounts⟩ := hcase
          exact ⟨⟨hrest.fits, hrest.idle⟩, hfilled, before, hdelivered, haccounts.fp,
            haccounts.logCount⟩
        · simp only [measure, pending, Holding, stepsLeft, hthread, hret, decide_true, if_true]
          omega
      · rw [if_neg hret] at hcase
        refine ⟨{ s with thread := .noLog ringEntry }, ?_, ⟨hinv.ring, ?_⟩, rfl, fun _ => ?_⟩
        · rw [XLogServer.threadStep, hthread]
          exact if_pos hret
        · exact ⟨⟨hrest.fits, hrest.idle⟩, hcase.fp, hcase.logCount⟩
        · simp only [measure, pending, Holding, stepsLeft, hthread, hret, decide_false, if_false]
          omega
  | noLog ringEntry =>
      rw [ThreadOk, hthread] at hok
      obtain ⟨hrest, haccounts⟩ := hok
      refine ⟨{ s with thread := .loop ringEntry }, ?_, ⟨hinv.ring, ?_⟩, rfl, fun _ => ?_⟩
      · rw [XLogServer.threadStep, hthread]
      · exact ⟨⟨hrest.fits, hrest.idle⟩, haccounts.fp, haccounts.logCount⟩
      · simp only [measure, pending, Holding, stepsLeft, hthread]
        omega
  | write ringEntry =>
      rw [ThreadOk, hthread] at hok
      obtain ⟨hrest, hfilled, before, hdelivered, haccounts⟩ := hok
      refine ⟨{ s with fp := s.fp ++ ringEntry.payload.2, thread := .count ringEntry }, ?_,
        ⟨hinv.ring, ?_⟩, rfl, fun _ => ?_⟩
      · rw [XLogServer.threadStep, hthread]
        dsimp only
        rw [fwrite_ok hfilled]
      · refine ⟨⟨hrest.fits, hrest.idle⟩, ?_, before, hdelivered, haccounts.logCount⟩
        dsimp only
        rw [hdelivered, haccounts.fp, List.map_append, List.flatten_append]
        simp
      · simp only [measure, pending, Holding, stepsLeft, hthread]
        omega
  | count ringEntry =>
      rw [ThreadOk, hthread] at hok
      obtain ⟨hrest, hfp, before, hdelivered, hcount⟩ := hok
      refine ⟨{ s with logCount := s.logCount + 1, thread := .loop ringEntry }, ?_,
        ⟨hinv.ring, ?_⟩, rfl, fun _ => ?_⟩
      · rw [XLogServer.threadStep, hthread]
      · refine ⟨⟨hrest.fits, hrest.idle⟩, hfp, ?_⟩
        dsimp only
        rw [hdelivered, hcount, List.length_append, List.length_singleton, UInt64.ofNat_add]
        rfl
      · simp only [measure, pending, Holding, stepsLeft, hthread, Bool.toNat_true,
          Bool.toNat_false]
        omega
  | freeEntry ringEntry => rw [ThreadOk, hthread] at hok; exact hok.elim
  | returned => rw [ThreadOk, hthread] at hok; exact hok.elim
  | crashed fault => rw [ThreadOk, hthread] at hok; exact hok.elim

omit [DecidableEq P] in
/-- With no entries pending the file holds everything that was put into the ring. -/
theorem Inv.accounts (hinv : s.Inv size) (hnone : s.pending = 0) :
    s.Accounts s.threads.log.accepted := by
  have hclaimed := hinv.ring.at_log.released_le
  have hpublished := hinv.ring.at_log.claimed_le
  have hdelivered : s.threads.log.delivered = s.threads.log.accepted := by
    rw [hinv.ring.delivered_eq, XRingLog.accepted]
    rw [pending] at hnone
    rw [show s.threads.log.released = s.threads.log.published by omega]
  have hok := hinv.threadOk
  rw [ThreadOk] at hok
  rw [pending, Holding] at hnone
  rw [← hdelivered]
  cases hthread : s.thread with
  | loop ringEntry => rw [hthread] at hok; exact hok.2
  | dequeue => rw [hthread] at hok; exact hok.2
  | test ret ringEntry =>
      rw [hthread] at hok hnone
      have hret : ¬ret = XRingRet.success.code := by
        intro hret
        simp [hret] at hnone
      exact (if_neg hret).mp hok.2
  | noLog ringEntry => rw [hthread] at hok; exact hok.2
  | write ringEntry => rw [hthread] at hnone; simp at hnone
  | count ringEntry => rw [hthread] at hnone; simp at hnone
  | freeEntry ringEntry => rw [hthread] at hok; exact hok.elim
  | returned => rw [hthread] at hok; exact hok.elim
  | crashed fault => rw [hthread] at hok; exact hok.elim

end Steps

/-! ### The other threads -/

/-- The condition on steps: no compare-and-set of the producers' head is stale. -/
def Fresh (s : XLogServer P) : XLogAct P → Prop
  | .prod p => s.threads.Fresh .multi .single (.prod p)
  | _ => True

/-- What the thread has done stands while others take their steps. -/
theorem ThreadOk.congr {s t : XLogServer P} (hok : s.ThreadOk) (hthread : t.thread = s.thread)
    (hcons : t.threads.cons = s.threads.cons)
    (hreturned : t.threads.log.returned = s.threads.log.returned) (hfp : t.fp = s.fp)
    (hcount : t.logCount = s.logCount) : t.ThreadOk := by
  have hdelivered : t.threads.log.delivered = s.threads.log.delivered := by
    rw [XRingLog.delivered, XRingLog.delivered, hreturned]
  have haccounts : ∀ texts, s.Accounts texts → t.Accounts texts := fun texts h =>
    ⟨hfp.trans h.fp, hcount.trans h.logCount⟩
  have hrest : ∀ e, s.AtRest e → t.AtRest e := fun e h => ⟨h.fits, by rw [hcons]; exact h.idle⟩
  have hdequeued : ∀ e, s.HasDequeued e → t.HasDequeued e := by
    rintro e ⟨hfilled, before, hbefore, h⟩
    exact ⟨hfilled, before, hdelivered.trans hbefore, haccounts before h⟩
  have hwritten : ∀ e, s.HasWritten e → t.HasWritten e := by
    rintro e ⟨hwrote, before, hbefore, h⟩
    refine ⟨?_, before, hdelivered.trans hbefore, hcount.trans h⟩
    rw [hfp, hdelivered]
    exact hwrote
  rw [ThreadOk] at hok ⊢
  rw [hthread, hdelivered, hcons]
  cases hpc : s.thread with
  | loop e => rw [hpc] at hok; exact ⟨hrest e hok.1, haccounts _ hok.2⟩
  | dequeue => rw [hpc] at hok; exact ⟨hok.1, haccounts _ hok.2⟩
  | test ret e =>
      rw [hpc] at hok
      refine ⟨hrest e hok.1, ?_⟩
      split
      · rename_i hret
        exact hdequeued e ((if_pos hret).mp hok.2)
      · rename_i hret
        exact haccounts _ ((if_neg hret).mp hok.2)
  | noLog e => rw [hpc] at hok; exact ⟨hrest e hok.1, haccounts _ hok.2⟩
  | write e => rw [hpc] at hok; exact ⟨hrest e hok.1, hdequeued e hok.2⟩
  | count e => rw [hpc] at hok; exact ⟨hrest e hok.1, hwritten e hok.2⟩
  | freeEntry e => rw [hpc] at hok; exact hok
  | returned => rw [hpc] at hok; exact hok
  | crashed fault => rw [hpc] at hok; exact hok

section Others

variable [DecidableEq P] {size : Nat} {s t : XLogServer P} {p : P}

omit [DecidableEq P] in
theorem recordProd_returned (log : XRingLog Unit) (pc pc' : ProdPc) :
    (log.recordProd pc pc').returned = log.returned := by
  unfold XRingLog.recordProd
  split <;> rfl

/-- What a step of a writer does: it is one of `x_ring_mp_enqueue`, or none. -/
theorem writer_cases {a : XLogAct P} (hstep : s.step a = some t) (hthread : a ≠ .thread)
    (hdestroy : a ≠ .destroy) :
    ∃ threads writing, t = { s with threads := threads, writing := writing } ∧
      (threads = s.threads ∨
        (∃ p text, s.threads.step .multi .single (.enqueue p text) = some threads) ∨
        ∃ p, a = .prod p ∧ s.threads.step .multi .single (.prod p) = some threads) := by
  cases a with
  | write p now level message =>
      change s.writeStep p now level message = some t at hstep
      rw [writeStep] at hstep
      split at hstep
      · cases hstep
      · split at hstep
        · cases hstep
          exact ⟨s.threads, s.writing, rfl, Or.inl rfl⟩
        · split at hstep
          · cases hstep
          · split at hstep
            · obtain ⟨threads, hcall, rfl⟩ := Option.map_eq_some_iff.mp hstep
              exact ⟨threads, _, rfl, Or.inr (Or.inl ⟨p, _, hcall⟩)⟩
            · cases hstep
  | retry p =>
      change s.retryStep p = some t at hstep
      rw [retryStep] at hstep
      split at hstep
      · obtain ⟨threads, hcall, rfl⟩ := Option.map_eq_some_iff.mp hstep
        exact ⟨threads, _, rfl, Or.inr (Or.inl ⟨p, _, hcall⟩)⟩
      · cases hstep
  | prod p =>
      obtain ⟨threads, hcall, rfl⟩ := Option.map_eq_some_iff.mp hstep
      exact ⟨threads, _, rfl, Or.inr (Or.inr ⟨p, rfl, hcall⟩)⟩
  | thread => exact absurd rfl hthread
  | destroy => exact absurd rfl hdestroy

theorem Inv.writer_step (hinv : s.Inv size) {a : XLogAct P} (hfresh : s.Fresh a)
    (hstep : s.step a = some t) (hthread : a ≠ .thread) (hdestroy : a ≠ .destroy) : t.Inv size := by
  obtain ⟨threads, writing, rfl, hsame | ⟨p, text, hcall⟩ | ⟨p, rfl, hcall⟩⟩ :=
    writer_cases hstep hthread hdestroy
  · subst hsame
    exact ⟨hinv.ring, hinv.threadOk.congr rfl rfl rfl rfl rfl⟩
  · have hring := hinv.ring.step (by simp) (fun _ => inferInstance)
      (a := .enqueue p text) trivial hcall
    rw [XRingThreads.step] at hcall
    split at hcall
    · cases hcall
      exact ⟨hring, hinv.threadOk.congr rfl rfl rfl rfl rfl⟩
    · cases hcall
  · have hring := hinv.ring.step (by simp) (fun _ => inferInstance)
      (a := .prod p) hfresh hcall
    obtain ⟨⟨ring, pc⟩, _, rfl⟩ := Option.map_eq_some_iff.mp hcall
    exact ⟨hring, hinv.threadOk.congr rfl rfl (recordProd_returned _ _ _) rfl rfl⟩

/-- **The step lemma.** -/
theorem Inv.step (hinv : s.Inv size) {a : XLogAct P} (hfresh : s.Fresh a)
    (hstep : s.step a = some t) : t.Inv size := by
  cases a with
  | write p now level message => exact hinv.writer_step hfresh hstep (by simp) (by simp)
  | retry p => exact hinv.writer_step hfresh hstep (by simp) (by simp)
  | prod p => exact hinv.writer_step hfresh hstep (by simp) (by simp)
  | thread =>
      obtain ⟨t', hstep', hinv', _⟩ := hinv.threadStep
      change s.threadStep = some t at hstep
      rw [hstep] at hstep'
      cases hstep'
      exact hinv'
  | destroy =>
      change s.destroyStep = some t at hstep
      rw [destroyStep] at hstep
      split at hstep
      · cases hstep
        exact ⟨hinv.ring, hinv.threadOk.congr rfl rfl rfl rfl rfl⟩
      · split at hstep
        · cases hstep
          exact ⟨hinv.ring, hinv.threadOk.congr rfl rfl rfl rfl rfl⟩
        · cases hstep
      · cases hstep

omit [DecidableEq P] in
theorem inv_start {garbage : Nat → Int} {count : UInt32} {ringbufSize : Int} {r : XRing}
    (hmade : xRingCreate garbage count ringbufSize = .ok r) (hpos : 1 ≤ count.toNat)
    (hle : count.toNat ≤ 2 ^ 31) (level : Int) :
    (XLogServer.start r level : XLogServer P).Inv r.size.toNat where
  ring := xRingInv_start .multi .single hmade hpos hle
  threadOk := ⟨⟨by simp [XRingEntry.Fits], none, rfl⟩, rfl, rfl⟩

/-- **The drain.** The thread alone comes to a state in which the file holds all that is in the ring. -/
theorem Inv.drains (hinv : s.Inv size) :
    ∃ n t, run XLogServer.step s (List.replicate n .thread) = some t ∧
      t.Accounts s.threads.log.accepted := by
  have hprogress : ∀ u : XLogServer P,
      (u.Inv size ∧ u.threads.log.accepted = s.threads.log.accepted) → ¬u.pending = 0 →
      ∃ t, u.step .thread = some t ∧
        (t.Inv size ∧ t.threads.log.accepted = s.threads.log.accepted) ∧ t.measure < u.measure := by
    rintro u ⟨hu, haccepted⟩ hpending
    obtain ⟨t, hstep, ht, hsame, hless⟩ := hu.threadStep
    exact ⟨t, hstep, ⟨ht, hsame.trans haccepted⟩, hless hpending⟩
  obtain ⟨n, t, hrun, ⟨ht, haccepted⟩, hdone⟩ :=
    run_until measure hprogress ⟨hinv, rfl⟩
  refine ⟨n, t, hrun, ?_⟩
  rw [← haccepted]
  exact ht.accounts hdone

/-! ### The loop has no way out -/

/-- The thread is in its loop or has crashed there, and whoever has called `x_log_destroy` waits. -/
structure Endless (s : XLogServer P) : Prop where
  returned : s.thread ≠ .returned
  freeEntry : ∀ ringEntry, s.thread ≠ .freeEntry ringEntry
  destroyer : s.destroyer ≠ .returned
  waits : s.threadStatus = .stopping → s.destroyer = .join

theorem ofDequeue_endless (pc pc' : ConsPc) : XLogThreadPc.ofDequeue pc pc' ≠ .returned ∧
    ∀ ringEntry, XLogThreadPc.ofDequeue pc pc' ≠ .freeEntry ringEntry := by
  unfold XLogThreadPc.ofDequeue
  split <;> simp

theorem threadStep_endless (hendless : s.Endless) (hstep : s.threadStep = some t) :
    (t.thread ≠ .returned ∧ ∀ ringEntry, t.thread ≠ .freeEntry ringEntry) ∧
      t.destroyer = s.destroyer ∧ t.threadStatus = s.threadStatus := by
  rw [threadStep] at hstep
  cases hthread : s.thread with
  | loop ringEntry =>
      rw [hthread] at hstep
      change (if (1 : Int) ≠ 0 then _ else _) = some t at hstep
      rw [if_pos Int.one_ne_zero] at hstep
      cases hstep
      exact ⟨by simp, rfl, rfl⟩
  | dequeue =>
      rw [hthread] at hstep
      obtain ⟨threads', _, rfl⟩ := Option.map_eq_some_iff.mp hstep
      exact ⟨ofDequeue_endless _ _, rfl, rfl⟩
  | test ret ringEntry =>
      rw [hthread] at hstep
      dsimp only at hstep
      split at hstep
      · cases hstep
        exact ⟨by simp, rfl, rfl⟩
      · cases hstep
        exact ⟨by simp, rfl, rfl⟩
  | noLog ringEntry =>
      rw [hthread] at hstep
      cases hstep
      exact ⟨by simp, rfl, rfl⟩
  | write ringEntry =>
      rw [hthread] at hstep
      dsimp only at hstep
      split at hstep
      · cases hstep
        exact ⟨by simp, rfl, rfl⟩
      · cases hstep
        exact ⟨by simp, rfl, rfl⟩
  | count ringEntry =>
      rw [hthread] at hstep
      cases hstep
      exact ⟨by simp, rfl, rfl⟩
  | freeEntry ringEntry => exact absurd hthread (hendless.freeEntry ringEntry)
  | returned => exact absurd hthread hendless.returned
  | crashed fault =>
      rw [hthread] at hstep
      cases hstep

theorem Endless.writer_step (hendless : s.Endless) {a : XLogAct P} (hstep : s.step a = some t)
    (hthread : a ≠ .thread) (hdestroy : a ≠ .destroy) : t.Endless := by
  obtain ⟨threads, writing, rfl, _⟩ := writer_cases hstep hthread hdestroy
  exact ⟨hendless.returned, hendless.freeEntry, hendless.destroyer, hendless.waits⟩

theorem Endless.step (hendless : s.Endless) {a : XLogAct P} (hstep : s.step a = some t) :
    t.Endless := by
  cases a with
  | write p now level message => exact hendless.writer_step hstep (by simp) (by simp)
  | retry p => exact hendless.writer_step hstep (by simp) (by simp)
  | prod p => exact hendless.writer_step hstep (by simp) (by simp)
  | thread =>
      obtain ⟨⟨hreturned, hfree⟩, hdestroyer, hstatus⟩ := threadStep_endless hendless hstep
      refine ⟨hreturned, hfree, ?_, ?_⟩
      · rw [hdestroyer]
        exact hendless.destroyer
      · rw [hstatus, hdestroyer]
        exact hendless.waits
  | destroy =>
      change s.destroyStep = some t at hstep
      rw [destroyStep] at hstep
      split at hstep
      · cases hstep
        exact ⟨hendless.returned, hendless.freeEntry, by simp, fun _ => rfl⟩
      · rw [if_neg hendless.returned] at hstep
        cases hstep
      · cases hstep

omit [DecidableEq P] in
theorem endless_start (r : XRing) (level : Int) : (XLogServer.start r level : XLogServer P).Endless :=
  ⟨by simp [start], by simp [start], by simp [start], by simp [start]⟩

theorem Endless.run {bs : List (XLogAct P)} (hendless : s.Endless)
    (hrun : Transition.run XLogServer.step s bs = some t) : t.Endless :=
  run_invariant (fun _ _ _ h hstep => h.step hstep) hendless hrun

/-- `x_log_destroy` waits at its join, and nothing that happens lets it on. -/
structure Waiting (s : XLogServer P) : Prop where
  endless : s.Endless
  join : s.destroyer = .join

theorem Waiting.blocked (hwaiting : s.Waiting) : s.step .destroy = none := by
  change s.destroyStep = none
  rw [destroyStep, hwaiting.join]
  exact if_neg hwaiting.endless.returned

theorem Waiting.step (hwaiting : s.Waiting) {a : XLogAct P} (hstep : s.step a = some t) :
    t.Waiting := by
  refine ⟨hwaiting.endless.step hstep, ?_⟩
  by_cases hthread : a = .thread
  · subst hthread
    exact (threadStep_endless hwaiting.endless hstep).2.1.trans hwaiting.join
  · by_cases hdestroy : a = .destroy
    · subst hdestroy
      rw [hwaiting.blocked] at hstep
      cases hstep
    · obtain ⟨threads, writing, rfl, _⟩ := writer_cases hstep hthread hdestroy
      exact hwaiting.join

theorem Waiting.run {bs : List (XLogAct P)} (hwaiting : s.Waiting)
    (hrun : Transition.run XLogServer.step s bs = some t) : t.Waiting :=
  run_invariant (fun _ _ _ h hstep => h.step hstep) hwaiting hrun

/-! ### Stopping -/

/-- The thread on its own writes and counts all that has been put into the ring, and returns. -/
def StopsDrained (s : XLogServer P) : Prop :=
  ∃ n t, Transition.run XLogServer.step s (List.replicate n .thread) = some t ∧
    t.Accounts s.threads.log.accepted ∧ t.thread = .returned

theorem Endless.not_stopsDrained (hendless : s.Endless) : ¬s.StopsDrained := by
  rintro ⟨n, t, hrun, _, hreturned⟩
  exact (hendless.run hrun).returned hreturned

instance decidableFresh (s : XLogServer P) (a : XLogAct P) : Decidable (s.Fresh a) :=
  match a with
  | .write _ _ _ _ => isTrue trivial
  | .retry _ => isTrue trivial
  | .thread => isTrue trivial
  | .destroy => isTrue trivial
  | .prod p =>
      match hpc : s.threads.prod p with
      | .reserve _ prodHead prodNext =>
          decidable_of_iff (s.threads.ring.prodHead = prodHead → prodNext ≠ s.threads.ring.consTail) <| by
            simp [Fresh, XRingThreads.Fresh, hpc]
      | .idle _ => isTrue (by simp [Fresh, XRingThreads.Fresh, hpc])
      | .readHead _ => isTrue (by simp [Fresh, XRingThreads.Fresh, hpc])
      | .readTail _ _ => isTrue (by simp [Fresh, XRingThreads.Fresh, hpc])
      | .fill _ _ _ _ => isTrue (by simp [Fresh, XRingThreads.Fresh, hpc])
      | .crashed _ => isTrue (by simp [Fresh, XRingThreads.Fresh, hpc])

end Others

end XLogServer

/-- **Stopping a logger.** In every state that `x_log_destroy` has been called in, the thread on its own
writes what is in the ring and counts it, unless a stale compare-and-set has spoilt that; but it does
not return, and whatever else happens `x_log_destroy` stays at its join. -/
theorem xLogThread_never_stops [DecidableEq P] {garbage : Nat → Int} {count : UInt32}
    {ringbufSize : Int} {r : XRing} (hmade : xRingCreate garbage count ringbufSize = .ok r)
    {level : Int} {as : List (XLogAct P)} {s : XLogServer P}
    (hrun : run XLogServer.step (.start r level) as = some s)
    (hstopping : s.threadStatus = .stopping) :
    ¬s.StopsDrained ∧
    (∀ bs t, run XLogServer.step s bs = some t →
      t.thread ≠ .returned ∧ t.destroyer = .join ∧ t.step .destroy = none) ∧
    (1 ≤ count.toNat → count.toNat ≤ 2 ^ 31 →
      Along XLogServer.step XLogServer.Fresh (.start r level) as →
      ∃ n t, run XLogServer.step s (List.replicate n .thread) = some t ∧
        t.Accounts s.threads.log.accepted) := by
  have hendless := (XLogServer.endless_start r level).run hrun
  refine ⟨hendless.not_stopsDrained, fun bs t hbs => ?_, fun hpos hle hfresh => ?_⟩
  · have hwaiting : s.Waiting := ⟨hendless, hendless.waits hstopping⟩
    have ht := hwaiting.run hbs
    exact ⟨ht.endless.returned, ht.join, ht.blocked⟩
  · have hinv := run_of_along (fun _ _ _ h hguard hstep => h.step hguard hstep)
      (XLogServer.inv_start hmade hpos hle level) hfresh hrun
    exact hinv.drains

/-- One text is written, and the logger is destroyed before its thread has taken a step. -/
def stopWithBacklog : List (XLogAct Bool) :=
  .write true afternoon 3 (ascii "hi") :: List.replicate 8 (.prod true) ++ [.destroy]

theorem xLogThread_never_stops_backlog : ∃ s : XLogServer Bool,
    s.threads.log.accepted.length = 1 ∧ ¬s.StopsDrained ∧
    (∀ bs t, run XLogServer.step s bs = some t →
      t.thread ≠ .returned ∧ t.destroyer = .join ∧ t.step .destroy = none) ∧
    ∃ n t, run XLogServer.step s (List.replicate n .thread) = some t ∧
      t.Accounts s.threads.log.accepted := by
  have hrun : ∃ s ∈ run XLogServer.step (.start ringOfTwo 5) stopWithBacklog,
      (s : XLogServer Bool).threadStatus = .stopping ∧ s.threads.log.accepted.length = 1 := by
    decide +kernel
  obtain ⟨s, hs, hstopping, hlength⟩ := hrun
  obtain ⟨hnot, hwaits, hdrains⟩ := xLogThread_never_stops xRingCreate_two hs hstopping
  exact ⟨s, hlength, hnot, hwaits, hdrains (by decide) (by decide) (by decide +kernel)⟩

/-- No write is in progress, one entry is in the ring, and the logger does not stop. -/
theorem stopWithBacklog_not_stopsDrained : xRingCreate (fun _ => 0) 2 4 = .ok ringOfTwo ∧
    ∃ s, run XLogServer.step (.start ringOfTwo 5) stopWithBacklog = some s ∧
      s.threadStatus = .stopping ∧ (∀ p, s.writing p = none) ∧
      s.threads.log.accepted.length = 1 ∧ ¬s.StopsDrained := by
  have hrun : ∃ s ∈ run XLogServer.step (.start ringOfTwo 5) stopWithBacklog,
      (s : XLogServer Bool).threadStatus = .stopping ∧ (∀ p, s.writing p = none) ∧
      s.threads.log.accepted.length = 1 := by
    decide +kernel
  obtain ⟨s, hs, hstopping, hquiet, hlength⟩ := hrun
  have hendless := (XLogServer.endless_start ringOfTwo 5).run hs
  exact ⟨xRingCreate_two, s, hs, hstopping, hquiet, hlength, hendless.not_stopsDrained⟩

end Gittest
