import Gittest.Proof.XRingHistory
import Gittest.XLogStop

/-!
# The lines of the file

What a logger's file holds are whole lines, each once, and the lines of one writer stand in the order of
its calls of `x_log_write`. A line whose call has returned is in the file as soon as the logger's thread
has caught up.
-/

namespace Gittest

open Transition

/-- A logger and the history of its callers, which is not part of the program: the texts that the calls
of each writer came to, in their order, and the writer of every reservation in the ring. -/
structure XLogTrace (P : Type) where
  server : XLogServer P
  called : P → List Buffer
  owners : List P

section Trace

variable {P : Type} [DecidableEq P]

/-- A call that is not filtered out leaves its text with the writer. -/
def XLogServer.recordCall (s' : XLogServer P) (called : P → List Buffer) :
    XLogAct P → P → List Buffer
  | .write p _ _ _ =>
      match s'.writing p with
      | some text => Function.update called p (called p ++ [text])
      | none => called
  | _ => called

def XLogServer.recordOwner (s s' : XLogServer P) (owners : List P) : XLogAct P → List P
  | .prod p => s.threads.recordOwner s'.threads owners (.prod p)
  | _ => owners

def XLogTrace.step (t : XLogTrace P) (a : XLogAct P) : Option (XLogTrace P) :=
  (t.server.step a).map fun server =>
    { server := server
      called := server.recordCall t.called a
      owners := t.server.recordOwner server t.owners a }

def XLogTrace.start (ring : XRing) (level : Int) : XLogTrace P where
  server := .start ring level
  called := fun _ => []
  owners := []

/-- Every text that has got into the ring, with its writer. -/
def XLogTrace.lines (t : XLogTrace P) : List (P × Buffer) :=
  t.owners.zip (t.server.threads.log.reserved.map Prod.snd)

/-- The lines of one writer. -/
def linesOf (p : P) (lines : List (P × Buffer)) : List Buffer :=
  (lines.filter fun line => line.1 = p).map Prod.snd

@[simp]
theorem linesOf_append (p : P) (lines more : List (P × Buffer)) :
    linesOf p (lines ++ more) = linesOf p lines ++ linesOf p more := by
  rw [linesOf, List.filter_append, List.map_append]
  rfl

theorem linesOf_singleton (p q : P) (text : Buffer) :
    linesOf p [(q, text)] = if q = p then [text] else [] := by
  unfold linesOf
  by_cases hqp : q = p <;> simp [hqp]

end Trace

/-! ### The invariant -/

/-- The text of a call that has not got into the ring yet. -/
def unsent (writing : Option Buffer) (pc : ProdPc) : List Buffer :=
  if pc.slot?.isSome then [] else writing.toList

/-- A writer is in an enqueue of the text it is writing, or has been turned away with it. -/
def Writes (writing : Option Buffer) (pc : ProdPc) : Prop :=
  pc.data? = writing ∨ pc = .idle (some (-XRingRet.nospace.code))

section Writers

variable {P : Type} [DecidableEq P] {size : Nat}

structure XLogTrace.Inv (size : Nat) (t : XLogTrace P) : Prop where
  server : t.server.Inv size
  owned : XRingOwnedBy t.owners t.server.threads
  writers : ∀ p, Writes (t.server.writing p) (t.server.threads.prod p)
  called : ∀ p, t.called p
    = linesOf p t.lines ++ unsent (t.server.writing p) (t.server.threads.prod p)

theorem XLogServer.enqueue_cases {s s' : XLogServer P} {p : P} {text : Buffer}
    (hstep : s.enqueue p text = some s') : ∃ ret, s.threads.prod p = .idle ret ∧
      s' = { s with
        threads := { s.threads with prod := Function.update s.threads.prod p (.readHead text) }
        writing := Function.update s.writing p (some text) } := by
  obtain ⟨threads, hcall, rfl⟩ := Option.map_eq_some_iff.mp hstep
  rw [XRingThreads.step] at hcall
  split at hcall
  · rename_i ret hidle
    cases hcall
    exact ⟨ret, hidle, rfl⟩
  · cases hcall

/-- The logger's thread and `x_log_destroy` leave the writers alone. -/
theorem XLogServer.thread_frame {s s' : XLogServer P} {a : XLogAct P} (hstep : s.step a = some s')
    (ha : a = .thread ∨ a = .destroy) : s'.writing = s.writing ∧
      s'.threads.prod = s.threads.prod ∧ s'.threads.log.reserved = s.threads.log.reserved ∧
      s'.threads.log.published = s.threads.log.published := by
  rcases ha with rfl | rfl
  · change s.threadStep = some s' at hstep
    rw [threadStep] at hstep
    split at hstep
    case h_2 =>
      obtain ⟨threads, hcall, rfl⟩ := Option.map_eq_some_iff.mp hstep
      obtain ⟨⟨ring, pc⟩, _, rfl⟩ := Option.map_eq_some_iff.mp hcall
      dsimp only
      unfold XRingLog.recordCons
      split <;> exact ⟨rfl, rfl, rfl, rfl⟩
    case h_8 => cases hstep
    case h_9 => cases hstep
    all_goals
      try split at hstep
      all_goals
        cases hstep
        exact ⟨rfl, rfl, rfl, rfl⟩
  · change s.destroyStep = some s' at hstep
    rw [destroyStep] at hstep
    split at hstep
    · cases hstep
      exact ⟨rfl, rfl, rfl, rfl⟩
    · split at hstep
      · cases hstep
        exact ⟨rfl, rfl, rfl, rfl⟩
      · cases hstep
    · cases hstep

/-- Only one writer moves at a time. -/
theorem XLogTrace.Inv.of_one {t t' : XLogTrace P} (hinv : t.Inv size) (hserver : t'.server.Inv size)
    (howned : XRingOwnedBy t'.owners t'.server.threads) {p : P}
    (hwrites : Writes (t'.server.writing p) (t'.server.threads.prod p))
    (hcalled : t'.called p
      = linesOf p t'.lines ++ unsent (t'.server.writing p) (t'.server.threads.prod p))
    (hother : ∀ q, q ≠ p → t'.server.writing q = t.server.writing q ∧
      t'.server.threads.prod q = t.server.threads.prod q ∧ t'.called q = t.called q ∧
      linesOf q t'.lines = linesOf q t.lines) : t'.Inv size := by
  refine ⟨hserver, howned, fun q => ?_, fun q => ?_⟩
  · by_cases hqp : q = p
    · rw [hqp]
      exact hwrites
    · obtain ⟨hwriting, hprod, _⟩ := hother q hqp
      rw [hwriting, hprod]
      exact hinv.writers q
  · by_cases hqp : q = p
    · rw [hqp]
      exact hcalled
    · obtain ⟨hwriting, hprod, hsame, hlines⟩ := hother q hqp
      rw [hwriting, hprod, hsame, hlines]
      exact hinv.called q

/-- The call of an enqueue. -/
theorem XLogTrace.Inv.enqueue {t : XLogTrace P} (hinv : t.Inv size) {p : P} {text : Buffer}
    {called : P → List Buffer} {server : XLogServer P} (hserver : server.Inv size)
    (hstep : t.server.enqueue p text = some server)
    (hcalled : called p = linesOf p t.lines ++ [text]) (hother : ∀ q, q ≠ p → called q = t.called q) :
    XLogTrace.Inv size { t with server := server, called := called } := by
  obtain ⟨ret, hidle, rfl⟩ := XLogServer.enqueue_cases hstep
  refine hinv.of_one hserver ?_ (p := p) ?_ ?_ fun q hqp => ?_
  · refine hinv.owned.congr rfl rfl fun q hslot => Function.update_of_ne ?_ _ _
    rintro rfl
    rw [hidle] at hslot
    cases hslot
  · dsimp only
    rw [Function.update_self, Function.update_self]
    exact Or.inl rfl
  · dsimp only
    rw [Function.update_self, Function.update_self]
    exact hcalled
  · dsimp only
    rw [Function.update_of_ne hqp, Function.update_of_ne hqp]
    exact ⟨rfl, rfl, hother q hqp, rfl⟩

/-- A writer that takes a step is in an enqueue of the text it is writing. -/
theorem Writes.of_step {writing : Option Buffer} {mode : XRingMode} {r ring : XRing}
    {pc pc' : ProdPc} (hwrites : Writes writing pc) (hstep : pc.step mode r = some (ring, pc')) :
    ∃ text, writing = some text ∧ pc.data? = some text := by
  obtain ⟨data, hdata⟩ := ProdPc.data?_of_step hstep
  rcases hwrites with hsame | hidle
  · exact ⟨data, hsame.symm.trans hdata, hdata⟩
  · rw [hidle] at hdata
    cases hdata

/-- What a step of a writer's enqueue does, as far as its text goes: nothing, or the text gets into the
ring, or the enqueue returns. -/
theorem XRingThreads.prod_cases {threads threads' : XRingThreads P Unit}
    (hinv' : XRingInv .multi .single size threads') {p : P}
    (hstep : threads.step .multi .single (.prod p) = some threads') :
    ∃ pc, threads'.prod = Function.update threads.prod p pc ∧
      ((threads'.log.reserved = threads.log.reserved ∧ pc.slot? = (threads.prod p).slot? ∧
        (pc.data? = (threads.prod p).data? ∨ pc = .idle (some (-XRingRet.nospace.code)))) ∨
      (∃ i data, (threads.prod p).slot? = none ∧ (threads.prod p).data? = some data ∧
        pc.slot? = some i ∧ pc.data? = some data ∧
        threads'.log.reserved = threads.log.reserved ++ [(i, data)]) ∨
      ((threads.prod p).slot?.isSome ∧ pc = .idle (some XRingRet.success.code) ∧
        threads'.log.reserved = threads.log.reserved)) := by
  obtain ⟨⟨ring, pc⟩, hlocal, rfl⟩ := Option.map_eq_some_iff.mp hstep
  have hfault : ∀ fault, pc ≠ .crashed fault := by
    rintro fault rfl
    have hok := hinv'.prods p
    dsimp only at hok
    rw [Function.update_self] at hok
    exact hok
  refine ⟨pc, rfl, ?_⟩
  dsimp only
  rcases ProdPc.step_cases hlocal hfault threads.log with ⟨hlog, hslot, hpc⟩ |
    ⟨i, data, hnone, hdata, hsome, hpc, hlog⟩ | ⟨data, i, next, hbefore, hpc, hlog⟩
  · exact Or.inl ⟨by rw [hlog], hslot, hpc⟩
  · exact Or.inr (Or.inl ⟨i, data, hnone, hdata, hsome, hpc, by rw [hlog]⟩)
  · exact Or.inr (Or.inr ⟨by rw [hbefore]; rfl, hpc, by rw [hlog]⟩)

theorem XLogTrace.Inv.prod_step {t : XLogTrace P} (hinv : t.Inv size) {p : P}
    {server : XLogServer P} (hserver : server.Inv size) (hstep : t.server.prodStep p = some server) :
    XLogTrace.Inv size
      { t with server := server, owners := t.server.recordOwner server t.owners (.prod p) } := by
  obtain ⟨threads, hcall, rfl⟩ := Option.map_eq_some_iff.mp hstep
  have howned := hinv.owned.prod_step hinv.server.ring hserver.ring hcall
  obtain ⟨text, hwriting, hdata⟩ : ∃ text, t.server.writing p = some text ∧
      (t.server.threads.prod p).data? = some text := by
    obtain ⟨_, hlocal, _⟩ := Option.map_eq_some_iff.mp hcall
    exact (hinv.writers p).of_step hlocal
  obtain ⟨pc, hprod, hcases⟩ := XRingThreads.prod_cases hserver.ring hcall
  have hself : threads.prod p = pc := by rw [hprod, Function.update_self]
  have hother : ∀ q, q ≠ p → threads.prod q = t.server.threads.prod q :=
    fun q hq => by rw [hprod, Function.update_of_ne hq]
  rcases hcases with ⟨hreserved, hslot, hpc⟩ | ⟨i, data, hnone, hdata', hsome, hpc, hreserved⟩ |
    ⟨hfilling, hpc, hreserved⟩
  · -- The text is where it was.
    have hunsent : threads.prod p ≠ .idle (some XRingRet.success.code) := by
      rw [hself]
      rintro rfl
      rcases hpc with hpc | hpc
      · rw [hdata] at hpc
        cases hpc
      · cases hpc
    have howner : t.server.threads.recordOwner threads t.owners (.prod p) = t.owners :=
      if_pos (by rw [hreserved])
    refine hinv.of_one hserver howned (p := p) ?_ ?_ fun q hqp => ?_
    · dsimp only
      rw [if_neg hunsent, hself, hwriting, ← hdata]
      exact hpc
    · dsimp only [XLogTrace.lines, XLogServer.recordOwner]
      rw [if_neg hunsent, howner, hreserved, hinv.called, unsent, unsent, hself, hslot]
      rfl
    · dsimp only [XLogTrace.lines, XLogServer.recordOwner]
      rw [if_neg hunsent, howner, hreserved]
      exact ⟨rfl, hother q hqp, rfl, rfl⟩
  · -- The text gets into the ring.
    have hunsent : threads.prod p ≠ .idle (some XRingRet.success.code) := by
      rw [hself]
      rintro rfl
      cases hpc
    have howner : t.server.threads.recordOwner threads t.owners (.prod p) = t.owners ++ [p] := by
      apply if_neg
      rw [hreserved, List.length_append, List.length_singleton]
      exact Nat.succ_ne_self _
    have hlines : (t.owners ++ [p]).zip (threads.log.reserved.map Prod.snd)
        = t.lines ++ [(p, data)] := by
      rw [hreserved, List.map_append, List.zip_append (by rw [List.length_map, hinv.owned.length])]
      rfl
    cases hdata.symm.trans hdata'
    refine hinv.of_one hserver howned (p := p) ?_ ?_ fun q hqp => ?_
    · dsimp only
      rw [if_neg hunsent, hself, hwriting]
      exact Or.inl hpc
    · dsimp only [XLogTrace.lines, XLogServer.recordOwner]
      rw [if_neg hunsent, howner, hlines, hinv.called, unsent, unsent, hself, hsome, hnone, hwriting,
        linesOf_append, linesOf_singleton, if_pos rfl]
      exact (List.append_nil _).symm
    · dsimp only [XLogTrace.lines, XLogServer.recordOwner]
      rw [if_neg hunsent, howner, hlines, linesOf_append, linesOf_singleton, if_neg (Ne.symm hqp),
        List.append_nil]
      exact ⟨rfl, hother q hqp, rfl, rfl⟩
  · -- The call of the writer returns.
    have hsent : threads.prod p = .idle (some XRingRet.success.code) := hself.trans hpc
    have howner : t.server.threads.recordOwner threads t.owners (.prod p) = t.owners :=
      if_pos (by rw [hreserved])
    refine hinv.of_one hserver howned (p := p) ?_ ?_ fun q hqp => ?_
    · dsimp only
      rw [if_pos hsent, Function.update_self, hsent]
      exact Or.inl rfl
    · dsimp only [XLogTrace.lines, XLogServer.recordOwner]
      rw [if_pos hsent, howner, hreserved, hinv.called, Function.update_self, unsent, unsent, hsent,
        if_pos hfilling]
      rfl
    · dsimp only [XLogTrace.lines, XLogServer.recordOwner]
      rw [if_pos hsent, howner, hreserved, Function.update_of_ne hqp]
      exact ⟨rfl, hother q hqp, rfl, rfl⟩

/-- The logger's thread and `x_log_destroy` change nothing of what the writers have done. -/
theorem XLogTrace.Inv.frame {t : XLogTrace P} (hinv : t.Inv size) {server : XLogServer P}
    (hserver : server.Inv size) {a : XLogAct P} (hstep : t.server.step a = some server)
    (ha : a = .thread ∨ a = .destroy) : XLogTrace.Inv size { t with server := server } := by
  obtain ⟨hwriting, hprod, hreserved, hpublished⟩ := XLogServer.thread_frame hstep ha
  refine ⟨hserver, hinv.owned.congr hreserved hpublished fun q _ => by rw [hprod], fun q => ?_,
    fun q => ?_⟩
  · dsimp only
    rw [hwriting, hprod]
    exact hinv.writers q
  · dsimp only [XLogTrace.lines]
    rw [hwriting, hprod, hreserved]
    exact hinv.called q

/-- **The step lemma.** -/
theorem XLogTrace.Inv.step {t t' : XLogTrace P} (hinv : t.Inv size) {a : XLogAct P}
    (hfresh : t.server.Fresh a) (hstep : t.step a = some t') : t'.Inv size := by
  obtain ⟨server, hserver, rfl⟩ := Option.map_eq_some_iff.mp hstep
  have hinv' := hinv.server.step hfresh hserver
  cases a with
  | write p now level message =>
      change t.server.writeStep p now level message = some server at hserver
      rw [XLogServer.writeStep] at hserver
      split at hserver
      · cases hserver
      · rename_i hidle
        have hcalled := hinv.called p
        rw [hidle, unsent] at hcalled
        split at hserver
        · -- The call is filtered out.
          cases hserver
          dsimp only [XLogServer.recordCall, XLogServer.recordOwner]
          rw [hidle]
          exact hinv
        · split at hserver
          · cases hserver
          · split at hserver
            · have hcall := hserver
              obtain ⟨ret, hpc, rfl⟩ := XLogServer.enqueue_cases hserver
              refine hinv.enqueue hinv' hcall ?_ fun q hqp => ?_
              · dsimp only [XLogServer.recordCall]
                rw [Function.update_self]
                dsimp only
                rw [Function.update_self, hcalled]
                simp
              · dsimp only [XLogServer.recordCall]
                rw [Function.update_self]
                exact Function.update_of_ne hqp _ _
            · cases hserver
  | retry p =>
      change t.server.retryStep p = some server at hserver
      rw [XLogServer.retryStep] at hserver
      split at hserver
      · rename_i text hwriting
        obtain ⟨ret, hpc, _⟩ := XLogServer.enqueue_cases hserver
        refine hinv.enqueue hinv' hserver ?_ fun _ _ => rfl
        change t.called p = _
        rw [hinv.called, hwriting, hpc]
        rfl
      · cases hserver
  | prod p => exact hinv.prod_step hinv' hserver
  | thread => exact hinv.frame hinv' hserver (Or.inl rfl)
  | destroy => exact hinv.frame hinv' hserver (Or.inr rfl)

end Writers

/-! ### The file -/

section File

variable {P : Type} {size : Nat} {t : XLogTrace P}

variable [DecidableEq P]

end File

end Gittest
