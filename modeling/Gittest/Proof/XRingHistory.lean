import Gittest.Proof.XRingStep

/-!
# What a step adds to the history

The history grows in four ways: by a reservation, a publication, a claim or a release. The thread whose
reservation or claim it is stays in the middle of its call until it has published or released it.
-/

namespace Gittest

variable {P C : Type} {prodMode consMode : XRingMode} {size : Nat} {s s' : XRingThreads P C}
  {r : XRing}

/-- The data of the enqueue that a producer is in. -/
def ProdPc.data? : ProdPc → Option Buffer
  | .readHead data => some data
  | .readTail data _ => some data
  | .reserve data _ _ => some data
  | .fill _ data _ _ => some data
  | .idle _ => none
  | .crashed _ => none

theorem ProdPc.data?_of_step {ring : XRing} {pc pc' : ProdPc}
    (hstep : pc.step prodMode r = some (ring, pc')) : ∃ data, pc.data? = some data := by
  cases pc with
  | idle ret => cases hstep
  | crashed fault => cases hstep
  | readHead data => exact ⟨data, rfl⟩
  | readTail data => exact ⟨data, rfl⟩
  | reserve data => exact ⟨data, rfl⟩
  | fill step data => exact ⟨data, rfl⟩

/-- What a step of a producer does to the history: nothing, a reservation or a publication. -/
theorem ProdPc.step_cases {ring : XRing} {pc pc' : ProdPc}
    (hstep : pc.step prodMode r = some (ring, pc')) (hfault : ∀ fault, pc' ≠ .crashed fault)
    (log : XRingLog C) :
    (log.recordProd pc pc' = log ∧ pc'.slot? = pc.slot? ∧
      (pc'.data? = pc.data? ∨ pc' = .idle (some (-XRingRet.nospace.code)))) ∨
    (∃ i data, pc.slot? = none ∧ pc.data? = some data ∧ pc'.slot? = some i ∧ pc'.data? = some data ∧
      log.recordProd pc pc' = { log with reserved := log.reserved ++ [(i, data)] }) ∨
    ∃ data i next, pc = .fill .publish data i next ∧ pc' = .idle (some XRingRet.success.code) ∧
      log.recordProd pc pc' = { log with published := log.published + 1 } := by
  have hwritten : ∀ {step data i next step' written},
      pc = .fill step data i next → step ≠ .publish →
      (ring, pc') = write r (.fill step' data i next) written →
      log.recordProd pc pc' = log ∧ pc'.slot? = pc.slot? ∧
        (pc'.data? = pc.data? ∨ pc' = .idle (some (-XRingRet.nospace.code))) := by
    rintro step data i next step' written rfl hne hwrite
    cases written with
    | error fault => exact absurd (congrArg Prod.snd hwrite) (hfault fault)
    | ok ring' =>
        cases hwrite
        cases step with
        | publish => exact absurd rfl hne
        | grow => exact ⟨rfl, rfl, Or.inl rfl⟩
        | copy => exact ⟨rfl, rfl, Or.inl rfl⟩
        | setLength => exact ⟨rfl, rfl, Or.inl rfl⟩
        | awaitTail => exact ⟨rfl, rfl, Or.inl rfl⟩
  cases pc with
  | idle ret => cases hstep
  | crashed fault => cases hstep
  | readHead data =>
      cases hstep
      exact Or.inl ⟨rfl, rfl, Or.inl rfl⟩
  | readTail data prodHead =>
      rw [step] at hstep
      split at hstep
      · cases hstep
        exact Or.inl ⟨rfl, rfl, Or.inr rfl⟩
      · cases hstep
        exact Or.inl ⟨rfl, rfl, Or.inl rfl⟩
  | reserve data prodHead prodNext =>
      cases prodMode with
      | single =>
          cases hstep
          exact Or.inr (Or.inl ⟨prodHead, data, rfl, rfl, rfl, rfl, rfl⟩)
      | multi =>
          rw [step] at hstep
          split at hstep
          · cases hstep
            exact Or.inr (Or.inl ⟨prodHead, data, rfl, rfl, rfl, rfl, rfl⟩)
          · cases hstep
            exact Or.inl ⟨rfl, rfl, Or.inl rfl⟩
  | fill fillStep data prodHead prodNext =>
      cases fillStep with
      | grow => exact Or.inl (hwritten rfl (by simp) (Option.some.inj hstep).symm)
      | copy => exact Or.inl (hwritten rfl (by simp) (Option.some.inj hstep).symm)
      | setLength => exact Or.inl (hwritten rfl (by simp) (Option.some.inj hstep).symm)
      | awaitTail =>
          rw [step] at hstep
          split at hstep
          · cases hstep
            exact Or.inl ⟨rfl, rfl, Or.inl rfl⟩
          · cases hstep
            exact Or.inl ⟨rfl, rfl, Or.inl rfl⟩
      | publish =>
          cases hstep
          exact Or.inr (Or.inr ⟨data, prodHead, prodNext, rfl, rfl, rfl⟩)

theorem ConsPc.draining_drain (step : DrainStep) (out : XRingEntry) (i next : UInt32) :
    (ConsPc.drain step out i next).Draining := ⟨step, out, i, next, rfl⟩

theorem ConsPc.out?_of_step {ring : XRing} {pc pc' : ConsPc}
    (hstep : pc.step consMode r = some (ring, pc')) : ∃ out, pc.out? = some out := by
  cases pc with
  | idle ret => cases hstep
  | crashed fault => cases hstep
  | readHead out => exact ⟨out, rfl⟩
  | readTail out => exact ⟨out, rfl⟩
  | reserve out => exact ⟨out, rfl⟩
  | drain step out => exact ⟨out, rfl⟩

/-- The same for a consumer. -/
theorem ConsPc.step_cases [DecidableEq C] {ring : XRing} {pc pc' : ConsPc}
    (hstep : pc.step consMode r = some (ring, pc')) (hfault : ∀ fault, pc' ≠ .crashed fault)
    (log : XRingLog C) (c : C) :
    (log.recordCons c pc pc' = log ∧ (pc'.Draining ↔ pc.Draining) ∧
      (pc'.out?.isSome ∨ pc' = .idle (some (-XRingRet.noent.code)))) ∨
    (¬pc.Draining ∧ pc'.Draining ∧ log.recordCons c pc pc' = { log with
      claimed := log.claimed + 1, ticket := Function.update log.ticket c log.claimed }) ∨
    ∃ out i next, pc = .drain .release out i next ∧ pc' = .idle (some XRingRet.success.code) ∧
      log.recordCons c pc pc' = { log with
        released := log.released + 1
        returned := log.returned ++ [(log.ticket c, out.payload)] } := by
  have hread : ∀ {step out i next step' readout},
      pc = .drain step out i next → step ≠ .release →
      (ring, pc') = (r, read (.drain step' · i next) readout) →
      log.recordCons c pc pc' = log ∧ (pc'.Draining ↔ pc.Draining) ∧
        (pc'.out?.isSome ∨ pc' = .idle (some (-XRingRet.noent.code))) := by
    rintro step out i next step' readout rfl hne hread
    cases readout with
    | error fault => exact absurd (congrArg Prod.snd hread) (hfault fault)
    | ok out' =>
        cases hread
        have hboth := iff_of_true (draining_drain step' out' i next) (draining_drain step out i next)
        cases step with
        | release => exact absurd rfl hne
        | grow => exact ⟨rfl, hboth, Or.inl rfl⟩
        | copy => exact ⟨rfl, hboth, Or.inl rfl⟩
        | setLength => exact ⟨rfl, hboth, Or.inl rfl⟩
        | awaitTail => exact ⟨rfl, hboth, Or.inl rfl⟩
  cases pc with
  | idle ret => cases hstep
  | crashed fault => cases hstep
  | readHead out =>
      cases hstep
      exact Or.inl ⟨rfl, by simp [Draining], Or.inl rfl⟩
  | readTail out consHead =>
      rw [step] at hstep
      split at hstep
      · cases hstep
        exact Or.inl ⟨rfl, by simp [Draining], Or.inr rfl⟩
      · cases hstep
        exact Or.inl ⟨rfl, by simp [Draining], Or.inl rfl⟩
  | reserve out consHead consNext =>
      have hbefore : ¬(ConsPc.reserve out consHead consNext).Draining := by simp [Draining]
      cases consMode with
      | single =>
          cases hstep
          exact Or.inr (Or.inl ⟨hbefore, draining_drain _ _ _ _, rfl⟩)
      | multi =>
          rw [step] at hstep
          split at hstep
          · cases hstep
            exact Or.inr (Or.inl ⟨hbefore, draining_drain _ _ _ _, rfl⟩)
          · cases hstep
            exact Or.inl ⟨rfl, by simp [Draining], Or.inl rfl⟩
  | drain drainStep out consHead consNext =>
      cases drainStep with
      | grow => exact Or.inl (hread rfl (by simp) (Option.some.inj hstep).symm)
      | copy => exact Or.inl (hread rfl (by simp) (Option.some.inj hstep).symm)
      | setLength => exact Or.inl (hread rfl (by simp) (Option.some.inj hstep).symm)
      | awaitTail =>
          rw [step] at hstep
          split at hstep
          · cases hstep
            exact Or.inl ⟨rfl, Iff.rfl, Or.inl rfl⟩
          · cases hstep
            exact Or.inl ⟨rfl, iff_of_true (draining_drain _ _ _ _) (draining_drain _ _ _ _), Or.inl rfl⟩
      | release =>
          cases hstep
          exact Or.inr (Or.inr ⟨out, consHead, consNext, rfl, rfl, rfl⟩)

/-! ### Who finishes what -/

/-- The producers of the reservations, in the order of the reservations: those not published are still
filling their slots. -/
structure XRingOwnedBy (owners : List P) (s : XRingThreads P C) : Prop where
  length : owners.length = s.log.reserved.length
  fills : ∀ k p i data, s.log.published ≤ k → owners[k]? = some p →
    s.log.reserved[k]? = some (i, data) → (s.prod p).slot? = some i

/-- A reservation belongs to the producer whose step makes it. -/
def XRingThreads.recordOwner (s s' : XRingThreads P C) (owners : List P) : XRingAct P C → List P
  | .prod p => if s'.log.reserved.length = s.log.reserved.length then owners else owners ++ [p]
  | _ => owners

/-- Every claim not released has a consumer that is still draining its slot. -/
def XRingTaken (s : XRingThreads P C) : Prop :=
  ∀ k, s.log.released ≤ k → k < s.log.claimed → ∃ c, (s.cons c).Draining ∧ s.log.ticket c = k

theorem XRingOwnedBy.congr {owners : List P} (howned : XRingOwnedBy owners s)
    (hreserved : s'.log.reserved = s.log.reserved) (hpublished : s'.log.published = s.log.published)
    (hprod : ∀ p, (s.prod p).slot?.isSome → s'.prod p = s.prod p) : XRingOwnedBy owners s' where
  length := by rw [howned.length, hreserved]
  fills := by
    intro k p i data hle howner hget
    rw [hpublished] at hle
    rw [hreserved] at hget
    have hslot := howned.fills k p i data hle howner hget
    rw [hprod p (by rw [hslot]; rfl), hslot]

section Owned

variable [DecidableEq P] [DecidableEq C] {owners : List P}

omit [DecidableEq C] in
/-- A reservation not published keeps the producer it had while that one is filling its slot. -/
theorem XRingOwnedBy.fills_update (howned : XRingOwnedBy owners s) {p : P} {pc : ProdPc}
    {k : Nat} {q : P} {i : UInt32} {data : Buffer} (hle : s.log.published ≤ k)
    (howner : owners[k]? = some q) (hget : s.log.reserved[k]? = some (i, data))
    (hown : (s.prod p).slot? = some i → pc.slot? = some i) :
    (Function.update s.prod p pc q).slot? = some i := by
  have hq := howned.fills k q i data hle howner hget
  by_cases hqp : q = p
  · subst hqp
    rw [Function.update_self]
    exact hown hq
  · rwa [Function.update_of_ne hqp]

theorem XRingOwnedBy.prod_step (howned : XRingOwnedBy owners s)
    (hinv : XRingInv prodMode consMode size s) (hinv' : XRingInv prodMode consMode size s') {p : P}
    (hstep : s.step prodMode consMode (.prod p) = some s') :
    XRingOwnedBy (s.recordOwner s' owners (.prod p)) s' := by
  obtain ⟨⟨ring, pc⟩, hlocal, rfl⟩ := Option.map_eq_some_iff.mp hstep
  have hfault : ∀ fault, pc ≠ .crashed fault := by
    rintro fault rfl
    have hok := hinv'.prods p
    dsimp only at hok
    rw [Function.update_self] at hok
    exact hok
  dsimp only
  rcases ProdPc.step_cases hlocal hfault s.log with ⟨hlog, hslot, _⟩ |
    ⟨i, data, hnone, _, hsome, _, hlog⟩ | ⟨data, i, next, hpc, rfl, hlog⟩
  · rw [hlog]
    have hrecord : XRingThreads.recordOwner s
        { s with ring := ring, prod := Function.update s.prod p pc } owners (.prod p) = owners :=
      if_pos rfl
    rw [hrecord]
    constructor
    case length => exact howned.length
    case fills =>
      intro k q j entry hle howner hget
      exact howned.fills_update hle howner hget fun hown => hslot.trans hown
  · rw [hlog]
    have hrecord : XRingThreads.recordOwner s
        { s with
          ring := ring
          prod := Function.update s.prod p pc
          log := { s.log with reserved := s.log.reserved ++ [(i, data)] } } owners (.prod p)
        = owners ++ [p] := by
      apply if_neg
      rw [List.length_append, List.length_singleton]
      exact Nat.succ_ne_self _
    rw [hrecord]
    constructor
    case length => rw [List.length_append, List.length_append, howned.length]; rfl
    case fills =>
      intro k q j entry hle howner hget
      dsimp only at hle hget ⊢
      rw [List.getElem?_append] at howner hget
      rw [← howned.length] at hget
      split at hget
      · rename_i hold
        rw [if_pos hold] at howner
        refine howned.fills_update hle howner hget fun hown => ?_
        rw [hnone] at hown
        cases hown
      · rename_i hnew
        rw [if_neg hnew, List.getElem?_singleton] at howner
        rw [List.getElem?_singleton] at hget
        split at howner
        · rename_i hlast
          rw [if_pos hlast] at hget
          cases howner
          cases hget
          rw [Function.update_self]
          exact hsome
        · cases howner
  · rw [hlog]
    have hrecord : XRingThreads.recordOwner s
        { s with
          ring := ring
          prod := Function.update s.prod p (.idle (some XRingRet.success.code))
          log := { s.log with published := s.log.published + 1 } } owners (.prod p) = owners :=
      if_pos rfl
    rw [hrecord]
    constructor
    case length => exact howned.length
    case fills =>
      intro k q j entry hle howner hget
      dsimp only at hle hget ⊢
      refine howned.fills_update (Nat.le_of_succ_le hle) howner hget fun hown => ?_
      -- The slot published is that of the oldest reservation and of no other.
      obtain ⟨_, _, k', _, _, hslot, _, _, hpublished⟩ := hinv.exists_fill hpc
      rw [hpc] at hown
      cases hown
      have hbound := (List.getElem?_eq_some_iff.mp hget).1
      have hat := hinv.at_log
      have hreleased := hat.released_le
      have hclaimed := hat.claimed_le
      have hreserved := hat.reserved_lt
      have hmod : k % size = k' % size := by
        rw [← hinv.slots k _ _ hget]
        exact hslot
      exact absurd hmod.symm (Nat.mod_ne_mod_of_lap (by omega) (by omega))

theorem XRingOwnedBy.step (howned : XRingOwnedBy owners s) (hinv : XRingInv prodMode consMode size s)
    (hinv' : XRingInv prodMode consMode size s') {a : XRingAct P C}
    (hstep : s.step prodMode consMode a = some s') : XRingOwnedBy (s.recordOwner s' owners a) s' := by
  cases a with
  | prod p => exact howned.prod_step hinv hinv' hstep
  | cons c =>
      obtain ⟨⟨ring, pc⟩, _, rfl⟩ := Option.map_eq_some_iff.mp hstep
      dsimp only [XRingThreads.recordOwner]
      refine howned.congr ?_ ?_ fun _ _ => rfl
      · dsimp only
        unfold XRingLog.recordCons
        split <;> rfl
      · dsimp only
        unfold XRingLog.recordCons
        split <;> rfl
  | enqueue p data =>
      rw [XRingThreads.step] at hstep
      split at hstep
      · rename_i ret hidle
        cases hstep
        refine howned.congr rfl rfl fun q hslot => Function.update_of_ne ?_ _ _
        rintro rfl
        rw [hidle] at hslot
        cases hslot
      · cases hstep
  | dequeue c out =>
      rw [XRingThreads.step] at hstep
      split at hstep
      · split at hstep
        · cases hstep
          exact howned.congr rfl rfl fun _ _ => rfl
        · cases hstep
      · cases hstep

theorem XRingTaken.cons_step (htaken : XRingTaken s) (hinv : XRingInv prodMode consMode size s)
    (hinv' : XRingInv prodMode consMode size s') {c : C}
    (hstep : s.step prodMode consMode (.cons c) = some s') : XRingTaken s' := by
  obtain ⟨⟨ring, pc⟩, hlocal, rfl⟩ := Option.map_eq_some_iff.mp hstep
  have hfault : ∀ fault, pc ≠ .crashed fault := by
    rintro fault rfl
    have hok := hinv'.conss c
    dsimp only at hok
    rw [Function.update_self] at hok
    exact hok
  dsimp only
  rcases ConsPc.step_cases hlocal hfault s.log c with ⟨hlog, hdraining, -⟩ |
    ⟨hbefore, hafter, hlog⟩ | ⟨out, i, next, hpc, -, hlog⟩
  · rw [hlog]
    intro k hle hlt
    obtain ⟨d, hdrain, hticket⟩ := htaken k hle hlt
    refine ⟨d, ?_, hticket⟩
    dsimp only
    by_cases hdc : d = c
    · subst hdc
      rw [Function.update_self]
      exact hdraining.mpr hdrain
    · rwa [Function.update_of_ne hdc]
  · rw [hlog]
    intro k hle hlt
    dsimp only at hle hlt ⊢
    rcases Nat.lt_succ_iff_lt_or_eq.mp hlt with hold | rfl
    · obtain ⟨d, hdrain, hticket⟩ := htaken k hle hold
      have hdc : d ≠ c := by
        rintro rfl
        exact hbefore hdrain
      exact ⟨d, by rwa [Function.update_of_ne hdc], by rwa [Function.update_of_ne hdc]⟩
    · exact ⟨c, by rwa [Function.update_self], Function.update_self _ _ _⟩
  · rw [hlog]
    intro k hle hlt
    dsimp only at hle hlt ⊢
    obtain ⟨d, hdrain, hticket⟩ := htaken k (Nat.le_of_succ_le hle) hlt
    have hdc : d ≠ c := by
      rintro rfl
      have hok := hinv.conss d
      rw [hpc] at hok
      obtain ⟨_, _, _, _, _, _, _, _, _, _, hreleased⟩ := hok
      omega
    exact ⟨d, by rwa [Function.update_of_ne hdc], hticket⟩

theorem XRingTaken.step (htaken : XRingTaken s) (hinv : XRingInv prodMode consMode size s)
    (hinv' : XRingInv prodMode consMode size s') {a : XRingAct P C}
    (hstep : s.step prodMode consMode a = some s') : XRingTaken s' := by
  cases a with
  | cons c => exact htaken.cons_step hinv hinv' hstep
  | prod p =>
      obtain ⟨⟨ring, pc⟩, _, rfl⟩ := Option.map_eq_some_iff.mp hstep
      intro k
      dsimp only
      unfold XRingLog.recordProd
      split <;> exact htaken k
  | enqueue p data =>
      rw [XRingThreads.step] at hstep
      split at hstep
      · cases hstep
        exact htaken
      · cases hstep
  | dequeue c out =>
      rw [XRingThreads.step] at hstep
      split at hstep
      · rename_i ret hidle
        split at hstep
        · cases hstep
          intro k hle hlt
          obtain ⟨d, hdrain, hticket⟩ := htaken k hle hlt
          have hdc : d ≠ c := by
            rintro rfl
            rw [hidle] at hdrain
            obtain ⟨_, _, _, _, hdrain⟩ := hdrain
            cases hdrain
          refine ⟨d, ?_, hticket⟩
          dsimp only
          rwa [Function.update_of_ne hdc]
        · cases hstep
      · cases hstep

end Owned

end Gittest
