import Gittest.Proof.XRingInvariant

/-!
# Every step keeps the invariant

One case for each place a thread can stand at. A step that is stale breaks what the invariant is for:
it leaves one reservation too many outstanding, or one claim more than there are publications.
-/

namespace Gittest.XRingInv

variable {P C : Type} {prodMode consMode : XRingMode} {size : Nat}
  {s s' : XRingThreads P C}

theorem exists_slot (hinv : XRingInv prodMode consMode size s) {p : P} {step : FillStep}
    {data : Buffer} {prodHead prodNext : UInt32}
    (hpc : s.prod p = .fill step data prodHead prodNext) :
    ∃ e, s.ring.ring[prodHead.toNat]? = some e ∧ e.Sized ∧ prodHead.toNat < s.ring.ring.length := by
  obtain ⟨_, _, k, _, _, hslot, _⟩ := hinv.exists_fill hpc
  have hlt : prodHead.toNat < s.ring.ring.length := hslot ▸ hinv.at_log.slot_lt k
  exact ⟨s.ring.ring[prodHead.toNat], List.getElem?_eq_getElem hlt,
    hinv.sized _ (List.getElem_mem hlt), hlt⟩

theorem room_of_ne (hinv : XRingInv prodMode consMode size s) {prodHead : UInt32}
    (hhead : s.ring.prodHead = prodHead)
    (hspace : (prodHead + 1) &&& s.ring.mask ≠ s.ring.consTail) :
    s.log.reserved.length + 1 < s.log.released + size := by
  have hnot := mt hinv.at_log.full_iff.mpr (by rwa [hhead])
  have hlt := hinv.at_log.reserved_lt
  omega

theorem some_of_ne (hinv : XRingInv prodMode consMode size s) {consHead : UInt32}
    (hhead : s.ring.consHead = consHead) (hentry : consHead ≠ s.ring.prodTail) :
    s.log.claimed < s.log.published := by
  have hnot := mt hinv.at_log.empty_iff.mpr (by rwa [hhead])
  exact lt_of_le_of_ne hinv.at_log.claimed_le hnot

variable [DecidableEq P] [DecidableEq C]

theorem prod_step (hinv : XRingInv prodMode consMode size s)
    (hsub : prodMode = .single → Subsingleton P) {p : P}
    (hfresh : s.Fresh prodMode consMode (.prod p))
    (hstep : s.step prodMode consMode (.prod p) = some s') :
    XRingInv prodMode consMode size s' := by
  obtain ⟨⟨ring, pc⟩, hlocal, hs'⟩ := Option.map_eq_some_iff.mp hstep
  have hok := hinv.prods p
  cases hpc : s.prod p with
  | idle => rw [hpc] at hlocal; cases hlocal
  | crashed => rw [hpc] at hlocal; cases hlocal
  | readHead data =>
      rw [hpc] at hlocal hs' hok
      cases hlocal
      cases hs'
      exact hinv.prod_local (fun hmode => ⟨hok hmode, rfl⟩) (Or.inl rfl)
  | readTail data prodHead =>
      rw [hpc] at hlocal hs' hok
      rw [ProdPc.step] at hlocal
      by_cases hfull : (prodHead + 1) &&& s.ring.mask = s.ring.consTail
      · rw [if_pos hfull] at hlocal
        cases hlocal
        cases hs'
        exact hinv.prod_local (fun hmode => (hok hmode).1) (Or.inl rfl)
      · rw [if_neg hfull] at hlocal
        cases hlocal
        cases hs'
        refine hinv.prod_local ⟨rfl, fun hmode => ?_⟩ (Or.inl rfl)
        obtain ⟨hpublished, hhead⟩ := hok hmode
        exact ⟨hpublished, hhead, hinv.room_of_ne hhead.symm hfull⟩
  | reserve data prodHead prodNext =>
      rw [hpc] at hlocal hs' hok
      obtain ⟨hnext, hsingle⟩ := hok
      cases prodMode with
      | single =>
          obtain ⟨hpublished, hhead, hroom⟩ := hsingle rfl
          cases hlocal
          cases hs'
          exact hinv.reserve hsub hhead.symm hnext hroom fun _ => hpublished
      | multi =>
          rw [ProdPc.step] at hlocal
          by_cases hhead : s.ring.prodHead = prodHead
          · have hspace := hfresh rfl data prodHead prodNext hpc hhead
            rw [atomic32Cmpset, if_pos hhead] at hlocal
            cases hlocal
            cases hs'
            exact hinv.reserve hsub hhead hnext (hinv.room_of_ne hhead (hnext ▸ hspace))
              fun hmode => nomatch hmode
          · rw [atomic32Cmpset, if_neg hhead] at hlocal
            cases hlocal
            cases hs'
            exact hinv.prod_local (fun hmode => nomatch hmode) (Or.inl rfl)
  | fill step data prodHead prodNext =>
      obtain ⟨e, he, hsized, hlt⟩ := hinv.exists_slot hpc
      obtain ⟨hnext, hone, k, hle, hbound, hslot, hget, hfill⟩ := hinv.exists_fill hpc
      rw [hpc] at hlocal hs'
      cases step with
      | grow =>
          obtain ⟨e', hgrow, hsized', hroom⟩ :=
            XRingEntry.grow_spec hsized (Int.natCast_nonneg data.length)
          rw [ProdPc.step, XRing.modify_eq he hgrow] at hlocal
          cases hlocal
          cases hs'
          refine hinv.write hsub hpc hsized' fun k' hk' _ _ => ?_
          exact ⟨e', by rw [hk']; exact XRing.put_self hlt, by omega⟩
      | copy =>
          obtain ⟨e₀, he₀, hroom⟩ := hfill
          rw [← hslot, he] at he₀
          cases he₀
          obtain ⟨e', hcopy, hsized', _, htake⟩ := XRingEntry.copyIn_spec hsized
            (Int.natCast_nonneg data.length) (Int.ofNat_le.mpr hroom) le_rfl
          rw [ProdPc.step, XRing.modify_eq he hcopy] at hlocal
          cases hlocal
          cases hs'
          refine hinv.write hsub hpc hsized' fun k' hk' _ _ => ?_
          refine ⟨e', by rw [hk']; exact XRing.put_self hlt, ?_⟩
          rwa [Int.toNat_natCast, List.take_length] at htake
      | setLength =>
          obtain ⟨e₀, he₀, htake⟩ := hfill
          rw [← hslot, he] at he₀
          cases he₀
          have hpayload : ({ e with contentLength := data.length } : XRingEntry).payload
              = payloadOf data := by
            rw [XRingEntry.payload, payloadOf, Int.toNat_natCast, htake]
          have hset : e.setContentLength data.length
              = .ok { e with contentLength := data.length } := rfl
          change some (ProdPc.write _ _ (s.ring.modify prodHead _)) = _ at hlocal
          rw [XRing.modify_eq he hset] at hlocal
          cases hlocal
          cases hs'
          refine hinv.write hsub hpc hsized fun k' hk' hlt' hle' => ?_
          have hholds := XRing.holds_put hlt hpayload
          rw [← hk'] at hholds
          cases prodMode with
          | single =>
              have hlast := hone rfl
              exact ⟨hholds, by omega⟩
          | multi => exact hholds
      | awaitTail =>
          rw [ProdPc.step] at hlocal
          by_cases hturn : s.ring.prodTail = prodHead
          · rw [if_neg (not_not.mpr hturn)] at hlocal
            cases hlocal
            cases hs'
            have hat := hinv.at_log
            have hpublished : k = s.log.published := by
              have hreleased := hat.released_le
              have hclaimed := hat.claimed_le
              have hreserved := hat.reserved_lt
              have hmod : k % size = s.log.published % size := by
                rw [← hslot, ← hturn, hat.prodTail]
              exact (Nat.mod_eq_mod_iff_of_lap hle (by omega)).mp hmod
            exact hinv.prod_local ⟨hnext, hone, k, hle, hget, hfill, hpublished⟩
              (Or.inr (by rw [hpc]; rfl))
          · rw [if_pos hturn] at hlocal
            cases hlocal
            cases hs'
            exact hinv.prod_local ⟨hnext, hone, k, hle, hget, hfill⟩ (Or.inr (by rw [hpc]))
      | publish =>
          cases hlocal
          cases hs'
          exact hinv.publish hsub hpc _

theorem cons_step (hinv : XRingInv prodMode consMode size s)
    (hsub : consMode = .single → Subsingleton C) {c : C}
    (hfresh : s.Fresh prodMode consMode (.cons c))
    (hstep : s.step prodMode consMode (.cons c) = some s') :
    XRingInv prodMode consMode size s' := by
  obtain ⟨⟨ring, pc⟩, hlocal, hs'⟩ := Option.map_eq_some_iff.mp hstep
  have hok := hinv.conss c
  cases hpc : s.cons c with
  | idle => rw [hpc] at hlocal; cases hlocal
  | crashed => rw [hpc] at hlocal; cases hlocal
  | readHead out =>
      rw [hpc] at hlocal hs' hok
      cases hlocal
      cases hs'
      exact hinv.cons_local ⟨hok.1, fun hmode => ⟨hok.2 hmode, rfl⟩⟩ (by rintro ⟨_, _, _, _, h⟩; cases h)
  | readTail out consHead =>
      rw [hpc] at hlocal hs' hok
      rw [ConsPc.step] at hlocal
      by_cases hempty : consHead = s.ring.prodTail
      · rw [if_pos hempty] at hlocal
        cases hlocal
        cases hs'
        exact hinv.cons_local (fun hmode => (hok.2 hmode).1) (by rintro ⟨_, _, _, _, h⟩; cases h)
      · rw [if_neg hempty] at hlocal
        cases hlocal
        cases hs'
        refine hinv.cons_local ⟨hok.1, rfl, fun hmode => ?_⟩ (by rintro ⟨_, _, _, _, h⟩; cases h)
        obtain ⟨hclaimed, hhead⟩ := hok.2 hmode
        exact ⟨hclaimed, hhead, hinv.some_of_ne hhead.symm hempty⟩
  | reserve out consHead consNext =>
      rw [hpc] at hlocal hs' hok
      obtain ⟨hfits, hnext, hsingle⟩ := hok
      cases consMode with
      | single =>
          obtain ⟨hclaimed, hhead, hsome⟩ := hsingle rfl
          cases hlocal
          cases hs'
          exact hinv.claim hsub hfits hhead.symm hnext hsome fun _ => hclaimed
      | multi =>
          rw [ConsPc.step] at hlocal
          by_cases hhead : s.ring.consHead = consHead
          · have hentry := hfresh rfl out consHead consNext hpc hhead
            rw [atomic32Cmpset, if_pos hhead] at hlocal
            cases hlocal
            cases hs'
            exact hinv.claim hsub hfits hhead hnext (hinv.some_of_ne hhead hentry)
              fun hmode => nomatch hmode
          · rw [atomic32Cmpset, if_neg hhead] at hlocal
            cases hlocal
            cases hs'
            exact hinv.cons_local ⟨hfits, fun hmode => nomatch hmode⟩
              (by rintro ⟨_, _, _, _, h⟩; cases h)
  | drain step out consHead consNext =>
      have hdraining : (s.cons c).Draining := ⟨_, _, _, _, hpc⟩
      obtain ⟨i, data, slot, hget, hentry, hslotSized, hpayload⟩ := hinv.exists_drain hpc
      have hfilled := XRingEntry.filled_of_payload hpayload
      have hlength : slot.contentLength = data.length := congrArg Prod.fst hpayload
      have hdata : slot.data.take slot.contentLength.toNat = data := congrArg Prod.snd hpayload
      rw [hpc] at hlocal hs' hok
      obtain ⟨hfits, hnext, hone, htoNat, hle, hlt, _, data', hget', hdrain⟩ := hok
      rw [hget] at hget'
      cases hget'
      cases step with
      | grow =>
          obtain ⟨out', hgrow, hfits', hroom⟩ := XRingEntry.growOut_spec hslotSized hfilled hfits
          rw [ConsPc.step, hentry] at hlocal
          change some (_, ConsPc.read _ (slot.growOut out)) = _ at hlocal
          rw [hgrow] at hlocal
          cases hlocal
          cases hs'
          refine hinv.cons_local ⟨hfits', hnext, hone, htoNat, hle, hlt, i, data, hget, ?_⟩
            fun _ => hdraining
          rw [hlength] at hroom
          exact Int.ofNat_le.mp hroom
      | copy =>
          have hroom : slot.contentLength ≤ out.data.length := by
            rw [hlength]
            exact Int.ofNat_le.mpr hdrain
          obtain ⟨out', hcopy, hfits', htake⟩ := XRingEntry.copyOut_spec hfilled hfits hroom
          rw [ConsPc.step, hentry] at hlocal
          change some (_, ConsPc.read _ (slot.copyOut out)) = _ at hlocal
          rw [hcopy] at hlocal
          cases hlocal
          cases hs'
          refine hinv.cons_local ⟨hfits', hnext, hone, htoNat, hle, hlt, i, data, hget, ?_⟩
            fun _ => hdraining
          rw [hdata, hlength, Int.toNat_natCast] at htake
          exact htake
      | setLength =>
          change some (_, ConsPc.read _ (s.ring.entry consHead >>= _)) = _ at hlocal
          rw [hentry] at hlocal
          cases hlocal
          cases hs'
          have hout : ({ out with contentLength := slot.contentLength } : XRingEntry).payload
              = payloadOf data := by
            rw [XRingEntry.payload, hlength, Int.toNat_natCast, hdrain]
            rfl
          refine hinv.cons_local ⟨hfits, hnext, hone, htoNat, hle, hlt, i, data, hget, ?_⟩
            fun _ => hdraining
          cases consMode with
          | single =>
              have hlast := hone rfl
              exact ⟨hout, by omega⟩
          | multi => exact hout
      | awaitTail =>
          rw [ConsPc.step] at hlocal
          by_cases hturn : s.ring.consTail = consHead
          · rw [if_neg (not_not.mpr hturn)] at hlocal
            cases hlocal
            cases hs'
            have hat := hinv.at_log
            have hreleased : s.log.ticket c = s.log.released := by
              have hclaimed := hat.claimed_le
              have hpublished := hat.published_le
              have hreserved := hat.reserved_lt
              have hmod : s.log.ticket c % size = s.log.released % size := by
                rw [← htoNat, ← hturn, hat.consTail]
              exact (Nat.mod_eq_mod_iff_of_lap hle (by omega)).mp hmod
            exact hinv.cons_local
              ⟨hfits, hnext, hone, htoNat, hle, hlt, i, data, hget, hdrain, hreleased⟩
              fun _ => hdraining
          · rw [if_pos hturn] at hlocal
            cases hlocal
            cases hs'
            exact hinv.cons_local ⟨hfits, hnext, hone, htoNat, hle, hlt, i, data, hget, hdrain⟩
              fun _ => hdraining
      | release =>
          cases hlocal
          cases hs'
          exact hinv.release hsub hpc _

/-- **The step lemma.** -/
theorem step (hinv : XRingInv prodMode consMode size s)
    (hprod : prodMode = .single → Subsingleton P) (hcons : consMode = .single → Subsingleton C)
    {a : XRingAct P C} (hfresh : s.Fresh prodMode consMode a)
    (hstep : s.step prodMode consMode a = some s') : XRingInv prodMode consMode size s' := by
  cases a with
  | enqueue p data =>
      rw [XRingThreads.step] at hstep
      split at hstep
      · rename_i ret hpc
        cases hstep
        have hok := hinv.prods p
        rw [hpc] at hok
        exact hinv.prod_local hok (Or.inl rfl)
      · cases hstep
  | dequeue c out =>
      rw [XRingThreads.step] at hstep
      split at hstep
      · rename_i ret hpc
        split at hstep
        · rename_i hfits
          cases hstep
          have hok := hinv.conss c
          rw [hpc] at hok
          exact hinv.cons_local ⟨hfits, hok⟩ (by rintro ⟨_, _, _, _, h⟩; cases h)
        · cases hstep
      · cases hstep
  | prod p => exact hinv.prod_step hprod hfresh hstep
  | cons c => exact hinv.cons_step hcons hfresh hstep

end Gittest.XRingInv
