import Gittest.BondKniAnswer
import Gittest.Lib.Transition
import Mathlib.Data.Finset.Dedup
import Mathlib.Data.Fintype.Card

/-!
# The packet buffers of `lcore_main`

A turn of the loop of `lcore_main` receives a burst of mbufs and is to hand each of them on once: free
it, or have `rte_eth_tx_burst` take it. `held` is not part of the program: it records the mbufs that a
core has been given and has not handed on.
-/

namespace Gittest

open Dpdk Transition

/-- `MAX_PKT_BURST`. -/
def maxPktBurst : Nat := 32

/-- A packet that `rte_eth_rx_burst` delivers, and whether `rte_eth_tx_burst`, handed it, takes it. -/
structure Packet (M : Type) where
  mbuf : M
  frame : Frame
  txTakes : Bool
  room : 50 ≤ frame.length

variable [Dpdk] {M : Type}

/-- The branch that a packet takes. -/
def Packet.handling (p : Packet M) : Handling :=
  match lcoreMainPacket (Vector.replicate 6 0) p.frame with
  | .ok (handling, _) => handling
  | .error _ => .pass

/-- It is the same whatever the address of the bond. -/
theorem Packet.run (p : Packet M) (bondMac : MacAddr) :
    ∃ frame, lcoreMainPacket bondMac p.frame = .ok (p.handling, frame) := by
  obtain ⟨f, hf⟩ := exists_frame p.room
  have hhandling : p.handling = f.handling := by
    unfold handling
    rw [← hf, lcoreMainPacket_frame]
  rw [hhandling, ← hf]
  exact ⟨_, lcoreMainPacket_frame bondMac f⟩

/-- The packet leaves through the port. -/
def Packet.taken (p : Packet M) : Bool := p.handling.sends && p.txTakes

def Packet.replies (p : Packet M) : Bool := p.handling == .arpReply

/-- What one turn gets from the port: its packets, and the address of `rte_eth_macaddr_get` unless this
fails. -/
structure Burst (M : Type) where
  pkts : List (Packet M)
  bondMac : Option MacAddr
  pkts_le : pkts.length ≤ maxPktBurst
  nodup : (pkts.map Packet.mbuf).Nodup

/-- The locals of `lcore_main` that outlive a turn. -/
structure LcoreMain (M : Type) where
  pkts : List (Option M)
  i : Nat
  held : Finset M

variable [DecidableEq M]

/-- What `rte_pktmbuf_free`, and a port that takes a packet, do with an mbuf. -/
def handOn (held : Finset M) (mbuf : M) : Except Fault (Finset M) :=
  if mbuf ∈ held then .ok (held.erase mbuf) else .error .deadBlock

/-- The loop over the packets of a burst. -/
def lcoreMainLoop (bondMac : MacAddr) :
    Bool → Finset M → List (Packet M) → Except Fault (Finset M)
  | _, held, [] => .ok held
  | isFree, held, p :: ps => do
    let (handling, _) ← lcoreMainPacket bondMac p.frame
    let held ← if handling.sends && p.txTakes then handOn held p.mbuf else pure held
    let isFree := isFree || handling == .arpReply
    let held ← if isFree then pure held else handOn held p.mbuf
    lcoreMainLoop bondMac isFree held ps

def Burst.mbufs (b : Burst M) : Finset M := (b.pkts.map Packet.mbuf).toFinset

def LcoreMain.receive (s : LcoreMain M) (b : Burst M) : LcoreMain M :=
  { s with
    pkts := b.pkts.map (fun p => some p.mbuf) ++ s.pkts.drop b.pkts.length
    held := s.held ∪ b.mbufs }

/-- `pkts[i]`. -/
def LcoreMain.pkt (s : LcoreMain M) : Except Fault M :=
  match s.pkts[s.i]? with
  | none => .error .outOfBounds
  | some none => .error .uninitialised
  | some (some mbuf) => .ok mbuf

/-- One turn of the loop of `lcore_main`. -/
def LcoreMain.turn (s : LcoreMain M) (b : Burst M) : Except Fault (LcoreMain M) :=
  if b.pkts.length = 0 then .ok s
  else
    let s := s.receive b
    match b.bondMac with
    | none => do
      let mbuf ← s.pkt
      let held ← handOn s.held mbuf
      return { s with held := held }
    | some bondMac => do
      let held ← lcoreMainLoop bondMac false s.held b.pkts
      return { s with i := b.pkts.length, held := held }

def LcoreMain.start : LcoreMain M where
  pkts := List.replicate maxPktBurst none
  i := 0
  held := ∅

/-- A core that goes from turn to turn; the port delivers no mbuf that the core still holds. -/
def lcoreMainStep : Except Fault (LcoreMain M) → Burst M → Option (Except Fault (LcoreMain M))
  | .error _, _ => none
  | .ok s, b => if Disjoint s.held b.mbufs then some (s.turn b) else none

section Loop

variable {bondMac : MacAddr} {isFree : Bool} {held held' : Finset M} {p : Packet M}
  {ps before after : List (Packet M)}

theorem lcoreMainLoop_cons :
    lcoreMainLoop bondMac isFree held (p :: ps) = (do
      let held ← if p.taken then handOn held p.mbuf else pure held
      let held ← if isFree || p.replies then pure held else handOn held p.mbuf
      lcoreMainLoop bondMac (isFree || p.replies) held ps) := by
  obtain ⟨frame, hrun⟩ := p.run bondMac
  rw [lcoreMainLoop, hrun]
  rfl

omit [Dpdk] in
theorem handOn_eq_ok {mbuf : M} :
    handOn held mbuf = .ok held' ↔ mbuf ∈ held ∧ held.erase mbuf = held' := by
  unfold handOn
  split
  · rename_i hmem
    rw [Except.ok.injEq, and_iff_right hmem]
  · rename_i hmem
    exact ⟨nofun, fun hboth => absurd hboth.1 hmem⟩

omit [Dpdk] in
theorem handOn_mem {mbuf : M} (hmem : mbuf ∈ held) : handOn held mbuf = .ok (held.erase mbuf) :=
  if_pos hmem

/-- A packet is handed on once where it is either taken or freed. -/
theorem lcoreMainLoop_once (hmem : p.mbuf ∈ held) (honce : p.taken = (isFree || p.replies)) :
    lcoreMainLoop bondMac isFree held (p :: ps)
      = lcoreMainLoop bondMac (isFree || p.replies) (held.erase p.mbuf) ps := by
  rw [lcoreMainLoop_cons, ← honce]
  cases p.taken with
  | true => rw [if_pos rfl, handOn_mem hmem]; rfl
  | false =>
    change (handOn held p.mbuf >>= _) = _
    rw [handOn_mem hmem]
    rfl

/-- It stays with the core where it is neither. -/
theorem lcoreMainLoop_never (htaken : p.taken = false) (hfree : (isFree || p.replies) = true) :
    lcoreMainLoop bondMac isFree held (p :: ps) = lcoreMainLoop bondMac true held ps := by
  rw [lcoreMainLoop_cons, htaken, hfree]
  rfl

/-- And is freed under the port's hands where it is both. -/
theorem lcoreMainLoop_twice (hmem : p.mbuf ∈ held) (htaken : p.taken = true)
    (hfree : (isFree || p.replies) = false) :
    lcoreMainLoop bondMac isFree held (p :: ps) = .error .deadBlock := by
  rw [lcoreMainLoop_cons, htaken, hfree, if_pos rfl, handOn_mem hmem, Outcome.ok_bind]
  change (handOn (held.erase p.mbuf) p.mbuf >>= _) = _
  rw [handOn, if_neg (Finset.notMem_erase p.mbuf held)]
  rfl

/-- The core has been given the packets that the loop still has to go over. -/
structure Holding (held : Finset M) (ps : List (Packet M)) : Prop where
  nodup : (ps.map Packet.mbuf).Nodup
  mem : ∀ p ∈ ps, p.mbuf ∈ held

omit [Dpdk] [DecidableEq M] in
theorem Holding.tail (hholding : Holding held (p :: ps)) : Holding held ps where
  nodup := (List.nodup_cons.mp hholding.nodup).2
  mem := fun q hq => hholding.mem q (List.mem_cons_of_mem p hq)

omit [Dpdk] [DecidableEq M] in
theorem Holding.apart (hholding : Holding held (p :: ps)) : ∀ q ∈ ps, q.mbuf ≠ p.mbuf := by
  intro q hq heq
  exact (List.nodup_cons.mp hholding.nodup).1 (heq ▸ List.mem_map_of_mem hq)

omit [Dpdk] in
theorem Holding.erase (hholding : Holding held (p :: ps)) : Holding (held.erase p.mbuf) ps where
  nodup := hholding.tail.nodup
  mem := fun q hq => Finset.mem_erase.mpr ⟨hholding.apart q hq, hholding.tail.mem q hq⟩

/-- The step of the loop that hands a packet on, and the two that do not. -/
theorem lcoreMainLoop_cases (hholding : Holding held (p :: ps))
    (hloop : lcoreMainLoop bondMac isFree held (p :: ps) = .ok held') :
    (p.taken = (isFree || p.replies) ∧
        lcoreMainLoop bondMac (isFree || p.replies) (held.erase p.mbuf) ps = .ok held') ∨
      (p.taken = false ∧ (isFree || p.replies) = true ∧
        lcoreMainLoop bondMac (isFree || p.replies) held ps = .ok held') := by
  have hmem := hholding.mem p List.mem_cons_self
  by_cases honce : p.taken = (isFree || p.replies)
  · rw [lcoreMainLoop_once hmem honce] at hloop
    exact Or.inl ⟨honce, hloop⟩
  · cases htaken : p.taken with
    | true =>
      have hfree : (isFree || p.replies) = false := by
        rw [htaken] at honce
        exact Bool.eq_false_iff.mpr fun hfree => honce hfree.symm
      rw [lcoreMainLoop_twice hmem htaken hfree] at hloop
      cases hloop
    | false =>
      have hfree : (isFree || p.replies) = true := by
        rw [htaken] at honce
        exact Bool.eq_true_of_not_eq_false fun hfree => honce hfree.symm
      rw [lcoreMainLoop_never htaken hfree, ← hfree] at hloop
      exact Or.inr ⟨rfl, hfree, hloop⟩

/-- The loop leaves the mbufs of earlier turns alone. -/
theorem lcoreMainLoop_keeps {mbuf : M} (hholding : Holding held ps) (hmem : mbuf ∈ held)
    (hother : ∀ p ∈ ps, p.mbuf ≠ mbuf)
    (hloop : lcoreMainLoop bondMac isFree held ps = .ok held') : mbuf ∈ held' := by
  induction ps generalizing isFree held with
  | nil => exact Except.ok.inj hloop ▸ hmem
  | cons p ps ih =>
    have hrest : ∀ q ∈ ps, q.mbuf ≠ mbuf := fun q hq => hother q (List.mem_cons_of_mem p hq)
    rcases lcoreMainLoop_cases hholding hloop with ⟨-, hnext⟩ | ⟨-, -, hnext⟩
    · have hne := hother p List.mem_cons_self
      exact ih hholding.erase (Finset.mem_erase.mpr ⟨hne.symm, hmem⟩) hrest hnext
    · exact ih hholding.tail hmem hrest hnext

/-- From the first answered ARP request on the packets leave through the port, before it they are
freed. -/
def HandsOn (isFree : Bool) (ps : List (Packet M)) : Prop :=
  ∀ before p after, ps = before ++ p :: after →
    p.taken = (isFree || (before ++ [p]).any Packet.replies)

omit [DecidableEq M] in
theorem handsOn_nil : HandsOn isFree ([] : List (Packet M)) := by
  intro before p after heq
  cases before <;> cases heq

omit [DecidableEq M] in
theorem handsOn_cons : HandsOn isFree (p :: ps) ↔
    p.taken = (isFree || p.replies) ∧ HandsOn (isFree || p.replies) ps := by
  constructor
  · intro hhands
    refine ⟨?_, fun before q after heq => ?_⟩
    · simpa using hhands [] p ps rfl
    · rw [hhands (p :: before) q after (congrArg (p :: ·) heq), List.cons_append, List.any_cons,
        Bool.or_assoc]
  · rintro ⟨hhead, htail⟩ before q after heq
    cases before with
    | nil =>
      obtain ⟨rfl, rfl⟩ := List.cons.inj heq
      simpa using hhead
    | cons r before =>
      obtain ⟨rfl, hps⟩ := List.cons.inj heq
      rw [htail before q after hps, List.cons_append, List.any_cons, Bool.or_assoc]

/-- A loop that hands every packet on leaves the core without them. -/
theorem lcoreMainLoop_of_handsOn (hholding : Holding held ps) (hhands : HandsOn isFree ps) :
    lcoreMainLoop bondMac isFree held ps = .ok (held \ (ps.map Packet.mbuf).toFinset) := by
  induction ps generalizing isFree held with
  | nil => rw [lcoreMainLoop, List.map_nil, List.toFinset_nil, Finset.sdiff_empty]
  | cons p ps ih =>
    obtain ⟨hhead, htail⟩ := handsOn_cons.mp hhands
    rw [lcoreMainLoop_once (hholding.mem p List.mem_cons_self) hhead, ih hholding.erase htail,
      List.map_cons, List.toFinset_cons, Finset.sdiff_insert, Finset.erase_sdiff_comm]

/-- And only such a loop does. -/
theorem handsOn_of_lcoreMainLoop (hholding : Holding held ps)
    (hloop : lcoreMainLoop bondMac isFree held ps = .ok held')
    (hgone : ∀ p ∈ ps, p.mbuf ∉ held') : HandsOn isFree ps := by
  induction ps generalizing isFree held with
  | nil => exact handsOn_nil
  | cons p ps ih =>
    have hrest : ∀ q ∈ ps, q.mbuf ∉ held' := fun q hq => hgone q (List.mem_cons_of_mem p hq)
    rcases lcoreMainLoop_cases hholding hloop with ⟨hhead, hnext⟩ | ⟨-, -, hnext⟩
    · exact handsOn_cons.mpr ⟨hhead, ih hholding.erase hnext hrest⟩
    · have hkept := lcoreMainLoop_keeps hholding.tail (hholding.mem p List.mem_cons_self)
        hholding.apart hnext
      exact absurd hkept (hgone p List.mem_cons_self)

end Loop

/-! ### Turns -/

/-- The turn hands on every mbuf it is given. Without an address for the bond it frees `pkts[i]`, `i`
being the number of packets of the last turn that had one. -/
def LcoreMain.Clean (s : LcoreMain M) (b : Burst M) : Prop :=
  match b.bondMac with
  | some _ => HandsOn false b.pkts
  | none =>
    b.pkts = [] ∨ ∃ mbuf, b.pkts.map Packet.mbuf = [mbuf] ∧ (s.receive b).pkt = .ok mbuf

section Turn

variable {s s' : LcoreMain M} {b : Burst M}

omit [Dpdk] [DecidableEq M] in
theorem Burst.holding {held : Finset M} (b : Burst M) (hmem : ∀ p ∈ b.pkts, p.mbuf ∈ held) :
    Holding held b.pkts := ⟨b.nodup, hmem⟩

omit [Dpdk] in
theorem Burst.mem_mbufs {p : Packet M} (hp : p ∈ b.pkts) : p.mbuf ∈ b.mbufs :=
  List.mem_toFinset.mpr (List.mem_map_of_mem hp)

omit [Dpdk] in
theorem LcoreMain.receive_held (hheld : s.held = ∅) : (s.receive b).held = b.mbufs := by
  rw [receive, hheld, Finset.empty_union]

theorem LcoreMain.turn_nil (hnil : b.pkts = []) : s.turn b = .ok s := by
  rw [turn, hnil]
  rfl

theorem LcoreMain.turn_some {bondMac : MacAddr} (hsome : b.pkts ≠ [])
    (hmac : b.bondMac = some bondMac) :
    s.turn b = (lcoreMainLoop bondMac false (s.receive b).held b.pkts).map fun held =>
      { s.receive b with i := b.pkts.length, held := held } := by
  have hlength : b.pkts.length ≠ 0 := fun hzero => hsome (List.eq_nil_of_length_eq_zero hzero)
  rw [turn, if_neg hlength]
  dsimp only
  rw [hmac]
  rfl

theorem LcoreMain.turn_none (hsome : b.pkts ≠ []) (hmac : b.bondMac = none) :
    s.turn b = (s.receive b).pkt >>= fun mbuf => (handOn (s.receive b).held mbuf).map fun held =>
      { s.receive b with held := held } := by
  have hlength : b.pkts.length ≠ 0 := fun hzero => hsome (List.eq_nil_of_length_eq_zero hzero)
  rw [turn, if_neg hlength]
  dsimp only
  rw [hmac]
  rfl

omit [Dpdk] in
theorem Burst.mbufs_eq_singleton {mbuf : M} :
    b.mbufs = {mbuf} ↔ b.pkts.map Packet.mbuf = [mbuf] := by
  constructor
  · intro heq
    have hcard : (b.pkts.map Packet.mbuf).length = 1 := by
      rw [← List.toFinset_card_of_nodup b.nodup, ← mbufs, heq, Finset.card_singleton]
    obtain ⟨mbuf', hlist⟩ := List.length_eq_one_iff.mp hcard
    rw [mbufs, hlist] at heq
    rw [hlist, Finset.singleton_inj.mp heq]
  · intro hlist
    rw [mbufs, hlist]
    rfl

/-- A turn that begins with nothing held ends so if and only if it is clean. -/
theorem LcoreMain.turn_clean_iff (hheld : s.held = ∅) :
    (∃ s', s.turn b = .ok s' ∧ s'.held = ∅) ↔ s.Clean b := by
  unfold Clean
  by_cases hnil : b.pkts = []
  · rw [turn_nil hnil]
    constructor
    · intro
      cases b.bondMac with
      | none => exact Or.inl hnil
      | some bondMac =>
        change HandsOn false b.pkts
        rw [hnil]
        exact handsOn_nil
    · intro
      exact ⟨s, rfl, hheld⟩
  · cases hmac : b.bondMac with
    | some bondMac =>
      have hholding : Holding b.mbufs b.pkts := b.holding fun p hp => b.mem_mbufs hp
      rw [turn_some hnil hmac, receive_held hheld]
      constructor
      · rintro ⟨s', hturn, hempty⟩
        obtain ⟨held', hloop, rfl⟩ := Outcome.map_eq_ok.mp hturn
        refine handsOn_of_lcoreMainLoop hholding hloop fun p _ hp => ?_
        exact absurd (show p.mbuf ∈ (∅ : Finset M) from hempty ▸ hp) (Finset.notMem_empty _)
      · intro hhands
        rw [lcoreMainLoop_of_handsOn hholding hhands]
        exact ⟨_, rfl, Finset.sdiff_self b.mbufs⟩
    | none =>
      rw [turn_none hnil hmac, receive_held hheld]
      constructor
      · rintro ⟨s', hturn, hempty⟩
        obtain ⟨mbuf, hpkt, hfree⟩ := Outcome.bind_eq_ok.mp hturn
        obtain ⟨held', hhandOn, rfl⟩ := Outcome.map_eq_ok.mp hfree
        obtain ⟨hmem, rfl⟩ := handOn_eq_ok.mp hhandOn
        refine Or.inr ⟨mbuf, Burst.mbufs_eq_singleton.mp ?_, hpkt⟩
        rcases (Finset.erase_eq_empty_iff b.mbufs mbuf).mp hempty with hnone | hone
        · exact absurd hmem (hnone ▸ Finset.notMem_empty mbuf)
        · exact hone
      · rintro (hnil' | ⟨mbuf, hlist, hpkt⟩)
        · exact absurd hnil' hnil
        · rw [hpkt, Outcome.ok_bind, Burst.mbufs_eq_singleton.mpr hlist,
            handOn_mem (Finset.mem_singleton_self mbuf)]
          exact ⟨_, rfl, Finset.erase_singleton mbuf⟩

end Turn

/-! ### Runs -/

/-- No mbuf has been handed on twice, and none is left. -/
def HandedOn (s : Except Fault (LcoreMain M)) : Prop := ∃ t, s = .ok t ∧ t.held = ∅

def CleanTurn (s : Except Fault (LcoreMain M)) (b : Burst M) : Prop := ∀ t, s = .ok t → t.Clean b

/-- **Every mbuf once.** A run hands on every mbuf that it is given, and none twice, if and only if each
of its turns is clean: where the bond has an address, from the first ARP request for it on all packets of
a burst are sent and taken, and before it none is; where it has none, `pkts[i]` is all there is. -/
theorem lcoreMain_handedOn_iff (bs : List (Burst M)) :
    Throughout lcoreMainStep HandedOn (.ok LcoreMain.start) bs ↔
      Along lcoreMainStep CleanTurn (.ok (LcoreMain.start : LcoreMain M)) bs := by
  have hinit : HandedOn (.ok (LcoreMain.start : LcoreMain M)) := ⟨_, rfl, rfl⟩
  have hturn : ∀ (s : Except Fault (LcoreMain M)) b s', HandedOn s → lcoreMainStep s b = some s' →
      (HandedOn s' ↔ CleanTurn s b) := by
    rintro _ b s' ⟨s, rfl, hheld⟩ hstep
    obtain ⟨_, hs'⟩ := Option.ite_none_right_eq_some.mp hstep
    obtain rfl := Option.some.inj hs'
    rw [HandedOn, LcoreMain.turn_clean_iff hheld, CleanTurn]
    exact ⟨fun hclean t ht => Except.ok.inj ht ▸ hclean, fun hclean => hclean s rfl⟩
  constructor
  · refine along_of_throughout (fun s b s' hinv hclean hstep => ?_)
      (fun s b s' hinv hdirty hstep => ?_) hinit
    · exact (hturn s b s' hinv hstep).mpr hclean
    · exact fun hgood => hdirty ((hturn s b s' hinv hstep).mp hgood)
  · refine throughout_of_along (fun s b s' hinv hclean hstep => ?_) (fun _ hinv => hinv) hinit
    exact (hturn s b s' hinv hstep).mpr hclean

/-! ### Running dry -/

section Dry

variable {s s' : LcoreMain M} {b : Burst M}

/-- Behind an answered ARP request there is a packet that does not leave through the port. -/
def Burst.Leaks (b : Burst M) : Prop :=
  ∃ before p after, b.pkts = before ++ p :: after ∧ before.any Packet.replies ∧ p.taken = false

/-- A packet that is neither taken nor freed stays with the core. -/
theorem lcoreMainLoop_leaks {bondMac : MacAddr} {isFree : Bool} {held held' : Finset M}
    {before after : List (Packet M)} {p : Packet M}
    (hholding : Holding held (before ++ p :: after))
    (hreplies : (isFree || before.any Packet.replies) = true) (htaken : p.taken = false)
    (hloop : lcoreMainLoop bondMac isFree held (before ++ p :: after) = .ok held') :
    p.mbuf ∈ held' := by
  induction before generalizing isFree held with
  | nil =>
    have hfree : (isFree || p.replies) = true := by
      rw [List.any_nil, Bool.or_false] at hreplies
      rw [hreplies, Bool.true_or]
    have hmem := hholding.mem p List.mem_cons_self
    rw [List.nil_append, lcoreMainLoop_never htaken hfree] at hloop
    exact lcoreMainLoop_keeps hholding.tail hmem hholding.apart hloop
  | cons q before ih =>
    rw [List.any_cons, ← Bool.or_assoc] at hreplies
    rcases lcoreMainLoop_cases hholding hloop with ⟨-, hnext⟩ | ⟨-, -, hnext⟩
    · exact ih hholding.erase hreplies hnext
    · exact ih hholding.tail hreplies hnext

/-- A turn with an address keeps what the core held, and more where it leaks. -/
theorem LcoreMain.turn_keeps (hmac : b.bondMac.isSome) (hfresh : Disjoint s.held b.mbufs)
    (hturn : s.turn b = .ok s') :
    s.held ⊆ s'.held ∧ (b.Leaks → s.held.card < s'.held.card) := by
  obtain ⟨bondMac, hmac⟩ := Option.isSome_iff_exists.mp hmac
  by_cases hnil : b.pkts = []
  · rw [turn_nil hnil] at hturn
    obtain rfl := Except.ok.inj hturn
    refine ⟨Finset.Subset.refl _, ?_⟩
    rintro ⟨before, p, after, hpkts, -⟩
    rw [hnil] at hpkts
    exact absurd hpkts.symm (List.append_ne_nil_of_right_ne_nil before (List.cons_ne_nil p after))
  · rw [turn_some hnil hmac] at hturn
    obtain ⟨held', hloop, rfl⟩ := Outcome.map_eq_ok.mp hturn
    have hholding : Holding (s.receive b).held b.pkts :=
      b.holding fun p hp => Finset.mem_union_right s.held (b.mem_mbufs hp)
    have hkeeps : s.held ⊆ held' := by
      intro mbuf hmem
      refine lcoreMainLoop_keeps hholding (Finset.mem_union_left _ hmem) (fun p hp heq => ?_) hloop
      exact Finset.disjoint_left.mp hfresh hmem (heq ▸ b.mem_mbufs hp)
    refine ⟨hkeeps, ?_⟩
    rintro ⟨before, p, after, hpkts, hreplies, htaken⟩
    have hp : p ∈ b.pkts := hpkts ▸ List.mem_append_right before List.mem_cons_self
    rw [hpkts] at hholding hloop
    have hleft := lcoreMainLoop_leaks hholding (by rwa [Bool.false_or]) htaken hloop
    have hnew : p.mbuf ∉ s.held := fun hmem => Finset.disjoint_left.mp hfresh hmem (b.mem_mbufs hp)
    exact Finset.card_lt_card (Finset.ssubset_iff_of_subset hkeeps |>.mpr ⟨p.mbuf, hleft, hnew⟩)

/-- A core that has crashed takes no further turn. -/
theorem lcoreMainRun_cons {bs : List (Burst M)}
    (hrun : run lcoreMainStep (.ok s) (b :: bs) = some (.ok s')) :
    ∃ t, Disjoint s.held b.mbufs ∧ s.turn b = .ok t ∧ run lcoreMainStep (.ok t) bs = some (.ok s') := by
  obtain ⟨next, hstep, hrest⟩ := run_cons_eq_some.mp hrun
  obtain ⟨hfresh, hnext⟩ := Option.ite_none_right_eq_some.mp hstep
  obtain rfl := Option.some.inj hnext
  cases hturn : s.turn b with
  | ok t => exact ⟨t, hfresh, rfl, hturn ▸ hrest⟩
  | error fault =>
    rw [hturn] at hrest
    cases bs with
    | nil => cases hrest
    | cons b' bs =>
      obtain ⟨_, hnone, _⟩ := run_cons_eq_some.mp hrest
      cases hnone

theorem lcoreMainRun_leaks {bs leaky : List (Burst M)} (hmac : ∀ b ∈ bs, b.bondMac.isSome)
    (hrun : run lcoreMainStep (.ok s) bs = some (.ok s')) (hsublist : leaky.Sublist bs)
    (hleaks : ∀ b ∈ leaky, b.Leaks) : s.held.card + leaky.length ≤ s'.held.card := by
  induction hsublist generalizing s with
  | slnil =>
    obtain rfl := Except.ok.inj (Option.some.inj hrun)
    exact Nat.le_refl _
  | cons b _ ih =>
    obtain ⟨t, hfresh, hturn, hrest⟩ := lcoreMainRun_cons hrun
    have hkeeps := (LcoreMain.turn_keeps (hmac b List.mem_cons_self) hfresh hturn).1
    have hle := ih (fun c hc => hmac c (List.mem_cons_of_mem b hc)) hrest hleaks
    exact (Nat.add_le_add_right (Finset.card_le_card hkeeps) _).trans hle
  | cons_cons b _ ih =>
    obtain ⟨t, hfresh, hturn, hrest⟩ := lcoreMainRun_cons hrun
    have hmore := (LcoreMain.turn_keeps (hmac b List.mem_cons_self) hfresh hturn).2
      (hleaks b List.mem_cons_self)
    have hle := ih (fun c hc => hmac c (List.mem_cons_of_mem b hc)) hrest
      fun c hc => hleaks c (List.mem_cons_of_mem b hc)
    rw [List.length_cons]
    omega

/-- **Running dry.** What leaks never comes back: a run, with an address for the bond throughout, has no
more bursts with an unsent packet behind an answered ARP request than there are mbufs. -/
theorem lcoreMain_leaks_le [Fintype M] (bs : List (Burst M)) (s : LcoreMain M)
    (hmac : ∀ b ∈ bs, b.bondMac.isSome)
    (hrun : run lcoreMainStep (.ok LcoreMain.start) bs = some (.ok s)) (leaky : List (Burst M))
    (hsublist : leaky.Sublist bs) (hleaks : ∀ b ∈ leaky, b.Leaks) :
    leaky.length ≤ Fintype.card M := by
  calc leaky.length = (LcoreMain.start : LcoreMain M).held.card + leaky.length :=
        (Nat.zero_add _).symm
    _ ≤ s.held.card := lcoreMainRun_leaks hmac hrun hsublist hleaks
    _ ≤ Fintype.card M := Finset.card_le_univ s.held

/-- A request that is answered, and behind it, in the second of two mbufs, one that the port does not
take. -/
def leakyBurst : Burst Bool where
  pkts := [⟨false, taggedRequest, true, by decide⟩, ⟨true, taggedRequest, false, by decide⟩]
  bondMac := some #v[2, 0, 0, 0, 0, 9]
  pkts_le := by decide
  nodup := by decide

omit [Dpdk] in
theorem leakyBurst_leaks : letI := littleEndian; leakyBurst.Leaks :=
  ⟨[⟨false, taggedRequest, true, by decide⟩], ⟨true, taggedRequest, false, by decide⟩, [], rfl,
    by decide +kernel, by decide +kernel⟩

omit [Dpdk] in
theorem leakyBurst_turn : letI := littleEndian; ∃ s, LcoreMain.start.turn leakyBurst = .ok s := by
  let _ : Dpdk := littleEndian
  have hok : (LcoreMain.start.turn leakyBurst).isOk := by decide +kernel
  cases hturn : LcoreMain.start.turn leakyBurst with
  | ok s => exact ⟨s, rfl⟩
  | error fault =>
    rw [hturn] at hok
    cases hok

omit [Dpdk] in
theorem lcoreMain_leaks_le_two : ∃ _ : Dpdk, ∃ s,
    run lcoreMainStep (.ok LcoreMain.start) [leakyBurst] = some (.ok s) ∧
      [leakyBurst].length ≤ Fintype.card Bool := by
  let _ : Dpdk := littleEndian
  obtain ⟨s, hturn⟩ := leakyBurst_turn
  have hrun : run lcoreMainStep (.ok LcoreMain.start) [leakyBurst] = some (.ok s) := by
    rw [← hturn]
    rfl
  refine ⟨littleEndian, s, hrun,
    lcoreMain_leaks_le [leakyBurst] s ?_ hrun [leakyBurst] (List.Sublist.refl _) ?_⟩
  · intro b hb
    rw [List.mem_singleton.mp hb]
    rfl
  · intro b hb
    rw [List.mem_singleton.mp hb]
    exact leakyBurst_leaks

end Dry

end Gittest
