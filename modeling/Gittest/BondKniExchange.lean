import Gittest.BondKniAnswer

/-!
# Exchanges between hosts that run the program

The hosts on a link all answer for the address of the bond. A packet is passed along them, each getting
what the one before it has sent; a request of `send` is the first packet of such an exchange.
-/

namespace Gittest

open Dpdk

/-- **The answer.** A packet whose headers lie in its data room is one frame and no other, and
`lcore_main` leaves the answer to this frame in its place. -/
theorem lcoreMainPacket_answers [Dpdk] (bondMac : MacAddr) {frame : Frame} (hroom : 50 ≤ frame.length) :
    ∃! f : EtherFrame, f.bytes = frame ∧
      lcoreMainPacket bondMac frame = .ok (f.handling, (f.answer bondMac).bytes) := by
  obtain ⟨f, rfl⟩ := exists_frame hroom
  refine ⟨f, ⟨rfl, lcoreMainPacket_frame bondMac f⟩, ?_⟩
  rintro f' ⟨hbytes, -⟩
  exact EtherFrame.bytes_injective hbytes

theorem lcoreMainPacket_answers_tagged : ∃ _ : Dpdk,
    ∃! f : EtherFrame, f.bytes = taggedRequest ∧
      lcoreMainPacket #v[2, 0, 0, 0, 0, 9] taggedRequest
        = .ok (f.handling, (f.answer #v[2, 0, 0, 0, 0, 9]).bytes) :=
  letI := littleEndian
  ⟨littleEndian, lcoreMainPacket_answers _ (by decide)⟩

/-! ### Passing a packet along -/

/-- How many hosts answer a packet before one of them does not. -/
def passAlong [Dpdk] : List MacAddr → Frame → Except Fault Nat
  | [], _ => .ok 0
  | bondMac :: hosts, frame => do
    let (handling, reply) ← lcoreMainPacket bondMac frame
    if handling.sends then
      let answers ← passAlong hosts reply
      return answers + 1
    else
      return 0

/-- An IPv4 packet from the bond to itself. -/
def EtherFrame.fromBond (f : EtherFrame) : Bool :=
  match f.payload with
  | .ipv4 p => p.dst = bondAddr ∧ p.src = bondAddr
  | _ => false

namespace EtherFrame

variable {f : EtherFrame}

theorem sends_of_fromBond (hfrom : f.fromBond) : f.handling.sends := by
  obtain ⟨dAddr, sAddr, tags, payload, hle, huntagged⟩ := f
  cases payload with
  | arp p => cases hfrom
  | other _ _ _ _ => cases hfrom
  | ipv4 p =>
    have hboth : p.dst = bondAddr ∧ p.src = bondAddr := of_decide_eq_true hfrom
    simp only [handling, if_pos hboth.1]
    rfl

/-- The answer to a packet from the bond goes to the bond. -/
theorem answer_fromBond (hfrom : f.fromBond) (bondMac : MacAddr) : (f.answer bondMac).fromBond := by
  obtain ⟨dAddr, sAddr, tags, payload, hle, huntagged⟩ := f
  cases payload with
  | arp p => cases hfrom
  | other _ _ _ _ => cases hfrom
  | ipv4 p =>
    have hboth : p.dst = bondAddr ∧ p.src = bondAddr := of_decide_eq_true hfrom
    simp only [answer, if_pos hboth.1]
    exact decide_eq_true ⟨hboth.2, rfl⟩

/-- No other answer is answered. -/
theorem answer_not_sends (hfrom : f.fromBond = false) (hsends : f.handling.sends)
    (bondMac : MacAddr) : (f.answer bondMac).handling.sends = false := by
  obtain ⟨dAddr, sAddr, tags, payload, hle, huntagged⟩ := f
  cases payload with
  | other _ _ _ _ => cases hsends
  | arp p =>
    by_cases hasks : p.tip = bondAddr ∧ p.opcode = arpRequest
    · have hreply : ¬((p.reply bondMac).tip = bondAddr ∧ (p.reply bondMac).opcode = arpRequest) :=
        fun hboth => absurd hboth.2 (show arpReply ≠ arpRequest by decide)
      simp only [answer, if_pos hasks, handling, back, if_neg hreply]
      rfl
    · simp only [handling, if_neg hasks] at hsends
      cases hsends
  | ipv4 p =>
    by_cases hdst : p.dst = bondAddr
    · have hsrc : p.reply.dst ≠ bondAddr := fun hsrc => by
        rw [EtherFrame.fromBond, decide_eq_false_iff_not] at hfrom
        exact hfrom ⟨hdst, hsrc⟩
      simp only [answer, if_pos hdst, handling, back, if_neg hsrc]
      rfl
    · simp only [handling, if_neg hdst] at hsends
      cases hsends

end EtherFrame

theorem passAlong_cons [Dpdk] (bondMac : MacAddr) (hosts : List MacAddr) (f : EtherFrame) :
    passAlong (bondMac :: hosts) f.bytes
      = if f.handling.sends then
          (passAlong hosts (f.answer bondMac).bytes).map (· + 1)
        else .ok 0 := by
  rw [passAlong, lcoreMainPacket_frame, Outcome.ok_bind]
  dsimp only
  split
  · cases passAlong hosts (f.answer bondMac).bytes with
    | ok answers => rfl
    | error fault => rfl
  · rfl

theorem passAlong_fromBond [Dpdk] (hosts : List MacAddr) {f : EtherFrame} (hfrom : f.fromBond) :
    passAlong hosts f.bytes = .ok hosts.length := by
  induction hosts generalizing f with
  | nil => rfl
  | cons bondMac hosts ih =>
    rw [passAlong_cons, if_pos (EtherFrame.sends_of_fromBond hfrom),
      ih (EtherFrame.answer_fromBond hfrom bondMac)]
    rfl

theorem passAlong_not_sends [Dpdk] (hosts : List MacAddr) {f : EtherFrame}
    (hpass : f.handling.sends = false) : passAlong hosts f.bytes = .ok 0 := by
  cases hosts with
  | nil => rfl
  | cons bondMac hosts =>
    rw [passAlong_cons, hpass]
    rfl

/-- **No answer to an answer.** One host at most answers a packet, however many there are, unless it is
an IPv4 packet from the address of the bond to itself: this one they all answer. -/
theorem passAlong_eq [Dpdk] {frame : Frame} (hroom : 50 ≤ frame.length) :
    ∃ f : EtherFrame, f.bytes = frame ∧ ∀ hosts : List MacAddr, passAlong hosts frame =
      .ok (if f.fromBond then hosts.length else if f.handling.sends then min 1 hosts.length else 0) := by
  obtain ⟨f, rfl⟩ := exists_frame hroom
  refine ⟨f, rfl, fun hosts => ?_⟩
  by_cases hfrom : f.fromBond
  · rw [passAlong_fromBond hosts hfrom, if_pos hfrom]
  · rw [if_neg hfrom]
    by_cases hsends : f.handling.sends
    · rw [if_pos hsends]
      cases hosts with
      | nil => rfl
      | cons bondMac hosts =>
        have hquiet := EtherFrame.answer_not_sends (Bool.eq_false_iff.mpr hfrom) hsends bondMac
        rw [passAlong_cons, if_pos hsends, passAlong_not_sends hosts hquiet, List.length_cons,
          Nat.min_eq_left (Nat.le_add_left 1 _)]
        rfl
    · rw [if_neg hsends, passAlong_not_sends hosts (Bool.eq_false_iff.mpr hsends)]

theorem passAlong_eq_tagged : ∃ _ : Dpdk,
    ∃ f : EtherFrame, f.bytes = taggedRequest ∧ ∀ hosts : List MacAddr, passAlong hosts taggedRequest =
      .ok (if f.fromBond then hosts.length else if f.handling.sends then min 1 hosts.length else 0) :=
  letI := littleEndian
  ⟨littleEndian, passAlong_eq (by decide)⟩

/-! ### The request of `send` -/

section Request

theorem or_shiftLeft {low i : Nat} (hlow : low < 2 ^ i) (high : Nat) :
    low ||| high <<< i = high * 2 ^ i + low := by
  rw [Nat.or_comm, ← Nat.shiftLeft_add_eq_or_of_lt hlow, Nat.shiftLeft_eq]

theorem limb_lt {low high i : Nat} (hlow : low < 2 ^ i) (hhigh : high < 2 ^ 8) :
    high * 2 ^ i + low < 2 ^ (8 + i) := by
  calc high * 2 ^ i + low < high * 2 ^ i + 2 ^ i := Nat.add_lt_add_left hlow _
    _ = (high + 1) * 2 ^ i := (Nat.succ_mul high (2 ^ i)).symm
    _ ≤ 2 ^ 8 * 2 ^ i := Nat.mul_le_mul_right _ hhigh
    _ = 2 ^ (8 + i) := (Nat.pow_add 2 8 i).symm

theorem or_bytes {a b c : Nat} (d : Nat) (ha : a < 2 ^ 8) (hb : b < 2 ^ 8) (hc : c < 2 ^ 8) :
    a ||| b <<< 8 ||| c <<< 16 ||| d <<< 24 = d * 2 ^ 24 + (c * 2 ^ 16 + (b * 2 ^ 8 + a)) := by
  rw [or_shiftLeft ha, or_shiftLeft (limb_lt ha hb), or_shiftLeft (limb_lt (limb_lt ha hb) hc)]

/-- The shifts of `arp_tip` put the bytes of an address together as they lie in memory. -/
theorem shifts_eq (ip : Ipv4Addr) :
    (ip.byte 0).toUInt32 ||| ((ip.byte 1).toUInt32 <<< 8) ||| ((ip.byte 2).toUInt32 <<< 16) |||
      ((ip.byte 3).toUInt32 <<< 24) = u32OfBytes ip.toList := by
  obtain ⟨⟨digits⟩, hdigits⟩ := ip
  match digits, hdigits with
  | [a, b, c, d], _ =>
    have ha := a.toNat_lt
    have hb := b.toNat_lt
    have hc := c.toNat_lt
    have hd := d.toNat_lt
    have hor := or_bytes d.toNat ha hb hc
    have hvalue : BigEndian.value [d, c, b, a]
        = d.toNat * 2 ^ 24 + (c.toNat * 2 ^ 16 + (b.toNat * 2 ^ 8 + a.toNat)) := by
      simp [BigEndian.value, Nat.ofDigits_cons]
      omega
    have hb' : b.toNat <<< 8 % 4294967296 = b.toNat <<< 8 := by omega
    have hc' : c.toNat <<< 16 % 4294967296 = c.toNat <<< 16 := by omega
    have hd' : d.toNat <<< 24 % 4294967296 = d.toNat <<< 24 := by omega
    change a.toUInt32 ||| (b.toUInt32 <<< 8) ||| (c.toUInt32 <<< 16) ||| (d.toUInt32 <<< 24) = _
    apply UInt32.toNat_inj.mp
    simp only [u32OfBytes, Vector.toList_mk, List.reverse_cons, List.reverse_nil, List.nil_append,
      List.cons_append, hvalue]
    simp [UInt32.toNat_or, UInt32.toNat_shiftLeft, hb', hc', hd', hor]
    omega

variable (bondMac : MacAddr) (ip : Ipv4Addr)

def broadcast : MacAddr := #v[0xFF, 0xFF, 0xFF, 0xFF, 0xFF, 0xFF]

/-- Who has `ip`, asks the bond. -/
def requestPacket (rest : List UInt8) : ArpPacket where
  formats := #v[0, 1, 8, 0, 6, 4]
  opcode := arpRequest
  sha := bondMac
  sip := bondAddr
  tha := #v[0, 0, 0, 0, 0, 0]
  tip := ip
  rest := rest

def requestFrame (rest : List UInt8) : EtherFrame where
  dAddr := broadcast
  sAddr := bondMac
  tags := []
  payload := .arp (requestPacket bondMac ip rest)
  tags_le := Nat.zero_le 2
  untagged _ := show arpType ≠ vlanType by decide

/-- The sizes of the fields that `cmd_obj_send_parsed` writes, with `rest` bytes behind them. -/
def requestSizes (rest : Nat) : List Nat := [6, 6, 2, 2, 2, 1, 1, 2, 6, 4, 6, 4, rest]

/-- What it writes, each with the number of its field, in its order. -/
def requestStores : List (Nat × List UInt8) :=
  [(1, bondMac.toList), (0, broadcast.toList), (2, arpType.toList), (3, [0, 1]),
    (4, ipv4Type.toList), (5, [6]), (6, [4]), (7, arpRequest.toList), (8, bondMac.toList),
    (9, bondAddr.toList), (10, [0, 0, 0, 0, 0, 0]), (11, ip.toList)]

/-- A record filled field by field. -/
theorem stores_eq {fields : List (List UInt8)} {sizes : List Nat} {stores : List (Nat × List UInt8)}
    (hsized : Layout.Sized fields sizes)
    (hfit : ∀ entry ∈ stores, sizes[entry.1]? = some entry.2.length) :
    stores.foldlM (fun frame entry => Frame.store frame (sizes.take entry.1).sum entry.2)
        fields.flatten
      = .ok (stores.foldl (fun fields entry => fields.set entry.1 entry.2) fields).flatten := by
  induction stores generalizing fields with
  | nil => rfl
  | cons entry stores ih =>
    have hentry := hfit entry List.mem_cons_self
    obtain ⟨field, hat, hsize⟩ := hsized.at_field hentry
    rw [List.foldlM_cons, store_field hat hsize.symm, Outcome.ok_bind, List.foldl_cons]
    exact ih (hsized.set hentry) fun entry' hmem => hfit entry' (List.mem_cons_of_mem _ hmem)

theorem cmdObjSendFill_stores [Dpdk] (rest : Nat) (room : Frame) :
    cmdObjSendFill bondMac ip room = (requestStores bondMac ip).foldlM
      (fun frame entry => Frame.store frame ((requestSizes rest).take entry.1).sum entry.2) room := by
  unfold cmdObjSendFill
  dsimp only
  rw [shifts_eq, u32Bytes_u32OfBytes, bondIp_eq, u32Bytes_u32OfBytes, arpType_eq, ipv4Type_eq,
    arpRequest_eq, u16Bytes_u16OfBytes, u16Bytes_u16OfBytes, u16Bytes_u16OfBytes,
    rteCpuToBe16_bytes, rteArpHrdEther_eq, etherDAddr_eq, etherSAddr_eq, etherTypeAt_eq,
    etherHdrSize_eq, arpHardware_eq, arpProtocol_eq, arpHlen_eq, arpPlen_eq, arpOpcode_eq, arpSha_eq,
    arpSip_eq, arpTha_eq, arpTip_eq]
  simp only [requestStores, List.foldlM_cons, List.foldlM_nil, bind_pure]
  rfl

/-- What the fields held before does not matter. -/
theorem cmdObjSendFill_fields [Dpdk] (dAddr sAddr : MacAddr) (etherType hardware protocol : Vector UInt8 2)
    (hlen plen : Vector UInt8 1) (p : ArpPacket) :
    cmdObjSendFill bondMac ip (dAddr.toList :: sAddr.toList :: etherType.toList :: hardware.toList ::
        protocol.toList :: hlen.toList :: plen.toList :: p.fields.tail).flatten
      = .ok (requestFrame bondMac ip p.rest).bytes := by
  have hsized : Layout.Sized (dAddr.toList :: sAddr.toList :: etherType.toList :: hardware.toList ::
      protocol.toList :: hlen.toList :: plen.toList :: p.fields.tail)
      (requestSizes p.rest.length) := by
    simp [Layout.Sized, requestSizes, ArpPacket.fields]
  have hfit : ∀ entry ∈ requestStores bondMac ip,
      (requestSizes p.rest.length)[entry.1]? = some entry.2.length := by
    simp [requestStores, requestSizes]
  rw [cmdObjSendFill_stores bondMac ip p.rest.length, stores_eq hsized hfit]
  simp [requestStores, ArpPacket.fields, requestFrame, requestPacket, EtherFrame.bytes,
    EtherFrame.fields, EtherPayload.etherType, EtherPayload.fields, taggedType, ipv4Type]

/-- The formats of an ARP packet are two numbers and two lengths. -/
theorem exists_formats (formats : Vector UInt8 6) :
    ∃ (hardware protocol : Vector UInt8 2) (hlen plen : Vector UInt8 1), formats.toList
      = hardware.toList ++ (protocol.toList ++ (hlen.toList ++ plen.toList)) := by
  have hlength : formats.toList.length = 6 := Vector.length_toList
  obtain ⟨hardware, rest1, h1, hlength1⟩ :=
    split_vector 2 (show 2 ≤ formats.toList.length by omega)
  obtain ⟨protocol, rest2, rfl, hlength2⟩ := split_vector 2 (show 2 ≤ rest1.length by omega)
  obtain ⟨hlen, rest3, rfl, hlength3⟩ := split_vector 1 (show 1 ≤ rest2.length by omega)
  obtain ⟨plen, rest4, rfl, hlength4⟩ := split_vector 1 (show 1 ≤ rest3.length by omega)
  obtain rfl : rest4 = [] := List.eq_nil_of_length_eq_zero (by omega)
  exact ⟨hardware, protocol, hlen, plen, by rw [h1, List.append_nil]⟩

theorem cmdObjSendFill_eq [Dpdk] {room : Frame} (hroom : cmdObjSendSize ≤ room.length) :
    cmdObjSendFill bondMac ip room
      = .ok (requestFrame bondMac ip (room.drop cmdObjSendSize)).bytes := by
  rw [cmdObjSendSize, etherHdrSize_eq, arpHdrSize_eq] at hroom
  obtain ⟨dAddr, room1, rfl, h1⟩ := split_vector 6 (show 6 ≤ room.length by omega)
  obtain ⟨sAddr, room2, rfl, h2⟩ := split_vector 6 (show 6 ≤ room1.length by omega)
  obtain ⟨etherType, room3, rfl, h3⟩ := split_vector 2 (show 2 ≤ room2.length by omega)
  obtain ⟨p, rfl⟩ := exists_arp (show 28 ≤ room3.length by omega)
  obtain ⟨hardware, protocol, hlen, plen, hformats⟩ := exists_formats p.formats
  have hfill := cmdObjSendFill_fields bondMac ip dAddr sAddr etherType hardware protocol hlen plen p
  have hrest : (dAddr.toList ++ (sAddr.toList ++ (etherType.toList ++ p.fields.flatten))).drop
      cmdObjSendSize = p.rest := by
    have hat : Layout.At (dAddr.toList :: sAddr.toList :: etherType.toList :: p.fields) 9
        cmdObjSendSize p.rest :=
      ⟨rfl, by simp [cmdObjSendSize, ArpPacket.fields]⟩
    exact hat.drop_eq.trans (List.append_nil p.rest)
  rw [hrest, ← hfill]
  congr 1
  simp [ArpPacket.fields, hformats]

/-- The frame that answers the request. -/
def replyFrame (hostMac : MacAddr) (rest : List UInt8) : EtherFrame where
  dAddr := bondMac
  sAddr := hostMac
  tags := []
  payload := .arp
    { requestPacket bondMac bondAddr rest with
      opcode := arpReply, sha := hostMac, tha := bondMac }
  tags_le := Nat.zero_le 2
  untagged _ := show arpType ≠ vlanType by decide

/-- **Request and answer.** Whatever an mbuf held, `send` makes a broadcast request of all its 42 bytes;
a host answers it if and only if it asks for the bond, to the asker alone, with the address of the host
in it. -/
theorem cmdObjSend_answered [Dpdk] {room : Frame} (hroom : cmdObjSendSize ≤ room.length) :
    let rest := room.drop cmdObjSendSize
    cmdObjSendFill bondMac ip room = .ok (requestFrame bondMac ip rest).bytes ∧
      ∀ hostMac, lcoreMainPacket hostMac (requestFrame bondMac ip rest).bytes =
        .ok (if ip = bondAddr then (.arpReply, (replyFrame bondMac hostMac rest).bytes)
          else (.arpPass, (requestFrame bondMac ip rest).bytes)) := by
  intro rest
  refine ⟨cmdObjSendFill_eq bondMac ip hroom, fun hostMac => ?_⟩
  rw [lcoreMainPacket_frame]
  by_cases hip : ip = bondAddr
  · have hasks : (requestPacket bondMac ip rest).tip = bondAddr ∧
        (requestPacket bondMac ip rest).opcode = arpRequest := ⟨hip, rfl⟩
    simp only [requestFrame, EtherFrame.handling, EtherFrame.answer, if_pos hasks, if_pos hip]
    rfl
  · have hasks : ¬((requestPacket bondMac ip rest).tip = bondAddr ∧
        (requestPacket bondMac ip rest).opcode = arpRequest) := fun hboth => hip hboth.1
    simp only [requestFrame, EtherFrame.handling, EtherFrame.answer, if_neg hasks, if_neg hip]

theorem cmdObjSend_answered_zeroed : ∃ _ : Dpdk,
    cmdObjSendFill #v[2, 0, 0, 0, 0, 1] bondAddr (List.replicate 60 0)
        = .ok (requestFrame #v[2, 0, 0, 0, 0, 1] bondAddr (List.replicate 18 0)).bytes ∧
      ∀ hostMac, lcoreMainPacket hostMac
          (requestFrame #v[2, 0, 0, 0, 0, 1] bondAddr (List.replicate 18 0)).bytes
        = .ok (.arpReply, (replyFrame #v[2, 0, 0, 0, 0, 1] hostMac (List.replicate 18 0)).bytes) :=
  letI := littleEndian
  ⟨littleEndian, cmdObjSend_answered #v[2, 0, 0, 0, 0, 1] bondAddr
    (show cmdObjSendSize ≤ (List.replicate 60 (0 : UInt8)).length by decide)⟩

end Request

end Gittest
