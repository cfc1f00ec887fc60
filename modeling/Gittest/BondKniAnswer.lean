import Gittest.EtherFrame
import Gittest.Lib.Outcome

/-!
# The answers of `lcore_main`

On a frame the answer is a change of a few fields. The code makes this change on the bytes.
-/

namespace Gittest

open Dpdk

/-! ### The code on the bytes of a frame -/

section Code

section Fields

variable {fields : List (List UInt8)} {k offset : Nat}

theorem load_field {field : List UInt8} (hat : Layout.At fields k offset field) :
    Frame.load fields.flatten offset field.length = .ok field := by
  rw [Frame.load, if_pos hat.fits, hat.get_eq]

theorem store_field {field new : List UInt8} (hat : Layout.At fields k offset field)
    (hnew : new.length = field.length) :
    Frame.store fields.flatten offset new = .ok (fields.set k new).flatten := by
  rw [Frame.store, if_pos (hnew ▸ hat.fits), hat.put_eq hnew]

theorem store_vector {size : Nat} {v : Vector UInt8 size} (hat : Layout.At fields k offset v.toList)
    (new : Vector UInt8 size) :
    Frame.store fields.flatten offset new.toList = .ok (fields.set k new.toList).flatten :=
  store_field hat (Vector.length_toList.trans Vector.length_toList.symm)

theorem load16_field {v : Vector UInt8 2} (hat : Layout.At fields k offset v.toList) :
    Frame.load16 fields.flatten offset = .ok (u16OfBytes v.toList) := by
  have hload := load_field hat
  rw [Vector.length_toList] at hload
  rw [Frame.load16, hload]
  rfl

theorem load32_field {v : Vector UInt8 4} (hat : Layout.At fields k offset v.toList) :
    Frame.load32 fields.flatten offset = .ok (u32OfBytes v.toList) := by
  have hload := load_field hat
  rw [Vector.length_toList] at hload
  rw [Frame.load32, hload]
  rfl

end Fields

theorem bytes_word {n : Nat} (v : Vector UInt8 n) :
    (BigEndian.bytes n (BigEndian.value v.toList.reverse)).reverse = v.toList := by
  have hlength : v.toList.reverse.length = n := by
    rw [List.length_reverse, Vector.length_toList]
  have hbytes := BigEndian.bytes_value v.toList.reverse
  rw [hlength] at hbytes
  rw [hbytes, List.reverse_reverse]

theorem value_word_lt {n : Nat} (v : Vector UInt8 n) :
    BigEndian.value v.toList.reverse < 256 ^ n := by
  calc BigEndian.value v.toList.reverse < 256 ^ v.toList.reverse.length := BigEndian.value_lt _
    _ = 256 ^ n := by rw [List.length_reverse, Vector.length_toList]

theorem u16Bytes_u16OfBytes (v : Vector UInt8 2) : u16Bytes (u16OfBytes v.toList) = v.toList := by
  rw [u16Bytes, u16OfBytes, UInt16.toNat_ofNat_of_lt' (value_word_lt v), bytes_word]

theorem u32Bytes_u32OfBytes (v : Vector UInt8 4) : u32Bytes (u32OfBytes v.toList) = v.toList := by
  rw [u32Bytes, u32OfBytes, UInt32.toNat_ofNat_of_lt' (value_word_lt v), bytes_word]

/-- Two half-words are the same number if and only if they are the same bytes. -/
theorem u16OfBytes_eq_iff {v v' : Vector UInt8 2} :
    u16OfBytes v.toList = u16OfBytes v'.toList ↔ v = v' := by
  constructor
  · intro heq
    have hbytes := congrArg u16Bytes heq
    rw [u16Bytes_u16OfBytes, u16Bytes_u16OfBytes] at hbytes
    exact Vector.toList_inj.mp hbytes
  · rintro rfl
    rfl

theorem u32OfBytes_eq_iff {v v' : Vector UInt8 4} :
    u32OfBytes v.toList = u32OfBytes v'.toList ↔ v = v' := by
  constructor
  · intro heq
    have hbytes := congrArg u32Bytes heq
    rw [u32Bytes_u32OfBytes, u32Bytes_u32OfBytes] at hbytes
    exact Vector.toList_inj.mp hbytes
  · rintro rfl
    rfl

theorem bondIp_eq : bondIp = u32OfBytes bondAddr.toList := by decide

theorem u16OfBytes_u16Bytes (x : UInt16) : u16OfBytes (u16Bytes x) = x := by
  have hx := x.toNat_lt
  apply UInt16.toNat_inj.mp
  simp [u16OfBytes, u16Bytes, BigEndian.bytes, BigEndian.value, Nat.ofDigits_cons]
  omega

variable [Dpdk]

/-- One address of a packet is written over with another. -/
theorem etherAddrCopy_field {fields : List (List UInt8)} {j k src dst : Nat} {addr addr' : MacAddr}
    (happart : src + 6 ≤ dst ∨ dst + 6 ≤ src) (hsrc : Layout.At fields j src addr.toList)
    (hdst : Layout.At fields k dst addr'.toList) :
    rteEtherAddrCopy fields.flatten src dst = .ok (fields.set k addr.toList).flatten := by
  have hload := load_field hsrc
  rw [Vector.length_toList] at hload
  rw [rteEtherAddrCopy_apart _ _ _ happart, Frame.copy, hload, Outcome.ok_bind]
  exact store_vector hdst addr

theorem rteCpuToBe16_eq (x : UInt16) :
    rteCpuToBe16 x = u16OfBytes (BigEndian.bytes 2 x.toNat) := by
  rw [← rteCpuToBe16_bytes x, u16OfBytes_u16Bytes]

theorem vlanType_eq : rteCpuToBe16 rteEtherTypeVlan = u16OfBytes vlanType.toList := by
  rw [rteCpuToBe16_eq, rteEtherTypeVlan_eq]
  decide

theorem arpType_eq : rteCpuToBe16 rteEtherTypeArp = u16OfBytes arpType.toList := by
  rw [rteCpuToBe16_eq, rteEtherTypeArp_eq]
  decide

theorem ipv4Type_eq : rteCpuToBe16 rteEtherTypeIpv4 = u16OfBytes ipv4Type.toList := by
  rw [rteCpuToBe16_eq, rteEtherTypeIpv4_eq]
  decide

theorem arpRequest_eq : rteCpuToBe16 rteArpOpRequest = u16OfBytes arpRequest.toList := by
  rw [rteCpuToBe16_eq, rteArpOpRequest_eq]
  decide

theorem arpReply_eq : rteCpuToBe16 rteArpOpReply = u16OfBytes arpReply.toList := by
  rw [rteCpuToBe16_eq, rteArpOpReply_eq]
  decide

/-! ### Addresses -/

section Addresses

variable (dAddr sAddr : MacAddr) (more : List (List UInt8))

/-- The fields of a frame: the addresses, and what is behind them. -/
def addressed : List (List UInt8) := dAddr.toList :: sAddr.toList :: more

theorem at_dAddr : Layout.At (addressed dAddr sAddr more) 0 etherDAddr dAddr.toList :=
  ⟨rfl, by simp [addressed]⟩

theorem at_sAddr : Layout.At (addressed dAddr sAddr more) 1 etherSAddr sAddr.toList :=
  ⟨rfl, by simp [addressed]⟩

theorem copy_sAddr :
    rteEtherAddrCopy (addressed dAddr sAddr more).flatten etherSAddr etherDAddr
      = .ok (addressed sAddr sAddr more).flatten :=
  etherAddrCopy_field (by simp) (at_sAddr dAddr sAddr more) (at_dAddr dAddr sAddr more)

theorem store_sAddr (addr : MacAddr) :
    Frame.store (addressed dAddr sAddr more).flatten etherSAddr addr.toList
      = .ok (addressed dAddr addr more).flatten :=
  store_vector (at_sAddr dAddr sAddr more) addr

end Addresses

/-! ### ARP -/

section Arp

variable (dAddr sAddr : MacAddr) (tagged : List UInt8) (p : ArpPacket)

/-- The fields of a frame with an ARP packet. -/
def arpFields : List (List UInt8) := addressed dAddr sAddr (tagged :: p.fields)

theorem at_arpOpcode : Layout.At (arpFields dAddr sAddr tagged p) 4
    (12 + tagged.length + arpOpcode) p.opcode.toList :=
  ⟨rfl, by simp [arpFields, addressed, ArpPacket.fields]; omega⟩

theorem at_arpSha : Layout.At (arpFields dAddr sAddr tagged p) 5
    (12 + tagged.length + arpSha) p.sha.toList :=
  ⟨rfl, by simp [arpFields, addressed, ArpPacket.fields]; omega⟩

theorem at_arpSip : Layout.At (arpFields dAddr sAddr tagged p) 6
    (12 + tagged.length + arpSip) p.sip.toList :=
  ⟨rfl, by simp [arpFields, addressed, ArpPacket.fields]; omega⟩

theorem at_arpTha : Layout.At (arpFields dAddr sAddr tagged p) 7
    (12 + tagged.length + arpTha) p.tha.toList :=
  ⟨rfl, by simp [arpFields, addressed, ArpPacket.fields]; omega⟩

theorem at_arpTip : Layout.At (arpFields dAddr sAddr tagged p) 8
    (12 + tagged.length + arpTip) p.tip.toList :=
  ⟨rfl, by simp [arpFields, addressed, ArpPacket.fields]; omega⟩

theorem store_arpOpcode (opcode : Vector UInt8 2) :
    Frame.store (arpFields dAddr sAddr tagged p).flatten (12 + tagged.length + arpOpcode)
        opcode.toList
      = .ok (arpFields dAddr sAddr tagged { p with opcode := opcode }).flatten :=
  store_vector (at_arpOpcode dAddr sAddr tagged p) opcode

theorem store_arpSha (sha : MacAddr) :
    Frame.store (arpFields dAddr sAddr tagged p).flatten (12 + tagged.length + arpSha) sha.toList
      = .ok (arpFields dAddr sAddr tagged { p with sha := sha }).flatten :=
  store_vector (at_arpSha dAddr sAddr tagged p) sha

theorem store_arpSip (sip : Ipv4Addr) :
    Frame.store (arpFields dAddr sAddr tagged p).flatten (12 + tagged.length + arpSip) sip.toList
      = .ok (arpFields dAddr sAddr tagged { p with sip := sip }).flatten :=
  store_vector (at_arpSip dAddr sAddr tagged p) sip

theorem store_arpTip (tip : Ipv4Addr) :
    Frame.store (arpFields dAddr sAddr tagged p).flatten (12 + tagged.length + arpTip) tip.toList
      = .ok (arpFields dAddr sAddr tagged { p with tip := tip }).flatten :=
  store_vector (at_arpTip dAddr sAddr tagged p) tip

theorem copy_arpSha :
    rteEtherAddrCopy (arpFields dAddr sAddr tagged p).flatten (12 + tagged.length + arpSha)
        (12 + tagged.length + arpTha)
      = .ok (arpFields dAddr sAddr tagged { p with tha := p.sha }).flatten :=
  etherAddrCopy_field (by simp) (at_arpSha dAddr sAddr tagged p) (at_arpTha dAddr sAddr tagged p)

def ArpPacket.reply (p : ArpPacket) (bondMac : MacAddr) : ArpPacket :=
  { p with opcode := arpReply, sha := bondMac, sip := bondAddr, tha := p.sha, tip := p.sip }

theorem lcoreMainArp_reply (bondMac : MacAddr) (htip : p.tip = bondAddr)
    (hopcode : p.opcode = arpRequest) :
    lcoreMainArp bondMac (arpFields dAddr sAddr tagged p).flatten (12 + tagged.length)
      = .ok (.arpReply, (arpFields sAddr bondMac tagged (p.reply bondMac)).flatten) := by
  have hsAddr : ∀ p' : ArpPacket,
      rteEtherAddrCopy (arpFields dAddr sAddr tagged p').flatten etherSAddr etherDAddr
        = .ok (arpFields sAddr sAddr tagged p').flatten := fun p' => copy_sAddr dAddr sAddr _
  have hbondMac : ∀ p' : ArpPacket,
      Frame.store (arpFields sAddr sAddr tagged p').flatten etherSAddr bondMac.toList
        = .ok (arpFields sAddr bondMac tagged p').flatten := fun p' => store_sAddr sAddr sAddr _ bondMac
  rw [lcoreMainArp, load32_field (at_arpTip dAddr sAddr tagged p), Outcome.ok_bind, bondIp_eq, htip,
    if_pos rfl, load16_field (at_arpOpcode dAddr sAddr tagged p), Outcome.ok_bind, arpRequest_eq,
    hopcode, if_pos rfl, arpReply_eq, u16Bytes_u16OfBytes, store_arpOpcode, Outcome.ok_bind, hsAddr,
    Outcome.ok_bind, hbondMac, Outcome.ok_bind, copy_arpSha, Outcome.ok_bind,
    load32_field (at_arpSip _ _ _ _), Outcome.ok_bind, u32Bytes_u32OfBytes, store_arpTip,
    Outcome.ok_bind, store_arpSha, Outcome.ok_bind, u32Bytes_u32OfBytes, store_arpSip,
    Outcome.ok_bind]
  rfl

/-- Every other ARP packet stays as it is. -/
theorem lcoreMainArp_pass (bondMac : MacAddr) (hother : ¬(p.tip = bondAddr ∧ p.opcode = arpRequest)) :
    lcoreMainArp bondMac (arpFields dAddr sAddr tagged p).flatten (12 + tagged.length)
      = .ok (.arpPass, (arpFields dAddr sAddr tagged p).flatten) := by
  rw [lcoreMainArp, load32_field (at_arpTip dAddr sAddr tagged p), Outcome.ok_bind, bondIp_eq]
  by_cases htip : p.tip = bondAddr
  · have hopcode : p.opcode ≠ arpRequest := fun hopcode => hother ⟨htip, hopcode⟩
    rw [if_pos (u32OfBytes_eq_iff.mpr htip), load16_field (at_arpOpcode dAddr sAddr tagged p),
      Outcome.ok_bind, arpRequest_eq, if_neg fun heq => hopcode (u16OfBytes_eq_iff.mp heq)]
    rfl
  · rw [if_neg fun heq => htip (u32OfBytes_eq_iff.mp heq)]
    rfl

end Arp

/-! ### IPv4 -/

section Ipv4

variable (dAddr sAddr : MacAddr) (tagged : List UInt8) (p : Ipv4Packet)

/-- The fields of a frame with an IPv4 packet. -/
def ipv4Fields : List (List UInt8) := addressed dAddr sAddr (tagged :: p.fields)

theorem at_ipv4Src : Layout.At (ipv4Fields dAddr sAddr tagged p) 4
    (12 + tagged.length + ipv4SrcAddr) p.src.toList :=
  ⟨rfl, by simp [ipv4Fields, addressed, Ipv4Packet.fields]; omega⟩

theorem at_ipv4Dst : Layout.At (ipv4Fields dAddr sAddr tagged p) 5
    (12 + tagged.length + ipv4DstAddr) p.dst.toList :=
  ⟨rfl, by simp [ipv4Fields, addressed, Ipv4Packet.fields]; omega⟩

theorem store_ipv4Src (src : Ipv4Addr) :
    Frame.store (ipv4Fields dAddr sAddr tagged p).flatten (12 + tagged.length + ipv4SrcAddr)
        src.toList
      = .ok (ipv4Fields dAddr sAddr tagged { p with src := src }).flatten :=
  store_vector (at_ipv4Src dAddr sAddr tagged p) src

theorem store_ipv4Dst (dst : Ipv4Addr) :
    Frame.store (ipv4Fields dAddr sAddr tagged p).flatten (12 + tagged.length + ipv4DstAddr)
        dst.toList
      = .ok (ipv4Fields dAddr sAddr tagged { p with dst := dst }).flatten :=
  store_vector (at_ipv4Dst dAddr sAddr tagged p) dst

def Ipv4Packet.reply (p : Ipv4Packet) : Ipv4Packet := { p with src := bondAddr, dst := p.src }

theorem lcoreMainIpv4_reply (bondMac : MacAddr) (hdst : p.dst = bondAddr) :
    lcoreMainIpv4 bondMac (ipv4Fields dAddr sAddr tagged p).flatten (12 + tagged.length)
      = .ok (.ipv4Reply, (ipv4Fields sAddr bondMac tagged p.reply).flatten) := by
  have hsAddr : rteEtherAddrCopy (ipv4Fields dAddr sAddr tagged p).flatten etherSAddr etherDAddr
      = .ok (ipv4Fields sAddr sAddr tagged p).flatten := copy_sAddr dAddr sAddr _
  have hbondMac : Frame.store (ipv4Fields sAddr sAddr tagged p).flatten etherSAddr bondMac.toList
      = .ok (ipv4Fields sAddr bondMac tagged p).flatten := store_sAddr sAddr sAddr _ bondMac
  rw [lcoreMainIpv4, load32_field (at_ipv4Dst dAddr sAddr tagged p), Outcome.ok_bind, bondIp_eq,
    hdst, if_pos rfl, hsAddr, Outcome.ok_bind, hbondMac, Outcome.ok_bind,
    load32_field (at_ipv4Src _ _ _ _), Outcome.ok_bind, u32Bytes_u32OfBytes, store_ipv4Dst,
    Outcome.ok_bind, u32Bytes_u32OfBytes, store_ipv4Src, Outcome.ok_bind]
  rfl

theorem lcoreMainIpv4_pass (bondMac : MacAddr) (hdst : p.dst ≠ bondAddr) :
    lcoreMainIpv4 bondMac (ipv4Fields dAddr sAddr tagged p).flatten (12 + tagged.length)
      = .ok (.ipv4Pass, (ipv4Fields dAddr sAddr tagged p).flatten) := by
  rw [lcoreMainIpv4, load32_field (at_ipv4Dst dAddr sAddr tagged p), Outcome.ok_bind, bondIp_eq,
    if_neg fun heq => hdst (u32OfBytes_eq_iff.mp heq)]
  rfl

end Ipv4

/-! ### Tags -/

section Tags

variable (dAddr sAddr : MacAddr) {tags : List (Vector UInt8 2)} {etherType : Vector UInt8 2}
  (more : List (List UInt8))

/-- `get_vlan_offset` goes past the tags of a frame, to its type. -/
theorem getVlanOffset_tagged (hle : tags.length ≤ 2)
    (huntagged : tags.length < 2 → etherType ≠ vlanType) :
    ∃ proto, Frame.load16 (addressed dAddr sAddr (taggedType tags etherType :: more)).flatten
        etherTypeAt = .ok proto ∧
      getVlanOffset (addressed dAddr sAddr (taggedType tags etherType :: more)).flatten proto
        = .ok (4 * tags.length, u16OfBytes etherType.toList) := by
  match tags, hle with
  | [], _ =>
    have htype : rteCpuToBe16 rteEtherTypeVlan ≠ u16OfBytes etherType.toList := by
      rw [vlanType_eq]
      exact fun heq => huntagged (by decide) (u16OfBytes_eq_iff.mp heq).symm
    have hat : Layout.At (addressed dAddr sAddr (taggedType [] etherType :: more)) 2 etherTypeAt
        etherType.toList := ⟨rfl, by simp [addressed]⟩
    exact ⟨u16OfBytes etherType.toList, load16_field hat, if_neg htype⟩
  | [tci], _ =>
    have htype : rteCpuToBe16 rteEtherTypeVlan ≠ u16OfBytes etherType.toList := by
      rw [vlanType_eq]
      exact fun heq => huntagged (by simp) (u16OfBytes_eq_iff.mp heq).symm
    let fields : List (List UInt8) := addressed dAddr sAddr
      (vlanType.toList :: tci.toList :: etherType.toList :: more)
    have hfields : (addressed dAddr sAddr (taggedType [tci] etherType :: more)).flatten
        = fields.flatten := by
      simp [fields, addressed, taggedType]
    have houter : Layout.At fields 2 etherTypeAt vlanType.toList :=
      ⟨rfl, by simp [fields, addressed]⟩
    have hinner : Layout.At fields 4 (etherHdrSize + vlanProto) etherType.toList :=
      ⟨rfl, by simp [fields, addressed]⟩
    rw [hfields]
    refine ⟨u16OfBytes vlanType.toList, load16_field houter, ?_⟩
    rw [getVlanOffset, if_pos vlanType_eq, load16_field hinner, Outcome.ok_bind, if_neg htype,
      vlanHdrSize_eq]
    rfl
  | [tci, tci'], _ =>
    let fields : List (List UInt8) := addressed dAddr sAddr
      (vlanType.toList :: tci.toList :: vlanType.toList :: tci'.toList :: etherType.toList :: more)
    have hfields : (addressed dAddr sAddr (taggedType [tci, tci'] etherType :: more)).flatten
        = fields.flatten := by
      simp [fields, addressed, taggedType]
    have houter : Layout.At fields 2 etherTypeAt vlanType.toList :=
      ⟨rfl, by simp [fields, addressed]⟩
    have hmiddle : Layout.At fields 4 (etherHdrSize + vlanProto) vlanType.toList :=
      ⟨rfl, by simp [fields, addressed]⟩
    have hinner : Layout.At fields 6 (etherHdrSize + vlanHdrSize + vlanProto) etherType.toList :=
      ⟨rfl, by simp [fields, addressed]⟩
    rw [hfields]
    refine ⟨u16OfBytes vlanType.toList, load16_field houter, ?_⟩
    rw [getVlanOffset, if_pos vlanType_eq, load16_field hmiddle, Outcome.ok_bind,
      if_pos vlanType_eq, load16_field hinner, Outcome.ok_bind, vlanHdrSize_eq]
    rfl

end Tags

end Code

/-! ### The answer to a frame -/

namespace EtherFrame

def handling (f : EtherFrame) : Handling :=
  match f.payload with
  | .arp p => if p.tip = bondAddr ∧ p.opcode = arpRequest then .arpReply else .arpPass
  | .ipv4 p => if p.dst = bondAddr then .ipv4Reply else .ipv4Pass
  | .other _ _ _ _ => .pass

/-- The frame sent back to where `f` comes from, with another payload. -/
def back (f : EtherFrame) (bondMac : MacAddr) (payload : EtherPayload)
    (htype : payload.etherType = f.payload.etherType) : EtherFrame where
  dAddr := f.sAddr
  sAddr := bondMac
  tags := f.tags
  payload := payload
  tags_le := f.tags_le
  untagged := htype ▸ f.untagged

/-- What `lcore_main` leaves in the mbuf of a frame. -/
def answer (f : EtherFrame) (bondMac : MacAddr) : EtherFrame :=
  match hpayload : f.payload with
  | .arp p =>
    if p.tip = bondAddr ∧ p.opcode = arpRequest then
      f.back bondMac (.arp (p.reply bondMac)) (by rw [hpayload]; rfl)
    else f
  | .ipv4 p =>
    if p.dst = bondAddr then f.back bondMac (.ipv4 p.reply) (by rw [hpayload]; rfl) else f
  | .other _ _ _ _ => f

end EtherFrame

section Packet

variable [Dpdk] (bondMac dAddr sAddr : MacAddr) {tags : List (Vector UInt8 2)}

theorem etherHdr_offset (tags : List (Vector UInt8 2)) (etherType : Vector UInt8 2) :
    etherHdrSize + 4 * tags.length = 12 + (taggedType tags etherType).length := by
  rw [taggedType_length, etherHdrSize_eq]
  omega

/-- `lcore_main` comes to the branch of the type behind the tags. -/
theorem lcoreMainPacket_tagged {etherType : Vector UInt8 2} (more : List (List UInt8))
    (hle : tags.length ≤ 2) (huntagged : tags.length < 2 → etherType ≠ vlanType) :
    let frame := (addressed dAddr sAddr (taggedType tags etherType :: more)).flatten
    lcoreMainPacket bondMac frame =
      if etherType = arpType then
        lcoreMainArp bondMac frame (12 + (taggedType tags etherType).length)
      else if etherType = ipv4Type then
        lcoreMainIpv4 bondMac frame (12 + (taggedType tags etherType).length)
      else
        .ok (.pass, frame) := by
  intro frame
  obtain ⟨proto, hload, hvlan⟩ := getVlanOffset_tagged dAddr sAddr more hle huntagged
  rw [lcoreMainPacket, hload, Outcome.ok_bind, hvlan, Outcome.ok_bind]
  dsimp only
  rw [etherHdr_offset tags etherType, arpType_eq, ipv4Type_eq]
  refine if_congr u16OfBytes_eq_iff rfl (if_congr u16OfBytes_eq_iff rfl rfl)

/-- **The code makes the answer.** -/
theorem lcoreMainPacket_frame (f : EtherFrame) :
    lcoreMainPacket bondMac f.bytes = .ok (f.handling, (f.answer bondMac).bytes) := by
  obtain ⟨dAddr, sAddr, tags, payload, hle, huntagged⟩ := f
  have hpacket := lcoreMainPacket_tagged bondMac dAddr sAddr payload.fields hle huntagged
  refine hpacket.trans ?_
  cases payload with
  | arp p =>
    refine (if_pos rfl).trans ?_
    by_cases hasks : p.tip = bondAddr ∧ p.opcode = arpRequest
    · have hreply := lcoreMainArp_reply dAddr sAddr (taggedType tags arpType) p bondMac hasks.1 hasks.2
      refine hreply.trans ?_
      simp only [EtherFrame.handling, EtherFrame.answer, if_pos hasks]
      rfl
    · have hpass := lcoreMainArp_pass dAddr sAddr (taggedType tags arpType) p bondMac hasks
      refine hpass.trans ?_
      simp only [EtherFrame.handling, EtherFrame.answer, if_neg hasks]
      rfl
  | ipv4 p =>
    refine (if_neg arpType_ne_ipv4Type.symm).trans ((if_pos rfl).trans ?_)
    by_cases hdst : p.dst = bondAddr
    · have hreply := lcoreMainIpv4_reply dAddr sAddr (taggedType tags ipv4Type) p bondMac hdst
      refine hreply.trans ?_
      simp only [EtherFrame.handling, EtherFrame.answer, if_pos hdst]
      rfl
    · have hpass := lcoreMainIpv4_pass dAddr sAddr (taggedType tags ipv4Type) p bondMac hdst
      refine hpass.trans ?_
      simp only [EtherFrame.handling, EtherFrame.answer, if_neg hdst]
      rfl
  | other etherType rest notArp notIpv4 =>
    exact (if_neg notArp).trans (if_neg notIpv4)

end Packet

end Gittest
