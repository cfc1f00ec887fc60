import Gittest.BondKniFrame

/-!
# Ethernet frames

A frame has up to two VLAN tags, which is how deep `get_vlan_offset` looks, and an ARP packet, an IPv4
packet or something else in it. Every packet with the headers in its data room is such a frame, and
only one.
-/

namespace Gittest

/-! ### Frames -/

def vlanType : Vector UInt8 2 := #v[0x81, 0]
def arpType : Vector UInt8 2 := #v[8, 6]
def ipv4Type : Vector UInt8 2 := #v[8, 0]

def arpRequest : Vector UInt8 2 := #v[0, 1]
def arpReply : Vector UInt8 2 := #v[0, 2]

def bondAddr : Ipv4Addr := #v[10, 0, 120, 17]

structure ArpPacket where
  /-- `arp_hardware`, `arp_protocol`, `arp_hlen` and `arp_plen`. -/
  formats : Vector UInt8 6
  opcode : Vector UInt8 2
  sha : MacAddr
  sip : Ipv4Addr
  tha : MacAddr
  tip : Ipv4Addr
  rest : List UInt8

structure Ipv4Packet where
  front : Vector UInt8 12
  src : Ipv4Addr
  dst : Ipv4Addr
  rest : List UInt8

inductive EtherPayload where
  | arp (packet : ArpPacket)
  | ipv4 (packet : Ipv4Packet)
  | other (etherType : Vector UInt8 2) (rest : List UInt8)
      (notArp : etherType ≠ arpType) (notIpv4 : etherType ≠ ipv4Type)

def EtherPayload.etherType : EtherPayload → Vector UInt8 2
  | .arp _ => arpType
  | .ipv4 _ => ipv4Type
  | .other etherType _ _ _ => etherType

/-- A frame, its outermost tag first. -/
structure EtherFrame where
  dAddr : MacAddr
  sAddr : MacAddr
  tags : List (Vector UInt8 2)
  payload : EtherPayload
  tags_le : tags.length ≤ 2
  untagged : tags.length < 2 → payload.etherType ≠ vlanType

/-! ### Their bytes -/

def ArpPacket.fields (p : ArpPacket) : List (List UInt8) :=
  [p.formats.toList, p.opcode.toList, p.sha.toList, p.sip.toList, p.tha.toList, p.tip.toList, p.rest]

def Ipv4Packet.fields (p : Ipv4Packet) : List (List UInt8) :=
  [p.front.toList, p.src.toList, p.dst.toList, p.rest]

def EtherPayload.fields : EtherPayload → List (List UInt8)
  | .arp p => p.fields
  | .ipv4 p => p.fields
  | .other _ rest _ _ => [rest]

/-- What stands from `ether_type` on, up to the header that the payload begins with. -/
def taggedType (tags : List (Vector UInt8 2)) (etherType : Vector UInt8 2) : List UInt8 :=
  (tags.flatMap fun tci => vlanType.toList ++ tci.toList) ++ etherType.toList

def EtherFrame.fields (f : EtherFrame) : List (List UInt8) :=
  f.dAddr.toList :: f.sAddr.toList :: taggedType f.tags f.payload.etherType :: f.payload.fields

def EtherFrame.bytes (f : EtherFrame) : Frame := f.fields.flatten

theorem taggedType_length (tags : List (Vector UInt8 2)) (etherType : Vector UInt8 2) :
    (taggedType tags etherType).length = 4 * tags.length + 2 := by
  induction tags with
  | nil => simp [taggedType]
  | cons tci tags ih =>
    unfold taggedType at ih ⊢
    simp only [List.flatMap_cons, List.length_append, Vector.length_toList, List.length_cons] at ih ⊢
    omega

/-! ### Every packet is a frame -/

section Parsing

theorem split_vector (size : Nat) {bytes : List UInt8} (hfits : size ≤ bytes.length) :
    ∃ (v : Vector UInt8 size) (rest : List UInt8),
      bytes = v.toList ++ rest ∧ size + rest.length = bytes.length := by
  have hlength : (bytes.take size).toArray.size = size := by
    rw [List.size_toArray, List.length_take, Nat.min_eq_left hfits]
  refine ⟨⟨(bytes.take size).toArray, hlength⟩, bytes.drop size, ?_, ?_⟩
  · exact (List.take_append_drop size bytes).symm
  · rw [List.length_drop]
    omega

theorem exists_arp {bytes : List UInt8} (hroom : 28 ≤ bytes.length) :
    ∃ p : ArpPacket, p.fields.flatten = bytes := by
  obtain ⟨formats, bytes1, rfl, h1⟩ := split_vector 6 (show 6 ≤ bytes.length by omega)
  obtain ⟨opcode, bytes2, rfl, h2⟩ := split_vector 2 (show 2 ≤ bytes1.length by omega)
  obtain ⟨sha, bytes3, rfl, h3⟩ := split_vector 6 (show 6 ≤ bytes2.length by omega)
  obtain ⟨sip, bytes4, rfl, h4⟩ := split_vector 4 (show 4 ≤ bytes3.length by omega)
  obtain ⟨tha, bytes5, rfl, h5⟩ := split_vector 6 (show 6 ≤ bytes4.length by omega)
  obtain ⟨tip, rest, rfl, -⟩ := split_vector 4 (show 4 ≤ bytes5.length by omega)
  refine ⟨⟨formats, opcode, sha, sip, tha, tip, rest⟩, ?_⟩
  simp only [ArpPacket.fields, List.flatten_cons, List.flatten_nil, List.append_nil]

theorem exists_ipv4 {bytes : List UInt8} (hroom : 20 ≤ bytes.length) :
    ∃ p : Ipv4Packet, p.fields.flatten = bytes := by
  obtain ⟨front, bytes1, rfl, h1⟩ := split_vector 12 (show 12 ≤ bytes.length by omega)
  obtain ⟨src, bytes2, rfl, h2⟩ := split_vector 4 (show 4 ≤ bytes1.length by omega)
  obtain ⟨dst, rest, rfl, -⟩ := split_vector 4 (show 4 ≤ bytes2.length by omega)
  refine ⟨⟨front, src, dst, rest⟩, ?_⟩
  simp only [Ipv4Packet.fields, List.flatten_cons, List.flatten_nil, List.append_nil]

/-- `arp_tip` is the last of what is read, 28 bytes behind the `ether_type`. -/
theorem exists_payload (etherType : Vector UInt8 2) {bytes : List UInt8}
    (hroom : 28 ≤ bytes.length) :
    ∃ payload : EtherPayload, payload.etherType = etherType ∧ payload.fields.flatten = bytes := by
  by_cases harp : etherType = arpType
  · obtain ⟨p, hp⟩ := exists_arp hroom
    exact ⟨.arp p, harp.symm, hp⟩
  · by_cases hipv4 : etherType = ipv4Type
    · obtain ⟨p, hp⟩ := exists_ipv4 ((show 20 ≤ 28 by decide).trans hroom)
      exact ⟨.ipv4 p, hipv4.symm, hp⟩
    · exact ⟨.other etherType bytes harp hipv4, rfl, List.append_nil bytes⟩

/-- Tags are taken off as long as there are any, and `depth` at most. -/
theorem exists_tagged (depth : Nat) {bytes : List UInt8}
    (hroom : 4 * depth + 2 + 28 ≤ bytes.length) :
    ∃ (tags : List (Vector UInt8 2)) (payload : EtherPayload), tags.length ≤ depth ∧
      (tags.length < depth → payload.etherType ≠ vlanType) ∧
      taggedType tags payload.etherType ++ payload.fields.flatten = bytes := by
  induction depth generalizing bytes with
  | zero =>
    obtain ⟨etherType, rest, rfl, hrest⟩ := split_vector 2 (show 2 ≤ bytes.length by omega)
    obtain ⟨payload, hpayload, hfields⟩ := exists_payload etherType (show 28 ≤ rest.length by omega)
    refine ⟨[], payload, Nat.le_refl 0, fun hlt => absurd hlt (Nat.lt_irrefl 0), ?_⟩
    rw [hpayload, hfields]
    rfl
  | succ depth ih =>
    obtain ⟨etherType, rest, rfl, hrest⟩ := split_vector 2 (show 2 ≤ bytes.length by omega)
    by_cases hvlan : etherType = vlanType
    · obtain ⟨tci, inner, rfl, hinner⟩ := split_vector 2 (show 2 ≤ rest.length by omega)
      obtain ⟨tags, payload, hle, huntagged, hbytes⟩ := ih (show 4 * depth + 2 + 28 ≤ inner.length by omega)
      refine ⟨tci :: tags, payload, Nat.succ_le_succ hle, ?_, ?_⟩
      · exact fun hlt => huntagged (Nat.lt_of_succ_lt_succ hlt)
      · rw [← hbytes, hvlan, taggedType, List.flatMap_cons]
        simp only [taggedType, List.append_assoc]
    · obtain ⟨payload, hpayload, hfields⟩ := exists_payload etherType (show 28 ≤ rest.length by omega)
      refine ⟨[], payload, Nat.zero_le _, fun _ => hpayload ▸ hvlan, ?_⟩
      rw [hpayload, hfields]
      rfl

theorem exists_frame {frame : Frame} (hroom : 50 ≤ frame.length) :
    ∃ f : EtherFrame, f.bytes = frame := by
  obtain ⟨dAddr, rest, rfl, h1⟩ := split_vector 6 (show 6 ≤ frame.length by omega)
  obtain ⟨sAddr, tagged, rfl, h2⟩ := split_vector 6 (show 6 ≤ rest.length by omega)
  have hroom' : 4 * 2 + 2 + 28 ≤ tagged.length := by omega
  obtain ⟨tags, payload, hle, huntagged, rfl⟩ := exists_tagged 2 hroom'
  exact ⟨⟨dAddr, sAddr, tags, payload, hle, huntagged⟩, rfl⟩

/-! ### And only one -/

theorem append_vector_inj {size : Nat} {v v' : Vector UInt8 size} {rest rest' : List UInt8} :
    v.toList ++ rest = v'.toList ++ rest' ↔ v = v' ∧ rest = rest' := by
  have hlength : v.toList.length = v'.toList.length := by
    rw [Vector.length_toList, Vector.length_toList]
  constructor
  · intro heq
    obtain ⟨hv, hrest⟩ := List.append_inj heq hlength
    exact ⟨Vector.toList_inj.mp hv, hrest⟩
  · rintro ⟨rfl, rfl⟩
    rfl

theorem ArpPacket.fields_inj {p p' : ArpPacket} (hfields : p.fields.flatten = p'.fields.flatten) :
    p = p' := by
  cases p
  cases p'
  simpa only [ArpPacket.fields, List.flatten_cons, List.flatten_nil, List.append_nil,
    append_vector_inj, ArpPacket.mk.injEq] using hfields

theorem Ipv4Packet.fields_inj {p p' : Ipv4Packet}
    (hfields : p.fields.flatten = p'.fields.flatten) : p = p' := by
  cases p
  cases p'
  simpa only [Ipv4Packet.fields, List.flatten_cons, List.flatten_nil, List.append_nil,
    append_vector_inj, Ipv4Packet.mk.injEq] using hfields

theorem arpType_ne_ipv4Type : arpType ≠ ipv4Type := by decide

theorem EtherPayload.fields_inj {payload payload' : EtherPayload}
    (htype : payload.etherType = payload'.etherType)
    (hfields : payload.fields.flatten = payload'.fields.flatten) : payload = payload' := by
  cases payload with
  | arp p =>
    cases payload' with
    | arp p' => exact congrArg EtherPayload.arp (ArpPacket.fields_inj hfields)
    | ipv4 p' => exact absurd htype arpType_ne_ipv4Type
    | other _ _ notArp _ => exact absurd htype.symm notArp
  | ipv4 p =>
    cases payload' with
    | arp p' => exact absurd htype arpType_ne_ipv4Type.symm
    | ipv4 p' => exact congrArg EtherPayload.ipv4 (Ipv4Packet.fields_inj hfields)
    | other _ _ _ notIpv4 => exact absurd htype.symm notIpv4
  | other etherType rest notArp notIpv4 =>
    cases payload' with
    | arp p' => exact absurd htype notArp
    | ipv4 p' => exact absurd htype notIpv4
    | other etherType' rest' _ _ =>
      obtain rfl : etherType = etherType' := htype
      obtain rfl : rest = rest' := by
        simpa only [fields, List.flatten_cons, List.flatten_nil, List.append_nil] using hfields
      rfl

theorem taggedType_cons (tci : Vector UInt8 2) (tags : List (Vector UInt8 2))
    (etherType : Vector UInt8 2) (rest : List UInt8) :
    taggedType (tci :: tags) etherType ++ rest
      = vlanType.toList ++ (tci.toList ++ (taggedType tags etherType ++ rest)) := by
  simp only [taggedType, List.flatMap_cons, List.append_assoc]

theorem tagged_inj {depth : Nat} {tags tags' : List (Vector UInt8 2)}
    {payload payload' : EtherPayload} (hle : tags.length ≤ depth) (hle' : tags'.length ≤ depth)
    (huntagged : tags.length < depth → payload.etherType ≠ vlanType)
    (huntagged' : tags'.length < depth → payload'.etherType ≠ vlanType)
    (heq : taggedType tags payload.etherType ++ payload.fields.flatten
      = taggedType tags' payload'.etherType ++ payload'.fields.flatten) :
    tags = tags' ∧ payload = payload' := by
  induction tags generalizing tags' depth with
  | nil =>
    cases tags' with
    | nil =>
      obtain ⟨htype, hfields⟩ := append_vector_inj.mp heq
      exact ⟨rfl, EtherPayload.fields_inj htype hfields⟩
    | cons tci' tags' =>
      rw [taggedType_cons] at heq
      exact absurd (append_vector_inj.mp heq).1 (huntagged (Nat.zero_lt_of_lt hle'))
  | cons tci tags ih =>
    cases tags' with
    | nil =>
      rw [taggedType_cons] at heq
      exact absurd (append_vector_inj.mp heq).1.symm (huntagged' (Nat.zero_lt_of_lt hle))
    | cons tci' tags' =>
      obtain ⟨depth, rfl⟩ := Nat.exists_eq_add_one.mpr (Nat.zero_lt_of_lt hle)
      rw [taggedType_cons, taggedType_cons, append_vector_inj, append_vector_inj] at heq
      obtain ⟨-, rfl, heq⟩ := heq
      obtain ⟨rfl, rfl⟩ := ih (Nat.le_of_succ_le_succ hle) (Nat.le_of_succ_le_succ hle')
        (fun hlt => huntagged (Nat.succ_lt_succ hlt))
        (fun hlt => huntagged' (Nat.succ_lt_succ hlt)) heq
      exact ⟨rfl, rfl⟩

theorem EtherFrame.bytes_injective : Function.Injective EtherFrame.bytes := by
  intro f f' heq
  obtain ⟨dAddr, sAddr, tags, payload, hle, huntagged⟩ := f
  obtain ⟨dAddr', sAddr', tags', payload', hle', huntagged'⟩ := f'
  rw [bytes, bytes, fields, fields, List.flatten_cons, List.flatten_cons, List.flatten_cons,
    List.flatten_cons, List.flatten_cons, List.flatten_cons, append_vector_inj,
    append_vector_inj] at heq
  obtain ⟨rfl, rfl, heq⟩ := heq
  obtain ⟨rfl, rfl⟩ := tagged_inj hle hle' huntagged huntagged' heq
  rfl

end Parsing

end Gittest
