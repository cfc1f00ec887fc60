import Gittest.Dpdk

/-!
# What `lcore_main` does with a packet

A packet lies in the data room of its mbuf; `lcore_main` reads its headers there and, where it answers,
writes the answer over it. `cmd_obj_send_parsed` writes a request into a fresh mbuf.
-/

namespace Gittest

open Dpdk

variable [Dpdk]

def bondIp : UInt32 :=
  (10 : UInt32) ||| ((0 : UInt32) <<< 8) ||| ((120 : UInt32) <<< 16) ||| ((17 : UInt32) <<< 24)

/-! ### Receiving -/

/-- The offset of `get_vlan_offset`, and the `proto` that it leaves. -/
def getVlanOffset (frame : Frame) (proto : UInt16) : Except Fault (Nat × UInt16) :=
  if rteCpuToBe16 rteEtherTypeVlan = proto then do
    let proto ← frame.load16 (etherHdrSize + vlanProto)
    if rteCpuToBe16 rteEtherTypeVlan = proto then do
      let proto ← frame.load16 (etherHdrSize + vlanHdrSize + vlanProto)
      return (vlanHdrSize + vlanHdrSize, proto)
    else
      return (vlanHdrSize, proto)
  else
    return (0, proto)

/-- The branch that the loop over a burst takes for a packet. -/
inductive Handling where
  | arpReply
  | arpPass
  | ipv4Reply
  | ipv4Pass
  | pass
  deriving DecidableEq

/-- The packet is handed to `rte_eth_tx_burst`. -/
def Handling.sends : Handling → Bool
  | .arpReply => true
  | .ipv4Reply => true
  | _ => false

/-- `arp_hdr` from the test of `arp_tip` on. -/
def lcoreMainArp (bondMac : MacAddr) (frame : Frame) (arpHdr : Nat) :
    Except Fault (Handling × Frame) := do
  let tip ← frame.load32 (arpHdr + arpTip)
  if tip = bondIp then
    let opcode ← frame.load16 (arpHdr + arpOpcode)
    if opcode = rteCpuToBe16 rteArpOpRequest then
      let frame ← frame.store (arpHdr + arpOpcode) (u16Bytes (rteCpuToBe16 rteArpOpReply))
      let frame ← rteEtherAddrCopy frame etherSAddr etherDAddr
      let frame ← frame.store etherSAddr bondMac.toList
      let frame ← rteEtherAddrCopy frame (arpHdr + arpSha) (arpHdr + arpTha)
      let sip ← frame.load32 (arpHdr + arpSip)
      let frame ← frame.store (arpHdr + arpTip) (u32Bytes sip)
      let frame ← frame.store (arpHdr + arpSha) bondMac.toList
      let frame ← frame.store (arpHdr + arpSip) (u32Bytes bondIp)
      return (.arpReply, frame)
    else
      return (.arpPass, frame)
  else
    return (.arpPass, frame)

def lcoreMainIpv4 (bondMac : MacAddr) (frame : Frame) (ipv4Hdr : Nat) :
    Except Fault (Handling × Frame) := do
  let dst ← frame.load32 (ipv4Hdr + ipv4DstAddr)
  if dst = bondIp then
    let frame ← rteEtherAddrCopy frame etherSAddr etherDAddr
    let frame ← frame.store etherSAddr bondMac.toList
    let src ← frame.load32 (ipv4Hdr + ipv4SrcAddr)
    let frame ← frame.store (ipv4Hdr + ipv4DstAddr) (u32Bytes src)
    let frame ← frame.store (ipv4Hdr + ipv4SrcAddr) (u32Bytes bondIp)
    return (.ipv4Reply, frame)
  else
    return (.ipv4Pass, frame)

/-- What `lcore_main` does with one packet of a burst, up to sending and freeing it. -/
def lcoreMainPacket (bondMac : MacAddr) (frame : Frame) : Except Fault (Handling × Frame) := do
  let etherType ← frame.load16 etherTypeAt
  let (offset, etherType) ← getVlanOffset frame etherType
  if etherType = rteCpuToBe16 rteEtherTypeArp then
    lcoreMainArp bondMac frame (etherHdrSize + offset)
  else if etherType = rteCpuToBe16 rteEtherTypeIpv4 then
    lcoreMainIpv4 bondMac frame (etherHdrSize + offset)
  else
    return (.pass, frame)

/-- A request for the bond behind two tags, of the fewest bytes that the headers take. -/
def taggedRequest : Frame :=
  [0xFF, 0xFF, 0xFF, 0xFF, 0xFF, 0xFF, 2, 0, 0, 0, 0, 1, 0x81, 0, 0, 5, 0x81, 0, 0, 7, 8, 6,
    0, 1, 8, 0, 6, 4, 0, 1, 2, 0, 0, 0, 0, 1, 10, 0, 120, 1, 0, 0, 0, 0, 0, 0, 10, 0, 120, 17]

/-! ### Sending -/

/-- `((unsigned char *)&ip)[i]`, for `i` below 4. -/
def Ipv4Addr.byte (ip : Ipv4Addr) (i : Nat) : UInt8 := ip.toList.getD i 0

/-- What `cmd_obj_send_parsed` writes into a fresh mbuf. The shifts of `arp_tip` are those of an `int`
that wraps. -/
def cmdObjSendFill (bondMac : MacAddr) (ip : Ipv4Addr) (frame : Frame) : Except Fault Frame := do
  let frame ← frame.store etherSAddr bondMac.toList
  let frame ← frame.store etherDAddr (List.replicate 6 0xFF)
  let frame ← frame.store etherTypeAt (u16Bytes (rteCpuToBe16 rteEtherTypeArp))
  let arpHdr := etherHdrSize
  let frame ← frame.store (arpHdr + arpHardware) (u16Bytes (rteCpuToBe16 rteArpHrdEther))
  let frame ← frame.store (arpHdr + arpProtocol) (u16Bytes (rteCpuToBe16 rteEtherTypeIpv4))
  let frame ← frame.store (arpHdr + arpHlen) [6]
  let frame ← frame.store (arpHdr + arpPlen) [4]
  let frame ← frame.store (arpHdr + arpOpcode) (u16Bytes (rteCpuToBe16 rteArpOpRequest))
  let frame ← frame.store (arpHdr + arpSha) bondMac.toList
  let frame ← frame.store (arpHdr + arpSip) (u32Bytes bondIp)
  let frame ← frame.store (arpHdr + arpTha) (List.replicate 6 0)
  let tip : UInt32 := (ip.byte 0).toUInt32 ||| ((ip.byte 1).toUInt32 <<< 8) |||
    ((ip.byte 2).toUInt32 <<< 16) ||| ((ip.byte 3).toUInt32 <<< 24)
  frame.store (arpHdr + arpTip) (u32Bytes tip)

/-- `pkt_size`. -/
def cmdObjSendSize : Nat := etherHdrSize + arpHdrSize

end Gittest
