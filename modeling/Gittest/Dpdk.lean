import Gittest.Basic
import Gittest.Lib.BigEndian
import Gittest.Lib.Layout

/-!
# What the program uses of DPDK

DPDK is no part of the repository. The layouts of its headers, the numbers of the protocols and its
inline functions are parameters, with what is documented of them as their laws. The host is
little-endian, as the shifts of `bond_ip` suppose.
-/

namespace Gittest

/-- The bytes of a data room. -/
abbrev Frame := List UInt8

abbrev MacAddr := Vector UInt8 6

abbrev Ipv4Addr := Vector UInt8 4

/-! ### Memory -/

def Frame.load (frame : Frame) (offset size : Nat) : Except Fault (List UInt8) :=
  if offset + size ≤ frame.length then .ok (Layout.get frame offset size) else .error .outOfBounds

def Frame.store (frame : Frame) (offset : Nat) (new : List UInt8) : Except Fault Frame :=
  if offset + new.length ≤ frame.length then .ok (Layout.put frame offset new)
  else .error .outOfBounds

def u16OfBytes (bytes : List UInt8) : UInt16 := UInt16.ofNat (BigEndian.value bytes.reverse)

def u32OfBytes (bytes : List UInt8) : UInt32 := UInt32.ofNat (BigEndian.value bytes.reverse)

def u16Bytes (x : UInt16) : List UInt8 := (BigEndian.bytes 2 x.toNat).reverse

def u32Bytes (x : UInt32) : List UInt8 := (BigEndian.bytes 4 x.toNat).reverse

def Frame.load16 (frame : Frame) (offset : Nat) : Except Fault UInt16 := do
  let bytes ← frame.load offset 2
  return u16OfBytes bytes

def Frame.load32 (frame : Frame) (offset : Nat) : Except Fault UInt32 := do
  let bytes ← frame.load offset 4
  return u32OfBytes bytes

def Frame.copy (frame : Frame) (src dst size : Nat) : Except Fault Frame := do
  let bytes ← frame.load src size
  frame.store dst bytes

/-! ### The parameters -/

/-- The offsets are those of a member in its header, the sizes those of a whole header. Of a spinlock
there is whether it is locked. -/
class Dpdk where
  -- `struct rte_ether_hdr`
  etherDAddr : Nat
  etherSAddr : Nat
  etherTypeAt : Nat
  etherHdrSize : Nat
  -- `struct rte_vlan_hdr`
  vlanProto : Nat
  vlanHdrSize : Nat
  -- `struct rte_arp_hdr`, with its `arp_data`
  arpHardware : Nat
  arpProtocol : Nat
  arpHlen : Nat
  arpPlen : Nat
  arpOpcode : Nat
  arpSha : Nat
  arpSip : Nat
  arpTha : Nat
  arpTip : Nat
  arpHdrSize : Nat
  -- `struct rte_ipv4_hdr`
  ipv4SrcAddr : Nat
  ipv4DstAddr : Nat
  rteEtherTypeIpv4 : UInt16
  rteEtherTypeArp : UInt16
  rteEtherTypeVlan : UInt16
  rteArpHrdEther : UInt16
  rteArpOpRequest : UInt16
  rteArpOpReply : UInt16
  rteCpuToBe16 : UInt16 → UInt16
  /-- From one place of a packet to another. -/
  rteEtherAddrCopy : Frame → Nat → Nat → Except Fault Frame
  rteSpinlockTrylock : Bool → Bool × Bool
  rteSpinlockUnlock : Bool → Bool
  etherDAddr_eq : etherDAddr = 0
  etherSAddr_eq : etherSAddr = 6
  etherTypeAt_eq : etherTypeAt = 12
  etherHdrSize_eq : etherHdrSize = 14
  vlanProto_eq : vlanProto = 2
  vlanHdrSize_eq : vlanHdrSize = 4
  arpHardware_eq : arpHardware = 0
  arpProtocol_eq : arpProtocol = 2
  arpHlen_eq : arpHlen = 4
  arpPlen_eq : arpPlen = 5
  arpOpcode_eq : arpOpcode = 6
  arpSha_eq : arpSha = 8
  arpSip_eq : arpSip = 14
  arpTha_eq : arpTha = 18
  arpTip_eq : arpTip = 24
  arpHdrSize_eq : arpHdrSize = 28
  ipv4SrcAddr_eq : ipv4SrcAddr = 12
  ipv4DstAddr_eq : ipv4DstAddr = 16
  rteEtherTypeIpv4_eq : rteEtherTypeIpv4 = 0x0800
  rteEtherTypeArp_eq : rteEtherTypeArp = 0x0806
  rteEtherTypeVlan_eq : rteEtherTypeVlan = 0x8100
  rteArpHrdEther_eq : rteArpHrdEther = 1
  rteArpOpRequest_eq : rteArpOpRequest = 1
  rteArpOpReply_eq : rteArpOpReply = 2
  /-- In memory the most significant byte comes first. -/
  rteCpuToBe16_bytes : ∀ x, u16Bytes (rteCpuToBe16 x) = BigEndian.bytes 2 x.toNat
  rteEtherAddrCopy_apart : ∀ frame src dst, src + 6 ≤ dst ∨ dst + 6 ≤ src →
    rteEtherAddrCopy frame src dst = frame.copy src dst 6
  /-- An attempt at a lock that is taken fails and changes nothing; otherwise the lock is taken. -/
  rteSpinlockTrylock_free : rteSpinlockTrylock false = (true, true)
  rteSpinlockTrylock_taken : rteSpinlockTrylock true = (false, true)
  rteSpinlockUnlock_eq : ∀ locked, rteSpinlockUnlock locked = false

attribute [simp] Dpdk.etherDAddr_eq Dpdk.etherSAddr_eq Dpdk.etherTypeAt_eq Dpdk.etherHdrSize_eq
  Dpdk.vlanProto_eq Dpdk.vlanHdrSize_eq Dpdk.arpHardware_eq Dpdk.arpProtocol_eq Dpdk.arpHlen_eq
  Dpdk.arpPlen_eq Dpdk.arpOpcode_eq Dpdk.arpSha_eq Dpdk.arpSip_eq Dpdk.arpTha_eq Dpdk.arpTip_eq
  Dpdk.arpHdrSize_eq Dpdk.ipv4SrcAddr_eq Dpdk.ipv4DstAddr_eq

/-! ### An instance -/

theorem swap_toNat (x : UInt16) :
    ((x <<< 8) ||| (x >>> 8)).toNat = x.toNat % 256 * 256 + x.toNat / 256 := by
  have hx := x.toNat_lt
  have hhigh : x.toNat / 256 < 2 ^ 8 := by omega
  have hlow : x.toNat <<< 8 % 65536 = (x.toNat % 256) <<< 8 := by
    rw [Nat.shiftLeft_eq, Nat.shiftLeft_eq]
    omega
  have hor := Nat.shiftLeft_add_eq_or_of_lt hhigh (x.toNat % 256)
  rw [UInt16.toNat_or, UInt16.toNat_shiftLeft, UInt16.toNat_shiftRight]
  change (x.toNat <<< 8 % 65536) ||| (x.toNat >>> 8) = _
  rw [hlow, Nat.shiftRight_eq_div_pow, ← hor, Nat.shiftLeft_eq]

theorem u16Bytes_swap (x : UInt16) :
    u16Bytes ((x <<< 8) ||| (x >>> 8)) = BigEndian.bytes 2 x.toNat := by
  have hx := x.toNat_lt
  rw [u16Bytes, swap_toNat]
  have hdiv : (x.toNat % 256 * 256 + x.toNat / 256) / 256 = x.toNat % 256 := by
    generalize x.toNat % 256 = low
    have hhigh : x.toNat / 256 < 256 := by omega
    omega
  have h1 : UInt8.ofNat (x.toNat % 256 * 256 + x.toNat / 256) = UInt8.ofNat (x.toNat / 256) := by
    apply UInt8.toNat_inj.mp
    rw [UInt8.toNat_ofNat', UInt8.toNat_ofNat']
    omega
  have h2 : UInt8.ofNat ((x.toNat % 256 * 256 + x.toNat / 256) / 256) = UInt8.ofNat x.toNat := by
    apply UInt8.toNat_inj.mp
    rw [UInt8.toNat_ofNat', UInt8.toNat_ofNat', hdiv]
    omega
  simp [BigEndian.bytes, h1, h2]

/-- DPDK as it is on a little-endian host. -/
abbrev Dpdk.littleEndian : Dpdk where
  etherDAddr := 0
  etherSAddr := 6
  etherTypeAt := 12
  etherHdrSize := 14
  vlanProto := 2
  vlanHdrSize := 4
  arpHardware := 0
  arpProtocol := 2
  arpHlen := 4
  arpPlen := 5
  arpOpcode := 6
  arpSha := 8
  arpSip := 14
  arpTha := 18
  arpTip := 24
  arpHdrSize := 28
  ipv4SrcAddr := 12
  ipv4DstAddr := 16
  rteEtherTypeIpv4 := 0x0800
  rteEtherTypeArp := 0x0806
  rteEtherTypeVlan := 0x8100
  rteArpHrdEther := 1
  rteArpOpRequest := 1
  rteArpOpReply := 2
  rteCpuToBe16 x := (x <<< 8) ||| (x >>> 8)
  rteEtherAddrCopy frame src dst := frame.copy src dst 6
  rteSpinlockTrylock locked := (!locked, true)
  rteSpinlockUnlock _ := false
  etherDAddr_eq := rfl
  etherSAddr_eq := rfl
  etherTypeAt_eq := rfl
  etherHdrSize_eq := rfl
  vlanProto_eq := rfl
  vlanHdrSize_eq := rfl
  arpHardware_eq := rfl
  arpProtocol_eq := rfl
  arpHlen_eq := rfl
  arpPlen_eq := rfl
  arpOpcode_eq := rfl
  arpSha_eq := rfl
  arpSip_eq := rfl
  arpTha_eq := rfl
  arpTip_eq := rfl
  arpHdrSize_eq := rfl
  ipv4SrcAddr_eq := rfl
  ipv4DstAddr_eq := rfl
  rteEtherTypeIpv4_eq := rfl
  rteEtherTypeArp_eq := rfl
  rteEtherTypeVlan_eq := rfl
  rteArpHrdEther_eq := rfl
  rteArpOpRequest_eq := rfl
  rteArpOpReply_eq := rfl
  rteCpuToBe16_bytes := u16Bytes_swap
  rteEtherAddrCopy_apart _ _ _ _ := rfl
  rteSpinlockTrylock_free := rfl
  rteSpinlockTrylock_taken := rfl
  rteSpinlockUnlock_eq _ := rfl

end Gittest
