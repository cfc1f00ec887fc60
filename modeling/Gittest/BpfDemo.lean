import Gittest.Lib.Bpf
import Gittest.Lib.Mask

/-!
# A packet filter for a range of ports

The program that `init_filter` attaches to a socket whose packets begin with the IPv4 header, and the
packets that it lets through.
-/

namespace Gittest

open Bpf

/-! ### The program -/

def codeTcp : List SockFilter :=
  [{ code := 0x30, jt := 0, jf := 0, k := 0x00000009 },
   { code := 0x15, jt := 0, jf := 7, k := 0x00000006 },
   { code := 0x28, jt := 0, jf := 0, k := 0x00000006 },
   { code := 0x45, jt := 5, jf := 0, k := 0x00001fff },
   { code := 0xb1, jt := 0, jf := 0, k := 0x00000000 },
   { code := 0x48, jt := 0, jf := 0, k := 0x00000002 },
   { code := 0x35, jt := 0, jf := 2, k := 0x00000064 },
   { code := 0x25, jt := 1, jf := 0, k := 0x000000c8 },
   { code := 0x6, jt := 0, jf := 0, k := 0x00040000 },
   { code := 0x6, jt := 0, jf := 0, k := 0x00000000 }]

/-- The filter of the socket afterwards. Without one the process has exited. The ports are not used:
what would put them into the program is commented out. -/
def initFilter (_port _port2 : Int) : Option Filter := attach codeTcp

/-! ### The packets that it is for -/

/-- In bytes. -/
def headerLength (packet : List UInt8) : Nat := 4 * (BigEndian.field packet 0 1 % 16)

def destPort (packet : List UInt8) : Nat := BigEndian.field packet (headerLength packet + 2) 2

structure FirstOfTcp (packet : List UInt8) : Prop where
  length : 10 ≤ packet.length
  protocol : BigEndian.field packet 9 1 = 6
  fragmentOffset : BigEndian.field packet 6 2 % 2 ^ 13 = 0

/-- The ports of the TCP header are within the packet and the destination is in the range. -/
structure ToPorts (low high : Nat) (packet : List UInt8) : Prop where
  length : headerLength packet + 4 ≤ packet.length
  low : low ≤ destPort packet
  high : destPort packet ≤ high

/-! ### Running it -/

/-- The program as instructions. -/
def codeTcpInsns : List Insn :=
  [.ldAbs .byte 9, .jump .jeq (.k 6) 0 7, .ldAbs .half 6, .jump .jset (.k 0x1fff) 5 0, .ldxMsh 0,
   .ldInd .half 2, .jump .jge (.k 100) 0 2, .jump .jgt (.k 200) 1 0, .retK 0x40000, .retK 0]

section Blocks

variable {packet : List UInt8} {s : State} {P : Prop}

theorem decides_reject (hpc : s.pc = 9) (hnot : ¬P) : Decides codeTcpInsns packet s P :=
  Decides.ret hpc rfl rfl (iff_of_false (not_not.mpr rfl) hnot)

theorem decides_accept (hpc : s.pc = 8) (hholds : P) : Decides codeTcpInsns packet s P :=
  Decides.ret hpc rfl rfl (iff_of_true (by decide) hholds)

/-- From the port in the accumulator. -/
theorem decides_range (hpc : s.pc = 6) :
    Decides codeTcpInsns packet s (100 ≤ s.a.toNat ∧ s.a.toNat ≤ 200) := by
  apply Decides.jump hpc rfl
  · intro hlow
    have hpc' : (s.jumpTo 0).pc = 7 := by rw [State.jumpTo, hpc]
    have hlow' : 100 ≤ s.a.toNat := UInt32.le_iff_toNat_le.mp hlow
    apply Decides.jump hpc' rfl
    · intro hhigh
      have hhigh' : 200 < s.a.toNat := UInt32.lt_iff_toNat_lt.mp hhigh
      exact decides_reject (by rw [State.jumpTo, hpc']) (by omega)
    · intro hhigh
      have hhigh' : ¬200 < s.a.toNat := fun hlt => hhigh (UInt32.lt_iff_toNat_lt.mpr hlt)
      exact decides_accept (by rw [State.jumpTo, hpc']) ⟨hlow', by omega⟩
  · intro hlow
    have hlow' : ¬100 ≤ s.a.toNat := fun hle => hlow (UInt32.le_iff_toNat_le.mpr hle)
    exact decides_reject (by rw [State.jumpTo, hpc]) (by omega)

/-- The index register counts the words of the header in bytes. -/
theorem four_times_low_nibble (v : UInt32) : (4 * (v &&& 0xf)).toNat = 4 * (v.toNat % 16) := by
  have hmask : Mask 0xf 16 := ⟨⟨4, by decide, rfl⟩, rfl⟩
  rw [UInt32.toNat_mul, hmask.and_toNat]
  apply Nat.mod_eq_of_lt
  have hlt : v.toNat % 16 < 16 := Nat.mod_lt _ (by decide)
  calc 4 * (v.toNat % 16) < 4 * 16 := by omega
    _ < 2 ^ 32 := by decide

/-- From the first byte of the packet, which is there. -/
theorem decides_ports (hpc : s.pc = 4) (hpos : 0 < packet.length) :
    Decides codeTcpInsns packet s (ToPorts 100 200 packet) := by
  apply Decides.load hpc rfl rfl
  case hbeyond => exact fun hbeyond => absurd hbeyond (Nat.not_lt.mpr hpos)
  intro v _ hv
  have hx : (4 * (v &&& 0xf)).toNat = headerLength packet := by
    rw [four_times_low_nibble, hv]
    rfl
  have hoffset : (4 * (v &&& 0xf) + 2).toNat = headerLength packet + 2 := by
    rw [UInt32.toNat_add, hx]
    apply Nat.mod_eq_of_lt
    calc headerLength packet + 2 < 64 := by
          unfold headerLength
          omega
      _ < 2 ^ 32 := by decide
  have hpc' : (s.setX (4 * (v &&& 0xf))).pc = 5 := by rw [State.setX, hpc]
  apply Decides.load hpc' rfl rfl
  · intro port hfits hport
    rw [State.setX, hoffset] at hfits hport
    have hpc'' : ((s.setX (4 * (v &&& 0xf))).setA port).pc = 6 := by rw [State.setA, hpc']
    have hport' : port.toNat = destPort packet := hport
    refine (decides_range hpc'').congr ⟨?_, ?_⟩
    · rintro ⟨hlow, hhigh⟩
      exact ⟨hfits, hport' ▸ hlow, hport' ▸ hhigh⟩
    · intro hports
      exact ⟨hport'.symm ▸ hports.low, hport'.symm ▸ hports.high⟩
  · intro hbeyond hports
    rw [State.setX, hoffset] at hbeyond
    exact absurd hports.length (Nat.not_le.mpr hbeyond)

/-- From the start of the program. -/
theorem decides_packet :
    Decides codeTcpInsns packet State.start (FirstOfTcp packet ∧ ToPorts 100 200 packet) := by
  apply Decides.load rfl rfl rfl
  case hbeyond => exact fun hbeyond hpacket => absurd hpacket.1.length (Nat.not_le.mpr hbeyond)
  intro protocol hfits hprotocol
  have hlength : 10 ≤ packet.length := hfits
  apply Decides.jump rfl rfl
  case helse =>
    intro hother
    apply decides_reject rfl
    rintro ⟨hfirst, -⟩
    exact hother (UInt32.toNat_inj.mp (hprotocol.trans hfirst.protocol))
  intro htcp
  have hprotocol' : BigEndian.field packet 9 1 = 6 := hprotocol.symm.trans (congrArg _ htcp)
  apply Decides.load rfl rfl rfl
  case hbeyond =>
    intro hbeyond
    have hbeyond' : packet.length < 8 := hbeyond
    omega
  intro offset _ hoffset
  have hmask : Mask 0x1fff (2 ^ 13) := ⟨⟨13, by decide, rfl⟩, rfl⟩
  have hbits : (offset &&& 0x1fff).toNat = BigEndian.field packet 6 2 % 2 ^ 13 := by
    rw [hmask.and_toNat, hoffset]
    rfl
  apply Decides.jump rfl rfl
  · intro hlater
    apply decides_reject rfl
    rintro ⟨hfirst, -⟩
    exact hlater (UInt32.toNat_inj.mp (hbits.trans hfirst.fragmentOffset))
  · intro hfirst
    have hzero : offset &&& 0x1fff = 0 := not_not.mp hfirst
    have hfragment : BigEndian.field packet 6 2 % 2 ^ 13 = 0 := by
      rw [← hbits, hzero]
      rfl
    refine (decides_ports rfl (by omega)).congr ⟨?_, And.right⟩
    exact fun hports => ⟨⟨hlength, hprotocol', hfragment⟩, hports⟩

end Blocks

/-- The kernel takes the program. -/
theorem initFilter_eq (port port2 : Int) :
    ∃ filter, initFilter port port2 = some filter ∧ filter.code = codeTcpInsns :=
  ⟨⟨codeTcpInsns, by decide, by decide⟩, rfl, rfl⟩

/-- **The filter.** Whatever ports `init_filter` is called with, its program ends on every packet, and
accepts the first fragments of TCP to the ports from 100 to 200. -/
theorem initFilter_accepts (port port2 : Int) :
    ∃ filter, initFilter port port2 = some filter ∧ ∀ packet,
      Ends filter.code packet State.start (filter.run packet) ∧
      (filter.run packet ≠ 0 ↔ FirstOfTcp packet ∧ ToPorts 100 200 packet) := by
  obtain ⟨filter, hattached, hcode⟩ := initFilter_eq port port2
  refine ⟨filter, hattached, fun packet => ⟨filter.ends packet, ?_⟩⟩
  apply Filter.run_iff
  rw [hcode]
  exact decides_packet

end Gittest
