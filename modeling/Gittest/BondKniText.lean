import Gittest.BondKniFrame
import Gittest.StrIp
import Gittest.XLogText

/-!
# The address that `send` prints

`get_string` prints an address as a dotted quad into a buffer of `INET_ADDRSTRLEN` bytes. The longest
one just fits.
-/

namespace Gittest

open Outcome

def inetAddrstrlen : UInt8 := 16

/-- `%u` of a byte. -/
def octetText (octet : UInt8) : Text := (Nat.toDigits 10 octet.toNat).map Char.toUInt8

/-- `NIPQUAD_FMT`. -/
def nipquad (ip : Ipv4Addr) : Text :=
  octetText (ip.byte 0) ++ ascii "." ++ octetText (ip.byte 1) ++ ascii "." ++ octetText (ip.byte 2)
    ++ ascii "." ++ octetText (ip.byte 3)

/-- `get_string`. -/
def getString (ip : Ipv4Addr) (buf : Buffer) (size : UInt8) : Except Fault Buffer := do
  let (_, buf) ← snprintf buf 0 size.toNat (nipquad ip)
  return buf

/-! ### The groups -/

theorem octetText_octet (octet : UInt8) : Octet (octetText octet) := by
  apply forall_byte (p := fun octet => Octet (octetText octet))
  decide +kernel

theorem decimal_octetText (octet : UInt8) : decimal (octetText octet) = octet.toNat := by
  apply forall_byte (p := fun octet => decimal (octetText octet) = octet.toNat)
  decide +kernel

def nipquadGroups (ip : Ipv4Addr) : List Text := ip.toList.map octetText

section Groups

variable (ip : Ipv4Addr)

theorem nipquad_eq : nipquad ip = List.intercalate [46] (nipquadGroups ip) := by
  obtain ⟨⟨bytes⟩, hbytes⟩ := ip
  match bytes, hbytes with
  | [a, b, c, d], _ =>
    have hdot : ascii "." = [46] := by decide
    simp [nipquad, nipquadGroups, hdot, List.intercalate, Ipv4Addr.byte]

theorem nipquadGroups_length : (nipquadGroups ip).length = 4 := by
  rw [nipquadGroups, List.length_map, Vector.length_toList]

theorem nipquadGroups_octet : ∀ group ∈ nipquadGroups ip, Octet group := by
  intro group hgroup
  obtain ⟨octet, -, rfl⟩ := List.mem_map.mp hgroup
  exact octetText_octet octet

theorem nipquad_dottedQuad : DottedQuad (nipquad ip) :=
  ⟨nipquadGroups ip, nipquadGroups_length ip, nipquadGroups_octet ip, nipquad_eq ip⟩

theorem nipquad_splitOn : (nipquad ip).splitOn 46 = nipquadGroups ip := by
  have hdots : ∀ group ∈ nipquadGroups ip, 46 ∉ group :=
    fun group hgroup => (nipquadGroups_octet ip group hgroup).group.dot_not_mem
  have hne : nipquadGroups ip ≠ [] := by
    intro hnil
    have hfour := nipquadGroups_length ip
    rw [hnil] at hfour
    cases hfour
  rw [nipquad_eq, List.splitOn_intercalate 46 hdots hne]

theorem nipquad_decimal :
    ((nipquad ip).splitOn 46).map decimal = ip.toList.map UInt8.toNat := by
  rw [nipquad_splitOn, nipquadGroups, List.map_map]
  exact List.map_congr_left fun octet _ => decimal_octetText octet

/-- Four groups of at most three digits and three dots. -/
theorem nipquad_length : (nipquad ip).length < inetAddrstrlen.toNat := by
  have hdot : (ascii ".").length = 1 := by decide
  have hthree (octet : UInt8) : (octetText octet).length ≤ 3 := (octetText_octet octet).length.2
  have h0 := hthree (ip.byte 0)
  have h1 := hthree (ip.byte 1)
  have h2 := hthree (ip.byte 2)
  have h3 := hthree (ip.byte 3)
  change _ < 16
  simp only [nipquad, List.length_append, hdot]
  omega

theorem nipquad_noNul : 0 ∉ nipquad ip := by
  intro hmem
  have hchars (octet : UInt8) : 0 ∉ octetText octet :=
    fun hzero => absurd ((octetText_octet octet).digits 0 hzero) (by decide)
  have hdot : 0 ∉ ascii "." := by decide
  simp only [nipquad, List.mem_append] at hmem
  rcases hmem with (((((h | h) | h) | h) | h) | h) | h
  all_goals first | exact hdot h | exact hchars _ h

end Groups

/-! ### The buffer -/

/-- A text that fits is stored whole, with its terminator, in front of what the buffer held. -/
theorem snprintf_whole {buf : Buffer} {size : Nat} {text : Text} (hroom : text.length < size)
    (hsize : size ≤ buf.length) (hint : text.length ≤ intMax) :
    snprintf buf 0 size text
      = .ok (text.length, (text ++ [0]).map some ++ buf.drop (text.length + 1)) := by
  have hprinted : printed size text = (text ++ [0]).map some := by
    rw [printed_of_pos (by omega), List.take_of_length_le (by omega), List.map_append]
    rfl
  have hlength : (printed size text).length = text.length + 1 := by
    rw [hprinted, List.length_map, List.length_append]
    rfl
  have hcopy : memcpy buf (printed size text) (printed size text).length
      = .ok (printed size text ++ buf.drop (printed size text).length) := by
    rw [memcpy_ok (Int.natCast_nonneg _) (by omega) le_rfl, Int.toNat_natCast, List.take_length]
  unfold snprintf
  rw [if_neg (by omega), if_neg (by omega)]
  change (memcpy buf (printed size text) (printed size text).length >>= _) = _
  rw [hcopy, hlength, hprinted]
  rfl

/-- What `is_str_ip` collects of a dotted quad are its groups. -/
theorem isStrIp_of_dottedQuad {s : CString} (hquad : DottedQuad s.chars) :
    isStrIp s.array = .ok 0 := by
  obtain ⟨hfour, hoctets⟩ := dottedQuad_iff.mp hquad
  have hgroups : ∀ group ∈ s.chars.splitOn 46, Group group :=
    fun group hgroup => (hoctets group hgroup).group
  have hpasses : Passes (s.chars.splitOn 46) := ⟨Nat.le_of_eq hfour, hgroups⟩
  have hscan := isStrIpScan_eq [] [] 0 s.noNul (fun _ hmem => nomatch hmem) group_nil (by decide)
    ⟨by decide, by decide⟩
  change isStrIpScan s.array 0 0 0 (table [[]]) = .ok (if Passes (s.chars.splitOn 46) then
    some (table (s.chars.splitOn 46)) else none) at hscan
  have hrows : table (s.chars.splitOn 46) = (s.chars.splitOn 46).map row := by
    rw [table, hfour, Nat.sub_self, List.replicate_zero, List.append_nil]
  unfold isStrIp
  change (isStrIpScan s.array 0 0 0 (table [[]]) >>= _) = _
  rw [hscan, if_pos hpasses, hrows]
  change isStrIpCheck 0 ((s.chars.splitOn 46).map row) 0 = _
  rw [isStrIpCheck_eq hgroups, if_pos hoctets]

/-- The text of an address. -/
def nipquadString (ip : Ipv4Addr) : CString := ⟨nipquad ip, nipquad_noNul ip⟩

/-- Whatever the buffer held, the whole address is in it, `is_str_ip` takes it for one, and the
numbers between its dots are the bytes of the address. -/
theorem getString_reads_back (ip : Ipv4Addr) (buf : Buffer)
    (hroom : inetAddrstrlen.toNat ≤ buf.length) :
    ∃ (text : CString) (rest : Buffer),
      getString ip buf inetAddrstrlen = .ok (text.array.map some ++ rest)
      ∧ (text.array.map some ++ rest).length = buf.length
      ∧ isStrIp text.array = .ok 0
      ∧ (text.chars.splitOn 46).map decimal = ip.toList.map UInt8.toNat := by
  have hshort := nipquad_length ip
  have hint : (nipquad ip).length ≤ intMax := by
    change _ < 16 at hshort
    simp only [intMax]
    omega
  refine ⟨nipquadString ip, buf.drop ((nipquad ip).length + 1), ?_, ?_, ?_, nipquad_decimal ip⟩
  · unfold getString
    rw [snprintf_whole hshort hroom hint]
    rfl
  · change ((nipquad ip ++ [0]).map some ++ _).length = _
    rw [List.length_append, List.length_map, List.length_append, List.length_drop,
      List.length_singleton]
    omega
  · exact isStrIp_of_dottedQuad (nipquad_dottedQuad ip)

/-- The longest address, in a buffer that nothing wrote before. -/
theorem getString_reads_back_longest :
    ∃ (text : CString) (rest : Buffer),
      getString #v[255, 255, 255, 255] (List.replicate 16 none) inetAddrstrlen
        = .ok (text.array.map some ++ rest)
      ∧ (text.array.map some ++ rest).length = (List.replicate 16 (none : Byte)).length
      ∧ isStrIp text.array = .ok 0
      ∧ (text.chars.splitOn 46).map decimal
        = (#v[255, 255, 255, 255] : Ipv4Addr).toList.map UInt8.toNat :=
  getString_reads_back #v[255, 255, 255, 255] (List.replicate 16 none) (by decide)

end Gittest
