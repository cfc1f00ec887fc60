import Mathlib.Data.Nat.Digits.Lemmas

/-!
# Numbers as big-endian bytes

Strings of bytes read as numbers, the highest digit first, and what adding to the lowest limb of such
a number carries into the rest.
-/

namespace BigEndian

def value (bytes : List UInt8) : Nat :=
  Nat.ofDigits 256 (bytes.reverse.map UInt8.toNat)

/-- The number in `size` bytes of a string, the first of them at `offset`. -/
def field (data : List UInt8) (offset size : Nat) : Nat := value ((data.drop offset).take size)

/-- The lowest `size` digits of a number. -/
def bytes : Nat → Nat → List UInt8
  | 0, _ => []
  | size + 1, number => bytes size (number / 256) ++ [UInt8.ofNat number]

theorem value_append (high low : List UInt8) :
    value (high ++ low) = value high * 256 ^ low.length + value low := by
  unfold value
  rw [List.reverse_append, List.map_append, Nat.ofDigits_append, List.length_map,
    List.length_reverse]
  ring

theorem value_singleton (digit : UInt8) : value [digit] = digit.toNat := Nat.ofDigits_singleton

theorem value_lt (digits : List UInt8) : value digits < 256 ^ digits.length := by
  have hdigits : ∀ d ∈ digits.reverse.map UInt8.toNat, d < 256 := by
    intro d hd
    obtain ⟨digit, _, rfl⟩ := List.mem_map.mp hd
    exact digit.toNat_lt
  have hlt := Nat.ofDigits_lt_base_pow_length (by omega) hdigits
  rwa [List.length_map, List.length_reverse] at hlt

theorem field_lt (data : List UInt8) (offset size : Nat) :
    field data offset size < 256 ^ size := by
  calc field data offset size < 256 ^ ((data.drop offset).take size).length := value_lt _
    _ ≤ 256 ^ size := Nat.pow_le_pow_right (by omega) (List.length_take_le _ _)

/-- A number is the only one that its digits, and their number, are read from. -/
theorem bytes_value (digits : List UInt8) : bytes digits.length (value digits) = digits := by
  induction digits using List.reverseRecOn with
  | nil => rfl
  | append_singleton high digit ih =>
    have hvalue : value (high ++ [digit]) = value high * 256 + digit.toNat := by
      rw [value_append, value_singleton, List.length_singleton, pow_one]
    have hdigit := digit.toNat_lt
    have hhigh : (value high * 256 + digit.toNat) / 256 = value high := by omega
    have hlow : UInt8.ofNat (value high * 256 + digit.toNat) = digit := by
      apply UInt8.toNat_inj.mp
      rw [UInt8.toNat_ofNat']
      omega
    rw [List.length_append, List.length_singleton, bytes, hvalue, hhigh, hlow, ih]

theorem value_bytes (size number : Nat) : value (bytes size number) = number % 256 ^ size := by
  induction size generalizing number with
  | zero => rw [pow_zero, Nat.mod_one]; rfl
  | succ size ih =>
    rw [bytes, value_append, ih, value_singleton, List.length_singleton, pow_one, pow_succ',
      Nat.mod_mul, UInt8.toNat_ofNat', Nat.mul_comm, Nat.add_comm]

/-- Adding to the lowest limb leaves its remainder there and carries its quotient. -/
theorem add_limb (high low n base modulus : Int) (hbase : 0 < base) (hmodulus : 0 < modulus) :
    (high * base + low + n) % (modulus * base)
      = (high + (low + n) / base) % modulus * base + (low + n) % base := by
  have hlow := Int.emod_add_mul_ediv (low + n) base
  have hlow0 := Int.emod_nonneg (low + n) hbase.ne'
  have hlowlt := Int.emod_lt_of_pos (low + n) hbase
  have hhigh := Int.emod_add_mul_ediv (high + (low + n) / base) modulus
  have hhigh0 := Int.emod_nonneg (high + (low + n) / base) hmodulus.ne'
  have hhighlt := Int.emod_lt_of_pos (high + (low + n) / base) hmodulus
  generalize (low + n) / base = carry at *
  generalize (low + n) % base = limb at *
  generalize (high + carry) / modulus = wraps at *
  generalize (high + carry) % modulus = rest at *
  have hsum : high * base + low + n = rest * base + limb + modulus * base * wraps := by
    calc high * base + low + n = high * base + (limb + base * carry) := by rw [hlow]; ring
      _ = (high + carry) * base + limb := by ring
      _ = rest * base + limb + modulus * base * wraps := by rw [← hhigh]; ring
  rw [hsum, Int.add_mul_emod_self_left]
  apply Int.emod_eq_of_lt
  · positivity
  · calc rest * base + limb < rest * base + base := by omega
      _ = (rest + 1) * base := by ring
      _ ≤ modulus * base := Int.mul_le_mul_of_nonneg_right (by omega) hbase.le

end BigEndian
