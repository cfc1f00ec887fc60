import Mathlib.Data.Nat.ModEq
import Mathlib.Algebra.Order.Ring.Nat

/-!
# Masked 32-bit indices

An index kept modulo a power of two: adding one, and taking the distance of two indices, are done in
32-bit arithmetic and then masked with the size minus one. `Mask m size` says that `m` is such a
mask; under it the 32-bit operations are the ones on natural numbers modulo the size.
-/

/-- The mask of a power of two that a 32-bit index can range below. -/
structure Mask (m : UInt32) (size : Nat) : Prop where
  isPow : ∃ k, k ≤ 31 ∧ size = 2 ^ k
  toNat : m.toNat = size - 1

namespace Mask

variable {m : UInt32} {size : Nat}

theorem pos (hmask : Mask m size) : 0 < size := by
  obtain ⟨k, _, rfl⟩ := hmask.isPow
  exact Nat.two_pow_pos k

theorem dvd (hmask : Mask m size) : size ∣ 2 ^ 32 := by
  obtain ⟨k, hk, rfl⟩ := hmask.isPow
  exact Nat.pow_dvd_pow 2 (by omega)

theorem and_toNat (hmask : Mask m size) (x : UInt32) : (x &&& m).toNat = x.toNat % size := by
  obtain ⟨k, _, rfl⟩ := hmask.isPow
  rw [UInt32.toNat_and, hmask.toNat, Nat.and_two_pow_sub_one_eq_mod]

/-- 32-bit addition wraps at a multiple of the size. -/
theorem add_modEq (hmask : Mask m size) (x y : UInt32) :
    (x + y).toNat ≡ x.toNat + y.toNat [MOD size] := by
  rw [UInt32.toNat_add]
  exact (Nat.mod_modEq _ _).of_dvd hmask.dvd

theorem succ_toNat (hmask : Mask m size) {x : UInt32} {n : Nat} (hx : x.toNat = n % size) :
    ((x + 1) &&& m).toNat = (n + 1) % size := by
  rw [hmask.and_toNat]
  calc (x + 1).toNat % size = (x.toNat + 1) % size := hmask.add_modEq x 1
    _ = (n + 1) % size := by rw [hx, Nat.mod_add_mod]

theorem sub_toNat (hmask : Mask m size) {x y : UInt32} {a b : Nat} (hx : x.toNat = a % size)
    (hy : y.toNat = b % size) (hle : b ≤ a) (hlt : a - b < size) :
    ((x - y) &&& m).toNat = a - b := by
  have hcong : (x - y).toNat ≡ a - b [MOD size] := by
    apply Nat.ModEq.add_right_cancel' b
    calc (x - y).toNat + b
        ≡ (x - y).toNat + y.toNat [MOD size] :=
          Nat.ModEq.add_left _ (by rw [hy]; exact (Nat.mod_modEq b size).symm)
      _ ≡ x.toNat [MOD size] := by
          simpa only [UInt32.sub_add_cancel] using (hmask.add_modEq (x - y) y).symm
      _ ≡ a [MOD size] := by rw [hx]; exact Nat.mod_modEq a size
      _ = a - b + b := by omega
  rw [hmask.and_toNat, hcong, Nat.mod_eq_of_lt hlt]

theorem room_toNat (hmask : Mask m size) {x y : UInt32} {a b : Nat} (hx : x.toNat = a % size)
    (hy : y.toNat = b % size) (hle : b ≤ a) (hlt : a - b < size) :
    ((y - x - 1) &&& m).toNat = size - 1 - (a - b) := by
  have hcong : (y - x - 1).toNat ≡ size - 1 - (a - b) [MOD size] := by
    refine Nat.ModEq.add_right_cancel' (1 + a) ?_
    calc (y - x - 1).toNat + (1 + a)
        ≡ (y - x - 1).toNat + 1 + x.toNat [MOD size] := by
          rw [← Nat.add_assoc, hx]
          exact Nat.ModEq.add_left _ (Nat.mod_modEq a size).symm
      _ ≡ (y - x).toNat + x.toNat [MOD size] := by
          have hback := hmask.add_modEq (y - x - 1) 1
          rw [UInt32.sub_add_cancel] at hback
          exact hback.symm.add_right x.toNat
      _ ≡ y.toNat [MOD size] := by
          simpa only [UInt32.sub_add_cancel] using (hmask.add_modEq (y - x) x).symm
      _ ≡ b [MOD size] := by rw [hy]; exact Nat.mod_modEq b size
      _ ≡ b + size [MOD size] := by simp [Nat.ModEq]
      _ = size - 1 - (a - b) + (1 + a) := by omega
  have hpos := hmask.pos
  rw [hmask.and_toNat, hcong, Nat.mod_eq_of_lt (by omega)]

end Mask

/-- Numbers less than one lap apart are told apart by their remainders. -/
theorem Nat.mod_eq_mod_iff_of_lap {size a b : Nat} (hle : b ≤ a) (hlt : a - b < size) :
    a % size = b % size ↔ a = b := by
  constructor
  · intro heq
    have hdvd : size ∣ a - b := (Nat.modEq_iff_dvd' hle).mp heq.symm
    have := Nat.eq_zero_of_dvd_of_lt hdvd hlt
    omega
  · exact fun heq => heq ▸ rfl

theorem Nat.mod_ne_mod_of_lap {size a b : Nat} (hlt : b < a) (hlap : a < b + size) :
    b % size ≠ a % size := by
  intro heq
  exact hlt.ne' ((Nat.mod_eq_mod_iff_of_lap hlt.le (by omega)).mp heq.symm)
