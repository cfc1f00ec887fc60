import Gittest.Proof.XRingCreate

/-!
# Powers of two

`roundup_power_of_two` finds the least power of two that is not below its argument, as long as an
`unsigned long` has room for it. The sizes of the rings are such powers, so that an index is cut back
to the ring by a mask.
-/

namespace Gittest

/-- The search comes to its end and nothing is lost in the last shift. -/
theorem roundupPowerOfTwo_isLeast {n : UInt64} (hpos : 1 ≤ n.toNat) (hle : n.toNat ≤ 2 ^ 63) :
    ∃ p, roundupPowerOfTwo n = .ok p ∧ IsLeast {q : Nat | (∃ k, q = 2 ^ k) ∧ n.toNat ≤ q} p.toNat := by
  obtain ⟨p, hround, hval⟩ := roundupPowerOfTwo_eq (Nat.one_le_iff_ne_zero.mp hpos)
  have hclog : Nat.clog 2 n.toNat ≤ 63 := Nat.clog_le_of_le_pow hle
  have hfits : 2 ^ Nat.clog 2 n.toNat < 2 ^ 64 :=
    calc 2 ^ Nat.clog 2 n.toNat ≤ 2 ^ 63 := Nat.pow_le_pow_right (by decide) hclog
      _ < 2 ^ 64 := Nat.pow_lt_pow_right (by decide) (by decide)
  refine ⟨p, hround, ?_⟩
  rw [hval, Nat.mod_eq_of_lt hfits]
  exact isLeast_two_pow_clog n.toNat

/-- The size that a count is rounded to, and the mask of the ring made with it. -/
theorem roundedCount_mask {count : UInt32} (hpos : 1 ≤ count.toNat) (hle : count.toNat ≤ 2 ^ 31) :
    ∃ size, roundedCount count = .ok size ∧ size.toNat = ringSize count ∧
      (∀ i : UInt32, (i &&& (size - 1)).toNat = i.toNat % size.toNat) ∧
      ∀ garbage ringbufSize r, xRingCreate garbage count ringbufSize = .ok r →
        r.size = size ∧ r.mask = size - 1 := by
  obtain ⟨size, hround, hval⟩ := roundedCount_ok hpos hle
  have hmask : Mask (newRing (fun _ => 0) 0 size).mask (ringSize count) := mask_newRing hle hval
  refine ⟨size, hround, hval, fun i => ?_, fun garbage ringbufSize r hmade => ?_⟩
  · rw [hval]
    exact hmask.and_toNat i
  · obtain ⟨_, size', rfl, hval'⟩ := made_in_range hmade hpos hle
    obtain rfl : size' = size := UInt32.toNat_inj.mp (hval'.trans hval.symm)
    exact ⟨rfl, rfl⟩

/-- **Rounding up.** `is_power_of_2` knows the powers of two; a number is rounded up to the least of them
that is not below it; and the size of a ring is one, so that its mask takes an index modulo the size. -/
theorem roundupPowerOfTwo_exact :
    (∀ n, isPowerOf2 n = true ↔ ∃ k, n.toNat = 2 ^ k) ∧
    (∀ n : UInt64, 1 ≤ n.toNat → n.toNat ≤ 2 ^ 63 → ∃ p, roundupPowerOfTwo n = .ok p ∧
      IsLeast {q : Nat | (∃ k, q = 2 ^ k) ∧ n.toNat ≤ q} p.toNat) ∧
    ∀ count : UInt32, 1 ≤ count.toNat → count.toNat ≤ 2 ^ 31 → ∃ size, roundedCount count = .ok size ∧
      IsLeast {q : Nat | (∃ k, q = 2 ^ k) ∧ count.toNat ≤ q} size.toNat ∧
      (∀ i : UInt32, (i &&& (size - 1)).toNat = i.toNat % size.toNat) ∧
      ∀ garbage ringbufSize r, xRingCreate garbage count ringbufSize = .ok r →
        r.size = size ∧ r.mask = size - 1 := by
  refine ⟨isPowerOf2_iff, fun n hpos hle => roundupPowerOfTwo_isLeast hpos hle, ?_⟩
  intro count hpos hle
  obtain ⟨size, hround, hval, hmask, hmade⟩ := roundedCount_mask hpos hle
  refine ⟨size, hround, ?_, hmask, hmade⟩
  rw [hval]
  exact isLeast_ringSize count

/-- Up to the top bit, and for a ring for six. -/
theorem roundupPowerOfTwo_exact_top :
    (∃ p, roundupPowerOfTwo 9223372036854775807 = .ok p ∧
      IsLeast {q : Nat | (∃ k, q = 2 ^ k) ∧ (9223372036854775807 : UInt64).toNat ≤ q} p.toNat) ∧
    ∃ size, roundedCount 6 = .ok size ∧ ∀ i : UInt32, (i &&& (size - 1)).toNat = i.toNat % size.toNat := by
  obtain ⟨_, hround, hcount⟩ := roundupPowerOfTwo_exact
  obtain ⟨size, hsize, _, hmask, _⟩ := hcount 6 (by decide) (by decide)
  exact ⟨hround 9223372036854775807 (by decide) (by decide), size, hsize, hmask⟩

end Gittest
