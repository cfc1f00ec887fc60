import Gittest.XRing
import Gittest.Lib.Mask
import Mathlib.Data.Nat.Bitwise
import Mathlib.Data.Nat.Log
import Mathlib.Order.Bounds.Basic

/-!
# The ring that `x_ring_create` makes

For a count between 1 and 2^31 the size is the least power of two that is not below it. The count 0
and the counts above 2^31 give size 0: the first is returned by the rounding as it stands, the others
round up to 2^32 and lose that bit in the conversion to 32 bits.
-/

namespace Gittest

theorem isPowerOf2_iff (n : UInt64) : isPowerOf2 n = true ↔ ∃ k, n.toNat = 2 ^ k := by
  rw [isPowerOf2, Bool.and_eq_true, bne_iff_ne, beq_iff_eq]
  by_cases hzero : n = 0
  · subst hzero
    simp only [ne_eq, not_true_eq_false, false_and, false_iff, not_exists]
    exact fun k hk => (Nat.two_pow_pos k).ne hk
  · have hne : n.toNat ≠ 0 := fun h => hzero (UInt64.toNat_inj.mp h)
    have hpred : (n - 1).toNat = n.toNat - 1 :=
      UInt64.toNat_sub_of_le n 1 (by
        rw [UInt64.le_iff_toNat_le]
        exact Nat.one_le_iff_ne_zero.mpr hne)
    rw [← UInt64.toNat_inj, UInt64.toNat_and, hpred]
    simp only [ne_eq, hzero, not_false_eq_true, true_and]
    exact Nat.and_sub_one_eq_zero_iff_isPowerOfTwo hne

theorem and_pred_eq_zero_iff {n : UInt64} (hne : n ≠ 0) :
    n &&& (n - 1) = 0 ↔ ∃ k, n.toNat = 2 ^ k := by
  rw [← isPowerOf2_iff, isPowerOf2, Bool.and_eq_true, bne_iff_ne, beq_iff_eq]
  exact ⟨fun h => ⟨hne, h⟩, fun h => h.2⟩

/-- The search stops at the highest bit of `n`, which it meets on its way down from bit `bit`. -/
theorem roundupSearch_eq {n : UInt64} (hne : n.toNat ≠ 0) :
    ∀ (bit rounds : Nat) (andv : UInt64), andv.toNat = 2 ^ bit → n.toNat < 2 ^ (bit + 1) →
      bit < rounds →
      ∃ top, roundupSearch n rounds andv = .ok top ∧ top.toNat = 2 ^ Nat.log 2 n.toNat := by
  intro bit
  induction bit with
  | zero =>
      intro rounds andv handv hlt hrounds
      obtain ⟨rounds, rfl⟩ : ∃ m, rounds = m + 1 := ⟨rounds - 1, by omega⟩
      have hone : n.toNat = 1 := by
        rw [zero_add, pow_one] at hlt
        omega
      have hmeet : andv &&& n ≠ 0 := by
        rw [Ne, ← UInt64.toNat_inj, UInt64.toNat_and, handv, hone]
        decide
      refine ⟨andv, by rw [roundupSearch, if_neg hmeet], ?_⟩
      rw [handv, hone, Nat.log_one_right]
  | succ bit ih =>
      intro rounds andv handv hlt hrounds
      obtain ⟨rounds, rfl⟩ : ∃ m, rounds = m + 1 := ⟨rounds - 1, by omega⟩
      have hand : (andv &&& n).toNat = (n.toNat.testBit (bit + 1)).toNat * 2 ^ (bit + 1) := by
        rw [UInt64.toNat_and, handv, Nat.and_comm, Nat.and_two_pow]
      by_cases hle : 2 ^ (bit + 1) ≤ n.toNat
      · have hlog : Nat.log 2 n.toNat = bit + 1 :=
          (Nat.log_eq_iff (Or.inr ⟨by decide, hne⟩)).mpr ⟨hle, hlt⟩
        have hbit : n.toNat.testBit (bit + 1) = true := by
          rw [← hlog, ← Nat.log2_eq_log_two]
          exact Nat.testBit_log2 hne
        have hmeet : andv &&& n ≠ 0 := by
          rw [Ne, ← UInt64.toNat_inj, hand, hbit]
          simp
        exact ⟨andv, by rw [roundupSearch, if_neg hmeet], by rw [handv, hlog]⟩
      · have hbit : n.toNat.testBit (bit + 1) = false := Nat.testBit_lt_two_pow (by omega)
        have hmiss : andv &&& n = 0 := by
          rw [← UInt64.toNat_inj, hand, hbit]
          simp
        rw [roundupSearch, if_pos hmiss]
        refine ih rounds (andv >>> 1) ?_ (by omega) (by omega)
        rw [UInt64.toNat_shiftRight, handv]
        change 2 ^ (bit + 1) >>> 1 = 2 ^ bit
        rw [Nat.shiftRight_one, pow_succ, Nat.mul_div_cancel _ (by decide)]

/-- **Rounding up.** A nonzero `n` is rounded to the least power of two not below it, less the bit
that an `unsigned long` has no room for. -/
theorem roundupPowerOfTwo_eq {n : UInt64} (hne : n.toNat ≠ 0) :
    ∃ p, roundupPowerOfTwo n = .ok p ∧ p.toNat = 2 ^ Nat.clog 2 n.toNat % 2 ^ 64 := by
  have hzero : n ≠ 0 := fun h => hne (by rw [h]; rfl)
  by_cases hpow : n &&& (n - 1) = 0
  · obtain ⟨k, hk⟩ := (and_pred_eq_zero_iff hzero).mp hpow
    refine ⟨n, by rw [roundupPowerOfTwo, if_pos hpow], ?_⟩
    rw [hk, Nat.clog_pow 2 k (by decide), ← hk]
    exact (Nat.mod_eq_of_lt n.toNat_lt).symm
  · obtain ⟨top, hsearch, htop⟩ := roundupSearch_eq hne 63 64
      (~~~((~~~0 : UInt64) &&& ((~~~0 : UInt64) >>> 1))) (by decide) n.toNat_lt (by decide)
    refine ⟨top <<< 1, ?_, ?_⟩
    · rw [roundupPowerOfTwo, if_neg hpow]
      simp only [hsearch]
      rfl
    · have hlog : 2 ^ Nat.log 2 n.toNat ≤ n.toNat := Nat.pow_log_le_self 2 hne
      have hlt : n.toNat < 2 ^ (Nat.log 2 n.toNat + 1) := Nat.lt_pow_succ_log_self (by decide) _
      have hstrict : 2 ^ Nat.log 2 n.toNat ≠ n.toNat := by
        intro heq
        exact hpow ((and_pred_eq_zero_iff hzero).mpr ⟨_, heq.symm⟩)
      have hclog : Nat.clog 2 n.toNat = Nat.log 2 n.toNat + 1 := by
        apply Nat.le_antisymm
        · exact Nat.clog_le_of_le_pow hlt.le
        · exact (Nat.lt_clog_iff_pow_lt (by decide)).mpr (lt_of_le_of_ne hlog hstrict)
      rw [UInt64.toNat_shiftLeft, htop, hclog]
      change 2 ^ Nat.log 2 n.toNat <<< 1 % 2 ^ 64 = _
      rw [Nat.shiftLeft_eq, pow_one, ← pow_succ]

theorem isLeast_two_pow_clog (n : Nat) :
    IsLeast {p : Nat | (∃ k, p = 2 ^ k) ∧ n ≤ p} (2 ^ Nat.clog 2 n) := by
  refine ⟨⟨⟨_, rfl⟩, Nat.le_pow_clog (by decide) _⟩, ?_⟩
  rintro p ⟨⟨k, rfl⟩, hle⟩
  exact Nat.pow_le_pow_right (by decide) (Nat.clog_le_of_le_pow hle)

/-- The size of the ring made for a count: the least power of two not below it. -/
def ringSize (count : UInt32) : Nat := 2 ^ Nat.clog 2 count.toNat

theorem isLeast_ringSize (count : UInt32) :
    IsLeast {p : Nat | (∃ k, p = 2 ^ k) ∧ count.toNat ≤ p} (ringSize count) :=
  isLeast_two_pow_clog count.toNat

def newEntries (garbage : Nat → Int) (ringbufSize : Int) (size : Nat) : List XRingEntry :=
  (List.range size).map fun i =>
    ⟨ringbufSize, garbage i, List.replicate ringbufSize.toNat none⟩

/-- The header and the entries of a new ring of a given 32-bit size. -/
def newRing (garbage : Nat → Int) (ringbufSize : Int) (size : UInt32) : XRing where
  prodHead := 0
  prodTail := 0
  consHead := 0
  consTail := 0
  size := size
  mask := size - 1
  ring := newEntries garbage ringbufSize size.toNat

variable {garbage : Nat → Int} {count : UInt32} {ringbufSize : Int}

theorem xRingCreate_eq_newRing (hsize : 0 ≤ ringbufSize) {size : UInt32}
    (hround : roundedCount count = .ok size) :
    xRingCreate garbage count ringbufSize = .ok (newRing garbage ringbufSize size) := by
  have hentries : ((List.range size.toNat).mapM fun i =>
      (pure ⟨ringbufSize, garbage i, List.replicate ringbufSize.toNat none⟩ :
        Except Fault XRingEntry)) = pure (newEntries garbage ringbufSize size.toNat) :=
    List.mapM_pure
  rw [xRingCreate, hround, malloc_ok hsize]
  exact congrArg (· >>= fun ring => pure { newRing garbage ringbufSize size with ring := ring })
    hentries

theorem roundedCount_ok (hpos : 1 ≤ count.toNat) (hle : count.toNat ≤ 2 ^ 31) :
    ∃ size, roundedCount count = .ok size ∧ size.toNat = ringSize count := by
  have hclog : Nat.clog 2 count.toNat ≤ 31 := Nat.clog_le_of_le_pow hle
  have hbound : 2 ^ Nat.clog 2 count.toNat ≤ 2 ^ 31 := Nat.pow_le_pow_right (by decide) hclog
  by_cases hpow : isPowerOf2 count.toUInt64 = true
  · refine ⟨count, by rw [roundedCount, if_pos hpow], ?_⟩
    obtain ⟨k, hk⟩ := (isPowerOf2_iff _).mp hpow
    rw [UInt32.toNat_toUInt64] at hk
    rw [ringSize, hk, Nat.clog_pow 2 k (by decide)]
  · obtain ⟨p, hp, hval⟩ := roundupPowerOfTwo_eq (show count.toUInt64.toNat ≠ 0 by
      rw [UInt32.toNat_toUInt64]
      omega)
    refine ⟨p.toUInt32, ?_, ?_⟩
    · rw [roundedCount, if_neg hpow, hp]
      rfl
    · rw [UInt64.toNat_toUInt32, hval, UInt32.toNat_toUInt64, ringSize,
        Nat.mod_eq_of_lt (hbound.trans_lt (by decide)),
        Nat.mod_eq_of_lt (hbound.trans_lt (by decide))]

def ringOfTwo : XRing where
  prodHead := 0
  prodTail := 0
  consHead := 0
  consTail := 0
  size := 2
  mask := 1
  ring := List.replicate 2 ⟨4, 0, List.replicate 4 none⟩

theorem xRingCreate_two : xRingCreate (fun _ => 0) 2 4 = .ok ringOfTwo := by decide +kernel

/-- A ring of a count in range has the size it should have; its buffers have a size that `malloc`
accepts, since there is at least one of them. -/
theorem made_in_range {r : XRing} (hmade : xRingCreate garbage count ringbufSize = .ok r)
    (hpos : 1 ≤ count.toNat) (hle : count.toNat ≤ 2 ^ 31) :
    0 ≤ ringbufSize ∧
      ∃ size, r = newRing garbage ringbufSize size ∧ size.toNat = ringSize count := by
  obtain ⟨size, hround, hval⟩ := roundedCount_ok hpos hle
  by_cases hsize : 0 ≤ ringbufSize
  · rw [xRingCreate_eq_newRing hsize hround] at hmade
    cases hmade
    exact ⟨hsize, size, rfl, hval⟩
  · obtain ⟨n, hn⟩ : ∃ n, size.toNat = n + 1 :=
      Nat.exists_eq_succ_of_ne_zero (by rw [hval]; exact (Nat.two_pow_pos _).ne')
    have hmalloc : malloc ringbufSize = .error .negativeSize := if_pos (by omega)
    have hentries : ((List.range size.toNat).mapM fun i => do
        let data ← malloc ringbufSize
        (pure ⟨ringbufSize, garbage i, data⟩ : Except Fault XRingEntry))
          = .error .negativeSize := by
      rw [hn, List.range_succ_eq_map, List.mapM_cons, hmalloc]
      rfl
    have hfail : xRingCreate garbage count ringbufSize = .error .negativeSize := by
      rw [xRingCreate, hround]
      exact congrArg
        (· >>= fun ring => pure { newRing garbage ringbufSize size with ring := ring }) hentries
    rw [hfail] at hmade
    cases hmade

/-- A count out of range gives a ring that says it has size 0 and has no entries. -/
theorem xRingCreate_of_not_inRange (hsize : 0 ≤ ringbufSize)
    (hrange : ¬(1 ≤ count.toNat ∧ count.toNat ≤ 2 ^ 31)) :
    xRingCreate garbage count ringbufSize = .ok (newRing garbage ringbufSize 0) := by
  by_cases hzero : count = 0
  · subst hzero
    exact xRingCreate_eq_newRing hsize (by decide)
  · have hne : count.toNat ≠ 0 := fun h => hzero (UInt32.toNat_inj.mp h)
    have hlt : count.toNat < 2 ^ 32 := count.toNat_lt
    have hclog : Nat.clog 2 count.toNat = 32 := by
      apply Nat.le_antisymm
      · exact Nat.clog_le_of_le_pow hlt.le
      · exact (Nat.lt_clog_iff_pow_lt (by decide)).mpr (by omega)
    have hpow : ¬isPowerOf2 count.toUInt64 = true := by
      rw [isPowerOf2_iff, UInt32.toNat_toUInt64]
      rintro ⟨k, hk⟩
      rw [hk, Nat.clog_pow 2 k (by decide)] at hclog
      rw [hclog] at hk
      omega
    obtain ⟨p, hp, hval⟩ := roundupPowerOfTwo_eq (show count.toUInt64.toNat ≠ 0 by
      rw [UInt32.toNat_toUInt64]
      omega)
    apply xRingCreate_eq_newRing hsize
    rw [roundedCount, if_neg hpow, hp]
    refine congrArg Except.ok (UInt32.toNat_inj.mp ?_)
    rw [UInt64.toNat_toUInt32, hval, UInt32.toNat_toUInt64, hclog]
    rfl

theorem mask_newRing {size : UInt32} (hle : count.toNat ≤ 2 ^ 31)
    (hval : size.toNat = ringSize count) :
    Mask (newRing garbage ringbufSize size).mask (ringSize count) := by
  refine ⟨⟨_, Nat.clog_le_of_le_pow hle, rfl⟩, ?_⟩
  change (size - 1).toNat = _
  rw [← hval]
  apply UInt32.toNat_sub_of_le size 1
  rw [UInt32.le_iff_toNat_le, hval]
  exact Nat.two_pow_pos _

end Gittest
