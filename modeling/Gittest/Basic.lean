import Mathlib.Data.List.Basic

/-!
# Bytes, buffers and faults

What every part of the model shares: memory a call may leave undefined, and the buffers that
`malloc` hands out and `memcpy` fills. `int` and `size_t` arguments of these two are integers; the
code never computes with them, it only compares and passes them on.
-/

namespace Gittest

/-- What ends a call without a result: behaviour the language leaves undefined, or a loop that runs
for ever. -/
inductive Fault where
  | outOfBounds
  | overrun
  | negativeSize
  | nullPointer
  | deadBlock
  | uninitialised
  | signedOverflow
  | divisionByZero
  | diverges
  deriving DecidableEq, Repr

def intMax : Int := 2147483647

def intMin : Int := -2147483648

/-- A byte of memory; `none` is one that nothing has written since `malloc`. -/
abbrev Byte := Option UInt8

/-- A buffer. Its length is its capacity, the argument of the `malloc` that made it. -/
abbrev Buffer := List Byte

/-- `malloc` of a data buffer. A negative `int` turns into a `size_t` that no block has. -/
def malloc (size : Int) : Except Fault Buffer :=
  if size < 0 then .error .negativeSize else .ok (List.replicate size.toNat none)

def memcpy (dst src : Buffer) (n : Int) : Except Fault Buffer :=
  if 0 ≤ n ∧ n ≤ dst.length ∧ n ≤ src.length then
    .ok (src.take n.toNat ++ dst.drop n.toNat)
  else
    .error .overrun

theorem mem_with {α : Type*} {x : α} {front back : List α} (hmem : x ∈ front ++ back) (y : α) :
    x ∈ front ++ y :: back :=
  ((List.Sublist.refl _).middle y).subset hmem

theorem malloc_ok {size : Int} (hsize : 0 ≤ size) :
    malloc size = .ok (List.replicate size.toNat none) := by
  rw [malloc, if_neg (by omega)]

theorem memcpy_ok {dst src : Buffer} {n : Int} (hn : 0 ≤ n) (hdst : n ≤ dst.length)
    (hsrc : n ≤ src.length) :
    memcpy dst src n = .ok (src.take n.toNat ++ dst.drop n.toNat) :=
  if_pos ⟨hn, hdst, hsrc⟩

theorem memcpy_eq_ok {dst src out : Buffer} {n : Int} (hcopy : memcpy dst src n = .ok out) :
    0 ≤ n ∧ n ≤ dst.length ∧ n ≤ src.length ∧ out = src.take n.toNat ++ dst.drop n.toNat := by
  unfold memcpy at hcopy
  split at hcopy
  · rename_i hfits
    exact ⟨hfits.1, hfits.2.1, hfits.2.2, (Except.ok.inj hcopy).symm⟩
  · cases hcopy

theorem memcpy_length {dst src out : Buffer} {n : Int} (hcopy : memcpy dst src n = .ok out) :
    out.length = dst.length := by
  obtain ⟨_, hdst, hsrc, rfl⟩ := memcpy_eq_ok hcopy
  rw [List.length_append, List.length_take, List.length_drop]
  omega

theorem memcpy_take {dst src out : Buffer} {n : Int} (hcopy : memcpy dst src n = .ok out) :
    out.take n.toNat = src.take n.toNat := by
  obtain ⟨_, _, hsrc, rfl⟩ := memcpy_eq_ok hcopy
  rw [List.take_append_of_le_length (by rw [List.length_take]; omega), List.take_take,
    Nat.min_self]

end Gittest
