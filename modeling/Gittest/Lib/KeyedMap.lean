import Mathlib.Data.List.Nodup
import Mathlib.Data.Set.Card
import Mathlib.Logic.Function.Basic

/-!
# Finite maps on classes of keys

Keys count up to an equivalence. A list of entries represents a partial function on the classes of
keys if no two entries have keys of one class and the function has the values of the entries. The
order of the entries does not matter, so an operation on the list is described by what it adds,
replaces or removes at the front of a rearrangement.
-/

namespace KeyedMap

variable {K V : Type*} {r : Setoid K}

def classOf (r : Setoid K) (entry : K × V) : Quotient r := Quotient.mk r entry.1

structure Represents (r : Setoid K) (entries : List (K × V)) (M : Quotient r → Option V) : Prop where
  distinct : (entries.map (classOf r)).Nodup
  value_iff : ∀ c v, M c = some v ↔ ∃ entry ∈ entries, classOf r entry = c ∧ entry.2 = v

namespace Represents

variable {entries entries' : List (K × V)} {M : Quotient r → Option V} {k : K} {v w : V}

theorem nil : Represents r ([] : List (K × V)) fun _ => none where
  distinct := List.nodup_nil
  value_iff := by simp

theorem perm (hperm : entries.Perm entries') (hrep : Represents r entries M) :
    Represents r entries' M where
  distinct := (hperm.map _).nodup_iff.mp hrep.distinct
  value_iff := by
    intro c v
    rw [hrep.value_iff]
    simp only [hperm.mem_iff]

theorem value_of_mem (hrep : Represents r entries M) {entry : K × V} (hmem : entry ∈ entries) :
    M (classOf r entry) = some entry.2 :=
  (hrep.value_iff _ _).mpr ⟨entry, hmem, rfl, rfl⟩

theorem none_iff (hrep : Represents r entries M) (c : Quotient r) :
    M c = none ↔ c ∉ entries.map (classOf r) := by
  constructor
  · intro hnone hmem
    obtain ⟨entry, hentry, rfl⟩ := List.mem_map.mp hmem
    rw [hrep.value_of_mem hentry] at hnone
    cases hnone
  · intro hnot
    cases hvalue : M c with
    | none => rfl
    | some v =>
        obtain ⟨entry, hentry, hclass, _⟩ := (hrep.value_iff c v).mp hvalue
        exact absurd (List.mem_map.mpr ⟨entry, hentry, hclass⟩) hnot

theorem isSome_iff (hrep : Represents r entries M) (c : Quotient r) :
    (M c).isSome ↔ c ∈ entries.map (classOf r) := by
  rw [← not_iff_not, ← hrep.none_iff]
  simp

theorem ncard_eq (hrep : Represents r entries M) :
    {c | (M c).isSome}.ncard = entries.length := by
  classical
  have hset : {c | (M c).isSome} = ((entries.map (classOf r)).toFinset : Set (Quotient r)) := by
    ext c
    rw [Set.mem_ofPred_eq, Finset.mem_coe, List.mem_toFinset, hrep.isSome_iff]
  rw [hset, Set.ncard_coe_finset, List.toFinset_card_of_nodup hrep.distinct, List.length_map]

theorem length_le (hrep : Represents r entries M) {cs : List (Quotient r)} (hnodup : cs.Nodup)
    (hsome : ∀ c ∈ cs, (M c).isSome) : cs.length ≤ entries.length := by
  have hsub : cs ⊆ entries.map (classOf r) := fun c hc => (hrep.isSome_iff c).mp (hsome c hc)
  have hle := (hnodup.subperm hsub).length_le
  rwa [List.length_map] at hle

variable [DecidableEq (Quotient r)]

theorem insert (hrep : Represents r entries M) (hnone : M (Quotient.mk r k) = none) :
    Represents r ((k, v) :: entries) (Function.update M (Quotient.mk r k) (some v)) where
  distinct := by
    rw [List.map_cons, List.nodup_cons]
    exact ⟨(hrep.none_iff _).mp hnone, hrep.distinct⟩
  value_iff := by
    intro c w
    by_cases hc : c = Quotient.mk r k
    · subst hc
      rw [Function.update_self]
      constructor
      · intro hvalue
        cases hvalue
        exact ⟨(k, v), List.mem_cons_self .., rfl, rfl⟩
      · rintro ⟨entry, hmem, hclass, rfl⟩
        rcases List.mem_cons.mp hmem with rfl | hold
        · rfl
        · exact absurd (List.mem_map.mpr ⟨entry, hold, hclass⟩) ((hrep.none_iff _).mp hnone)
    · rw [Function.update_of_ne hc, hrep.value_iff]
      constructor
      · rintro ⟨entry, hmem, hentry⟩
        exact ⟨entry, List.mem_cons_of_mem _ hmem, hentry⟩
      · rintro ⟨entry, hmem, hclass, hv⟩
        rcases List.mem_cons.mp hmem with rfl | hold
        · exact absurd hclass.symm hc
        · exact ⟨entry, hold, hclass, hv⟩

theorem erase (hrep : Represents r ((k, v) :: entries) M) :
    Represents r entries (Function.update M (Quotient.mk r k) none) where
  distinct := hrep.distinct.of_cons
  value_iff := by
    have hnot : Quotient.mk r k ∉ entries.map (classOf r) :=
      (List.nodup_cons.mp hrep.distinct).1
    intro c w
    by_cases hc : c = Quotient.mk r k
    · subst hc
      rw [Function.update_self]
      constructor
      · intro hvalue
        cases hvalue
      · rintro ⟨entry, hmem, hclass, _⟩
        exact absurd (List.mem_map.mpr ⟨entry, hmem, hclass⟩) hnot
    · rw [Function.update_of_ne hc, hrep.value_iff]
      constructor
      · rintro ⟨entry, hmem, hclass, hv⟩
        rcases List.mem_cons.mp hmem with rfl | hold
        · exact absurd hclass.symm hc
        · exact ⟨entry, hold, hclass, hv⟩
      · rintro ⟨entry, hmem, hentry⟩
        exact ⟨entry, List.mem_cons_of_mem _ hmem, hentry⟩

theorem replace (hrep : Represents r ((k, v) :: entries) M) :
    Represents r ((k, w) :: entries) (Function.update M (Quotient.mk r k) (some w)) := by
  have herased := hrep.erase
  have hinserted := herased.insert (k := k) (v := w) (Function.update_self _ _ _)
  rwa [Function.update_idem] at hinserted

end Represents

end KeyedMap
