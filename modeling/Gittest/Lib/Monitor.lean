import Mathlib.Algebra.BigOperators.Fin
import Mathlib.Algebra.Order.BigOperators.Group.Finset

/-!
# Threads around a mutex

`Guards lock inside`: the thread that owns the mutex is the one that is inside, and a thread acquires
the mutex as it goes in and releases it as it comes out. `tally weight pc` adds up a weight over the
threads; a step of one thread changes it by the difference of two weights.
-/

namespace Monitor

/-! ### Ownership -/

section Ownership

variable {T : Type*} {lock : Option T} {inside inside' : T → Prop} {t u : T}

def Guards (lock : Option T) (inside : T → Prop) : Prop := ∀ t, inside t ↔ lock = some t

namespace Guards

theorem not_inside (hguards : Guards none inside) (t : T) : ¬inside t := by
  rw [hguards t]
  exact nofun

theorem acquire (hguards : Guards none inside) (hself : inside' t)
    (hothers : ∀ u, u ≠ t → (inside' u ↔ inside u)) : Guards (some t) inside' := by
  intro u
  by_cases hut : u = t
  · rw [hut]
    exact ⟨fun _ => rfl, fun _ => hself⟩
  · rw [hothers u hut, hguards u]
    exact ⟨fun h => (nomatch h), fun h => absurd (Option.some.inj h).symm hut⟩

theorem release (hguards : Guards (some t) inside) (hself : ¬inside' t)
    (hothers : ∀ u, u ≠ t → (inside' u ↔ inside u)) : Guards none inside' := by
  intro u
  by_cases hut : u = t
  · rw [hut]
    exact ⟨fun h => absurd h hself, fun h => (nomatch h)⟩
  · rw [hothers u hut, hguards u]
    exact ⟨fun h => absurd (Option.some.inj h).symm hut, fun h => (nomatch h)⟩

theorem keep (hguards : Guards lock inside) (hall : ∀ u, inside' u ↔ inside u) :
    Guards lock inside' :=
  fun u => (hall u).trans (hguards u)

end Guards

end Ownership

/-! ### Counting threads -/

section Counting

variable {W β : Type*} [Fintype W] {weight : β → ℕ} {f g : W → β}

def tally (weight : β → ℕ) (f : W → β) : ℕ := ∑ w, weight (f w)

theorem tally_lt (hle : ∀ w, weight (f w) ≤ weight (g w)) {w : W} (hlt : weight (f w) < weight (g w)) :
    tally weight f < tally weight g :=
  Finset.sum_lt_sum (fun w _ => hle w) ⟨w, Finset.mem_univ w, hlt⟩

theorem tally_update [DecidableEq W] (f : W → β) (w : W) (b : β) :
    tally weight (Function.update f w b) + weight (f w) = tally weight f + weight b := by
  have hupdate : ∀ b, tally weight (Function.update f w b)
      = weight b + ∑ v ∈ Finset.univ.erase w, weight (f v) := by
    intro b
    rw [tally, ← Finset.add_sum_erase _ _ (Finset.mem_univ w), Function.update_self]
    congr 1
    apply Finset.sum_congr rfl
    intro v hv
    rw [Function.update_of_ne (Finset.ne_of_mem_erase hv)]
  have hself := hupdate (f w)
  rw [Function.update_eq_self] at hself
  rw [hupdate b, hself]
  omega

theorem tally_eq_card {p : β → Bool} (hweight : ∀ w, weight (f w) = if p (f w) then 1 else 0) :
    tally weight f = (Finset.univ.filter fun w => p (f w)).card := by
  rw [Finset.card_filter, tally]
  exact Finset.sum_congr rfl fun w _ => hweight w

end Counting

end Monitor
