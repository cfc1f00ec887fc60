import Mathlib.Data.Finset.Erase
import Mathlib.Data.Finset.Insert
import Mathlib.Logic.Function.Basic
import Mathlib.Tactic.ByCases

/-!
# Who holds which block

A block that is live belongs to the surroundings, or to one place of a structure and to no other:
`Owns held base live`, where `held p` is the block at place `p`, if there is one, and `base` are the
blocks of the surroundings. Giving up a block and filling a place with a new one keep it so.
-/

namespace Ledger

variable {P A : Type*}

structure Owns (held : P → Option A) (base live : Finset A) : Prop where
  apart : ∀ p q a, held p = some a → held q = some a → p = q
  outside : ∀ p a, held p = some a → a ∉ base
  live_iff : ∀ a, a ∈ live ↔ a ∈ base ∨ ∃ p, held p = some a

namespace Owns

variable {held held' : P → Option A} {base live live' : Finset A} {p : P} {a : A}

theorem mem_live (howns : Owns held base live) (hp : held p = some a) : a ∈ live :=
  (howns.live_iff a).mpr (Or.inr ⟨p, hp⟩)

theorem not_held (howns : Owns held base live) (ha : a ∉ live) (p : P) : held p ≠ some a :=
  fun hp => ha (howns.mem_live hp)

theorem congr (howns : Owns held base live) (hheld : ∀ p, held' p = held p) : Owns held' base live := by
  obtain rfl : held' = held := funext hheld
  exact howns

variable [DecidableEq P]

/-- A place that held nothing is filled with a block that was not live. -/
theorem acquire [DecidableEq A] (howns : Owns held base live) (hp : held p = none) (ha : a ∉ live) :
    Owns (Function.update held p (some a)) base (insert a live) := by
  have hold : ∀ q b, Function.update held p (some a) q = some b → q = p ∧ b = a ∨ held q = some b := by
    intro q b hq
    by_cases hqp : q = p
    · rw [hqp, Function.update_self, Option.some.injEq] at hq
      exact Or.inl ⟨hqp, hq.symm⟩
    · rw [Function.update_of_ne hqp] at hq
      exact Or.inr hq
  constructor
  case apart =>
    intro q r b hq hr
    rcases hold q b hq with ⟨rfl, rfl⟩ | hq <;> rcases hold r _ hr with ⟨hrp, hba⟩ | hr
    · exact hrp.symm
    · exact absurd hr (howns.not_held ha r)
    · exact absurd (hba ▸ hq) (howns.not_held ha q)
    · exact howns.apart q r b hq hr
  case outside =>
    intro q b hq hbase
    rcases hold q b hq with ⟨-, rfl⟩ | hq
    · exact ha ((howns.live_iff b).mpr (Or.inl hbase))
    · exact howns.outside q b hq hbase
  case live_iff =>
    intro b
    rw [Finset.mem_insert, howns.live_iff b]
    constructor
    · rintro (rfl | hbase | ⟨q, hq⟩)
      · exact Or.inr ⟨p, Function.update_self ..⟩
      · exact Or.inl hbase
      · refine Or.inr ⟨q, ?_⟩
        have hqp : q ≠ p := fun h => by rw [h, hp] at hq; cases hq
        rwa [Function.update_of_ne hqp]
    · rintro (hbase | ⟨q, hq⟩)
      · exact Or.inr (Or.inl hbase)
      · rcases hold q b hq with ⟨-, rfl⟩ | hq
        · exact Or.inl rfl
        · exact Or.inr (Or.inr ⟨q, hq⟩)

/-- A place gives up its block. -/
theorem release [DecidableEq A] (howns : Owns held base live) (hp : held p = some a) :
    Owns (Function.update held p none) base (live.erase a) := by
  have hold : ∀ q b, Function.update held p none q = some b ↔ q ≠ p ∧ held q = some b := by
    intro q b
    by_cases hqp : q = p
    · simp [hqp]
    · simp [hqp]
  constructor
  case apart =>
    intro q r b hq hr
    exact howns.apart q r b ((hold q b).mp hq).2 ((hold r b).mp hr).2
  case outside =>
    intro q b hq
    exact howns.outside q b ((hold q b).mp hq).2
  case live_iff =>
    intro b
    rw [Finset.mem_erase, howns.live_iff b]
    constructor
    · rintro ⟨hba, hbase | ⟨q, hq⟩⟩
      · exact Or.inl hbase
      · refine Or.inr ⟨q, (hold q b).mpr ⟨?_, hq⟩⟩
        rintro rfl
        rw [hp, Option.some.injEq] at hq
        exact hba hq.symm
    · rintro (hbase | ⟨q, hq⟩)
      · refine ⟨?_, Or.inl hbase⟩
        rintro rfl
        exact howns.outside p b hp hbase
      · obtain ⟨hqp, hq⟩ := (hold q b).mp hq
        refine ⟨?_, Or.inr ⟨q, hq⟩⟩
        rintro rfl
        exact hqp (howns.apart q p b hq hp)

end Owns

end Ledger
