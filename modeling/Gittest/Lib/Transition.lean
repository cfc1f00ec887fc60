import Mathlib.Algebra.GroupWithZero.Nat
import Mathlib.Data.List.Basic

/-!
# Runs of a transition system

A system is a partial step function: `step s a` is the state that action `a` leads to from `s`, and
`none` where `a` is not enabled. A run is a list of actions. What one step preserves, a whole run
preserves; where a step preserves it only under a guard, the run does so as long as every step it
takes meets the guard.
-/

namespace Transition

variable {σ α : Type*} (step : σ → α → Option σ)

/-- The state a list of actions leads to; `none` where one of them is not enabled. -/
def run : σ → List α → Option σ
  | s, [] => some s
  | s, a :: as => (step s a).bind fun s' => run s' as

/-- Every step the run takes meets the guard in the state it is taken from. -/
def Along (guard : σ → α → Prop) : σ → List α → Prop
  | _, [] => True
  | s, a :: as => ∀ s', step s a = some s' → guard s a ∧ Along guard s' as

/-- The property holds in every state the run visits, the first and the last included. -/
def Throughout (good : σ → Prop) : σ → List α → Prop
  | s, [] => good s
  | s, a :: as => good s ∧ ∀ s', step s a = some s' → Throughout good s' as

variable {step}

instance decidableAlong {guard : σ → α → Prop} [∀ s a, Decidable (guard s a)] :
    ∀ s as, Decidable (Along step guard s as)
  | _, [] => isTrue trivial
  | s, a :: as =>
      match hstep : step s a with
      | none => isTrue fun _ hnext => by rw [hstep] at hnext; cases hnext
      | some t =>
          have : Decidable (Along step guard t as) := decidableAlong t as
          decidable_of_iff (guard s a ∧ Along step guard t as) <| by
            simp only [Along, hstep, Option.some.injEq, forall_eq']

@[simp]
theorem run_nil (s : σ) : run step s [] = some s := rfl

theorem run_cons (s : σ) (a : α) (as : List α) :
    run step s (a :: as) = (step s a).bind fun s' => run step s' as := rfl

theorem run_cons_eq_some {s s' : σ} {a : α} {as : List α} :
    run step s (a :: as) = some s' ↔ ∃ t, step s a = some t ∧ run step t as = some s' := by
  simp [run_cons, Option.bind_eq_some_iff]

theorem run_append (s : σ) (as bs : List α) :
    run step s (as ++ bs) = (run step s as).bind fun s' => run step s' bs := by
  induction as generalizing s with
  | nil => rfl
  | cons a as ih =>
      rw [List.cons_append, run_cons, run_cons]
      cases step s a with
      | none => rfl
      | some t => exact ih t

theorem run_concat_eq_some {s s' : σ} {as : List α} {a : α} :
    run step s (as ++ [a]) = some s' ↔ ∃ t, run step s as = some t ∧ step t a = some s' := by
  rw [run_append, Option.bind_eq_some_iff]
  simp [run_cons_eq_some]

/-- **The invariant rule.** What every step preserves holds at the end of every run. -/
theorem run_invariant {inv : σ → Prop}
    (hstep : ∀ s a s', inv s → step s a = some s' → inv s')
    {s s' : σ} {as : List α} (hinit : inv s) (hrun : run step s as = some s') : inv s' := by
  induction as generalizing s with
  | nil =>
      rw [run_nil, Option.some.injEq] at hrun
      exact hrun ▸ hinit
  | cons a as ih =>
      obtain ⟨t, ht, hrest⟩ := run_cons_eq_some.mp hrun
      exact ih (hstep s a t hinit ht) hrest

/-- **The progress rule.** Where an action is enabled in every state that is not done, and leads to
one of a smaller measure, repeating it leads to a state that is. -/
theorem run_until {inv done : σ → Prop} {a : α} (measure : σ → Nat)
    (hstep : ∀ s, inv s → ¬done s → ∃ t, step s a = some t ∧ inv t ∧ measure t < measure s)
    {s : σ} (hinit : inv s) : ∃ n t, run step s (List.replicate n a) = some t ∧ inv t ∧ done t := by
  induction hrank : measure s using Nat.strongRecOn generalizing s with
  | ind rank ih =>
      by_cases hdone : done s
      · exact ⟨0, s, rfl, hinit, hdone⟩
      · obtain ⟨t, ht, hinv, hless⟩ := hstep s hinit hdone
        obtain ⟨n, t', hrun, hend⟩ := ih (measure t) (hrank ▸ hless) hinv rfl
        refine ⟨n + 1, t', ?_, hend⟩
        rw [List.replicate_succ]
        exact run_cons_eq_some.mpr ⟨t, ht, hrun⟩

/-- **The descent rule.** Where in every state that is not done one of the chosen actions lowers the
measure, some of them lead to a state that is. -/
theorem exists_run_done {inv done : σ → Prop} {chosen : α → Prop} (measure : σ → Nat)
    (hstep : ∀ s, inv s → ¬done s →
      ∃ a t, chosen a ∧ step s a = some t ∧ inv t ∧ measure t < measure s)
    {s : σ} (hinit : inv s) :
    ∃ as t, (∀ a ∈ as, chosen a) ∧ run step s as = some t ∧ inv t ∧ done t := by
  induction hrank : measure s using Nat.strongRecOn generalizing s with
  | ind rank ih =>
      by_cases hdone : done s
      · exact ⟨[], s, nofun, rfl, hinit, hdone⟩
      · obtain ⟨a, s', hchosen, hs', hinv, hless⟩ := hstep s hinit hdone
        obtain ⟨as, t, hall, hrun, hend⟩ := ih (measure s') (hrank ▸ hless) hinv rfl
        exact ⟨a :: as, t, List.forall_mem_cons.mpr ⟨hchosen, hall⟩,
          run_cons_eq_some.mpr ⟨s', hs', hrun⟩, hend⟩

section Guarded

variable {inv good : σ → Prop} {guard : σ → α → Prop}

theorem along_of_forall (hguard : ∀ s a, guard s a) {s : σ} {as : List α} :
    Along step guard s as := by
  induction as generalizing s with
  | nil => trivial
  | cons a as ih => exact fun _ _ => ⟨hguard s a, ih⟩

/-- **The guarded invariant rule.** Where a step preserves the invariant only under a guard, a run
whose steps all meet the guard stays inside what the invariant implies. -/
theorem throughout_of_along
    (hstep : ∀ s a s', inv s → guard s a → step s a = some s' → inv s')
    (hgood : ∀ s, inv s → good s)
    {s : σ} {as : List α} (hinit : inv s) (halong : Along step guard s as) :
    Throughout step good s as := by
  induction as generalizing s with
  | nil => exact hgood s hinit
  | cons a as ih =>
      refine ⟨hgood s hinit, fun t ht => ?_⟩
      obtain ⟨hguard, hrest⟩ := halong t ht
      exact ih (hstep s a t hinit hguard ht) hrest

/-- What every step that meets the guard preserves holds at the end of every run along it. -/
theorem run_of_along (hstep : ∀ s a s', inv s → guard s a → step s a = some s' → inv s')
    {s s' : σ} {as : List α} (hinit : inv s) (halong : Along step guard s as)
    (hrun : run step s as = some s') : inv s' := by
  induction as generalizing s with
  | nil =>
      rw [run_nil, Option.some.injEq] at hrun
      exact hrun ▸ hinit
  | cons a as ih =>
      obtain ⟨t, ht, hrest⟩ := run_cons_eq_some.mp hrun
      obtain ⟨hguard, halong⟩ := halong t ht
      exact ih (hstep s a t hinit hguard ht) halong hrest

/-- The converse: where a step that breaks the guard leaves the good states at once, a run that
stays in them meets the guard at every step. -/
theorem along_of_throughout
    (hstep : ∀ s a s', inv s → guard s a → step s a = some s' → inv s')
    (hbreak : ∀ s a s', inv s → ¬guard s a → step s a = some s' → ¬good s')
    {s : σ} {as : List α} (hinit : inv s) (hgood : Throughout step good s as) :
    Along step guard s as := by
  induction as generalizing s with
  | nil => trivial
  | cons a as ih =>
      intro t ht
      have hrest := hgood.2 t ht
      have hnow : good t := by
        cases as with
        | nil => exact hrest
        | cons => exact hrest.1
      have hguard : guard s a := by
        by_contra hnot
        exact hbreak s a t hinit hnot ht hnow
      exact ⟨hguard, ih (hstep s a t hinit hguard ht) hrest⟩

end Guarded

end Transition
