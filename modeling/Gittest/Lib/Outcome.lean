import Mathlib.Init

/-!
# What a fallible computation comes to

`Meets ok err x`: if `x` succeeds its value satisfies `ok`, and if it fails its failure satisfies
`err`. Computations are followed bind by bind.
-/

namespace Outcome

universe u v

variable {ε : Type u} {α β : Type v}

def Meets (ok : α → Prop) (err : ε → Prop) : Except ε α → Prop
  | .ok a => ok a
  | .error e => err e

variable {ok ok' : α → Prop} {next : β → Prop} {err : ε → Prop} {x : Except ε α}

instance [DecidablePred ok] [DecidablePred err] : Decidable (Meets ok err x) :=
  match x with
  | .ok a => inferInstanceAs (Decidable (ok a))
  | .error e => inferInstanceAs (Decidable (err e))

theorem ok_bind (a : α) (f : α → Except ε β) : (Except.ok a >>= f) = f a := rfl

theorem bind_eq_ok {x : Except ε α} {f : α → Except ε β} {b : β} :
    (x >>= f) = .ok b ↔ ∃ a, x = .ok a ∧ f a = .ok b := by
  cases x with
  | ok a =>
    constructor
    · exact fun h => ⟨a, rfl, h⟩
    · rintro ⟨_, ⟨⟩, h⟩
      exact h
  | error e =>
    constructor
    · exact nofun
    · rintro ⟨_, ⟨⟩, _⟩

theorem map_eq_ok {x : Except ε α} {f : α → β} {b : β} :
    x.map f = .ok b ↔ ∃ a, x = .ok a ∧ f a = b := by
  cases x with
  | ok a =>
    constructor
    · exact fun h => ⟨a, rfl, Except.ok.inj h⟩
    · rintro ⟨_, ⟨⟩, h⟩
      exact congrArg Except.ok h
  | error e =>
    constructor
    · exact nofun
    · rintro ⟨_, ⟨⟩, _⟩

theorem Meets.bind {f : α → Except ε β} (hx : Meets ok err x)
    (hf : ∀ a, ok a → Meets next err (f a)) : Meets next err (x >>= f) := by
  cases x with
  | ok a => exact hf a hx
  | error e => exact hx

theorem Meets.run_bind {σ : Type v} {okState : α × σ → Prop} {nextState : β × σ → Prop}
    {x : StateT σ (Except ε) α} {f : α → StateT σ (Except ε) β} {s : σ}
    (hx : Meets okState err (x s)) (hf : ∀ a t, okState (a, t) → Meets nextState err (f a t)) :
    Meets nextState err ((x >>= f) s) := by
  change Meets nextState err (x s >>= fun p => f p.1 p.2)
  exact hx.bind fun p hp => hf p.1 p.2 hp

theorem Meets.mono (hx : Meets ok err x) (hok : ∀ a, ok a → ok' a) : Meets ok' err x := by
  cases x with
  | ok a => exact hok a hx
  | error e => exact hx

theorem Meets.ite {p : Prop} [Decidable p] {y : Except ε α} (hx : p → Meets ok err x)
    (hy : ¬p → Meets ok err y) : Meets ok err (if p then x else y) := by
  split
  · rename_i hp
    exact hx hp
  · rename_i hp
    exact hy hp

/-- Where any failure will do, only what it comes to if it succeeds counts. -/
theorem Meets.of_eq_ok (h : ∀ a, x = .ok a → ok a) : Meets ok (fun _ => True) x := by
  cases x with
  | ok a => exact h a rfl
  | error e => trivial

theorem Meets.exists_ok (hx : Meets ok (fun _ => False) x) : ∃ a, x = .ok a ∧ ok a := by
  cases x with
  | ok a => exact ⟨a, rfl, hx⟩
  | error e => exact hx.elim

theorem Meets.exists_error (hx : Meets (fun _ => False) err x) : ∃ e, x = .error e ∧ err e := by
  cases x with
  | ok a => exact hx.elim
  | error e => exact ⟨e, rfl, hx⟩

theorem Meets.ne_error {e : ε} (hx : Meets ok err x) (herr : ¬err e) : x ≠ .error e := by
  rintro rfl
  exact herr hx

end Outcome
