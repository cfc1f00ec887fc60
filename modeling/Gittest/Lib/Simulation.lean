import Gittest.Lib.Outcome

/-!
# Simulation of fallible state passing

A computation on states follows one on abstract states: it fails where that one fails, in the same
way, and where that one returns it returns too, with an abstract state that is that of its own.
-/

namespace Outcome

universe u v

variable {ε : Type u} {S T β γ β' γ' : Type v}

/-- `x` follows `y`, and the results and the state that `x` leaves are as `rel` says. -/
def Simulates (abs : S → T) (rel : β → γ → S → Prop) (x : Except ε (β × S))
    (y : Except ε (γ × T)) : Prop :=
  match y with
  | .ok (c, t) => ∃ b s, x = .ok (b, s) ∧ abs s = t ∧ rel b c s
  | .error e => x = .error e

namespace Simulates

variable {abs : S → T} {rel : β → γ → S → Prop} {rel' : β' → γ' → S → Prop} {s : S}

theorem pure_pure {b : β} {c : γ} (hrel : rel b c s) :
    Simulates abs rel ((pure b : StateT S (Except ε) β) s)
      ((pure c : StateT T (Except ε) γ) (abs s)) :=
  ⟨b, s, rfl, rfl, hrel⟩

theorem mono {rel' : β → γ → S → Prop} {x : Except ε (β × S)} {y : Except ε (γ × T)}
    (hx : Simulates abs rel x y) (hrel : ∀ b c s, rel b c s → rel' b c s) :
    Simulates abs rel' x y := by
  match y, hx with
  | .error e, hx => exact hx
  | .ok (c, t), ⟨b, s, hrun, habs, hb⟩ => exact ⟨b, s, hrun, habs, hrel b c s hb⟩

/-- Computations are followed bind by bind. -/
theorem bind {x : StateT S (Except ε) β} {y : StateT T (Except ε) γ}
    {f : β → StateT S (Except ε) β'} {g : γ → StateT T (Except ε) γ'} {t : T}
    (hx : Simulates abs rel (x s) (y t))
    (hf : ∀ b c s, rel b c s → Simulates abs rel' (f b s) (g c (abs s))) :
    Simulates abs rel' ((x >>= f) s) ((y >>= g) t) := by
  change Simulates abs rel' (x s >>= fun p => f p.1 p.2) (y t >>= fun p => g p.1 p.2)
  cases hy : y t with
  | error e =>
      rw [hy] at hx
      have hrun : x s = .error e := hx
      rw [hrun]
      rfl
  | ok p =>
      rw [hy] at hx
      obtain ⟨b, s', hrun, habs, hrel⟩ := hx
      rw [hrun, ok_bind, ok_bind, ← habs]
      exact hf b p.1 s' hrel

/-- The abstract computation may work on its result when the other is done. -/
theorem pure_right {rel' : β → γ' → S → Prop} {x : Except ε (β × S)} {y : StateT T (Except ε) γ}
    {t : T} (g : γ → γ') (hx : Simulates abs rel x (y t))
    (hrel : ∀ b c s, rel b c s → rel' b (g c) s) :
    Simulates abs rel' x ((y >>= fun c => pure (g c)) t) := by
  change Simulates abs rel' x (y t >>= fun p => .ok (g p.1, p.2))
  cases hy : y t with
  | error e =>
      rw [hy] at hx
      exact hx
  | ok p =>
      rw [hy] at hx
      obtain ⟨b, s, hrun, habs, hb⟩ := hx
      exact ⟨b, s, hrun, habs, hrel b p.1 s hb⟩

/-- What holds of the abstract computation holds of the one that follows it. -/
theorem meets {x : Except ε (β × S)} {y : Except ε (γ × T)} {ok : γ × T → Prop} {err : ε → Prop}
    (hx : Simulates abs rel x y) (hy : Meets ok err y) :
    Meets (fun result => ∃ c, rel result.1 c result.2 ∧ ok (c, abs result.2)) err x := by
  match y, hx, hy with
  | .error e, hx, hy =>
      have hrun : x = .error e := hx
      rw [hrun]
      exact hy
  | .ok (c, t), ⟨b, s, hrun, habs, hrel⟩, hy =>
      rw [hrun]
      refine ⟨c, hrel, ?_⟩
      rw [habs]
      exact hy

end Simulates

end Outcome
