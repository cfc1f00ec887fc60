import Gittest.Lib.Outcome
import Mathlib.Data.List.Basic

/-!
# Sequences of calls and what they refine

`exec s c` is one call on a concrete state: it may fail, and otherwise gives a result and the next
state. A specification `spec t c` gives the result and the next state on an abstract state. If one
call from related states gives equal results and related states, so does every sequence of calls.
-/

namespace Calls

open Outcome

variable {σ τ κ ρ ε : Type*}

/-- Calls run one after the other, with the list of their results; the first failure ends the run. -/
def runCalls (exec : σ → κ → Except ε (ρ × σ)) : σ → List κ → Except ε (List ρ × σ)
  | s, [] => .ok ([], s)
  | s, c :: cs => do
      let (r, s') ← exec s c
      let (rs, s'') ← runCalls exec s' cs
      return (r :: rs, s'')

/-- The same of a specification, which never fails. -/
def runSpec (spec : τ → κ → ρ × τ) : τ → List κ → List ρ × τ
  | t, [] => ([], t)
  | t, c :: cs => ((spec t c).1 :: (runSpec spec (spec t c).2 cs).1, (runSpec spec (spec t c).2 cs).2)

/-- Each call is admissible in the abstract state it is made in. -/
def Admissible (spec : τ → κ → ρ × τ) (valid : τ → κ → Prop) : τ → List κ → Prop
  | _, [] => True
  | t, c :: cs => valid t c ∧ Admissible spec valid (spec t c).2 cs

variable {exec : σ → κ → Except ε (ρ × σ)} {spec : τ → κ → ρ × τ} {valid : τ → κ → Prop}

theorem runCalls_cons_ok {s s' s'' : σ} {c : κ} {cs : List κ} {r : ρ} {rs : List ρ}
    (hcall : exec s c = .ok (r, s')) (hrest : runCalls exec s' cs = .ok (rs, s'')) :
    runCalls exec s (c :: cs) = .ok (r :: rs, s'') := by
  simp only [runCalls, hcall]
  change (runCalls exec s' cs >>= fun p => pure (r :: p.1, p.2)) = _
  rw [hrest]
  rfl

theorem runCalls_cons_error {s : σ} {c : κ} {cs : List κ} {e : ε}
    (hcall : exec s c = .error e) : runCalls exec s (c :: cs) = .error e := by
  simp only [runCalls, hcall]
  rfl

theorem runCalls_append_error {s s' : σ} {pre post : List κ} {c : κ} {rs : List ρ} {e : ε}
    (hpre : runCalls exec s pre = .ok (rs, s')) (hcall : exec s' c = .error e) :
    runCalls exec s (pre ++ c :: post) = .error e := by
  induction pre generalizing s rs with
  | nil =>
      cases hpre
      exact runCalls_cons_error hcall
  | cons d pre ih =>
      cases hd : exec s d with
      | error e' =>
          rw [runCalls_cons_error hd] at hpre
          cases hpre
      | ok result =>
          simp only [runCalls, hd] at hpre
          change (runCalls exec result.2 pre >>= fun p => pure (result.1 :: p.1, p.2)) = _ at hpre
          cases hrest : runCalls exec result.2 pre with
          | error e' =>
              rw [hrest] at hpre
              cases hpre
          | ok rest =>
              rw [hrest] at hpre
              cases hpre
              simp only [List.cons_append, runCalls, hd]
              change (runCalls exec result.2 (pre ++ c :: post) >>= _) = _
              rw [ih hrest]
              rfl

theorem admissible_of_forall_mem {legal : κ → Prop} (t : τ) {cs : List κ}
    (hlegal : ∀ c ∈ cs, legal c) : Admissible spec (fun _ c => legal c) t cs := by
  induction cs generalizing t with
  | nil => trivial
  | cons c cs ih => exact ⟨hlegal c (by simp), ih _ fun c' hc' => hlegal c' (by simp [hc'])⟩

/-- **The refinement rule.** -/
theorem runCalls_refines {rel : σ → τ → Prop}
    (hstep : ∀ s t c, rel s t → valid t c →
      ∃ s', exec s c = .ok ((spec t c).1, s') ∧ rel s' (spec t c).2)
    {s : σ} {t : τ} {cs : List κ} (hrel : rel s t) (hvalid : Admissible spec valid t cs) :
    ∃ s', runCalls exec s cs = .ok ((runSpec spec t cs).1, s') ∧ rel s' (runSpec spec t cs).2 := by
  induction cs generalizing s t with
  | nil => exact ⟨s, rfl, hrel⟩
  | cons c cs ih =>
      obtain ⟨s', hcall, hrel'⟩ := hstep s t c hrel hvalid.1
      obtain ⟨s'', hrest, hrel''⟩ := ih hrel' hvalid.2
      exact ⟨s'', runCalls_cons_ok hcall hrest, hrel''⟩

/-- What `label` says of each call in the state in which it is made. -/
def runLabels {l : Type*} (exec : σ → κ → Except ε (ρ × σ)) (label : σ → κ → l) : σ → List κ → List l
  | _, [] => []
  | s, c :: cs => label s c :: match exec s c with
    | .ok (_, s') => runLabels exec label s' cs
    | .error _ => []

/-- **The labelled refinement rule.** The specification may use what the labels say of the calls. -/
theorem runCalls_refines_labelled {l : Type*} {label : σ → κ → l} {spec : τ → l × κ → ρ × τ}
    {rel : σ → τ → Prop} {legal : κ → Prop}
    (hstep : ∀ s t c, rel s t → legal c →
      ∃ s', exec s c = .ok ((spec t (label s c, c)).1, s') ∧ rel s' (spec t (label s c, c)).2)
    {s : σ} {t : τ} {cs : List κ} (hrel : rel s t) (hlegal : ∀ c ∈ cs, legal c) :
    ∃ s', runCalls exec s cs
        = .ok ((runSpec spec t ((runLabels exec label s cs).zip cs)).1, s') ∧
      rel s' (runSpec spec t ((runLabels exec label s cs).zip cs)).2 := by
  induction cs generalizing s t with
  | nil => exact ⟨s, rfl, hrel⟩
  | cons c cs ih =>
      obtain ⟨s', hcall, hrel'⟩ := hstep s t c hrel (hlegal c (by simp))
      obtain ⟨s'', hrest, hrel''⟩ := ih hrel' fun c' hc' => hlegal c' (by simp [hc'])
      have hlabels : runLabels exec label s (c :: cs) = label s c :: runLabels exec label s' cs := by
        rw [runLabels, hcall]
      rw [hlabels, List.zip_cons_cons]
      exact ⟨s'', runCalls_cons_ok hcall hrest, hrel''⟩

/-- A sequence of calls with results that a relational specification allows. -/
inductive Follows (allows : τ → κ → ρ → τ → Prop) : τ → List κ → List ρ → τ → Prop where
  | nil (t : τ) : Follows allows t [] [] t
  | cons {t t' t'' : τ} {c : κ} {r : ρ} {cs : List κ} {rs : List ρ} (hcall : allows t c r t')
      (hrest : Follows allows t' cs rs t'') : Follows allows t (c :: cs) (r :: rs) t''

/-- **The relational refinement rule.** The sequence runs to its end, or to the first call that is
not valid where it would be made; if a call fails, as `err` says, it ends there. -/
theorem runCalls_follows_meets {rel : σ → τ → Prop} {allows : τ → κ → ρ → τ → Prop}
    {valid : σ → τ → κ → Prop} {err : ε → Prop}
    (hstep : ∀ s t c, rel s t → valid s t c →
      Meets (fun result => ∃ t', allows t c result.1 t' ∧ rel result.2 t') err (exec s c))
    {s : σ} {t : τ} (hrel : rel s t) (cs : List κ) :
    ∃ pre post, cs = pre ++ post ∧ Meets (fun result => ∃ t', Follows allows t pre result.1 t' ∧
      rel result.2 t' ∧ ∀ c ∈ post.head?, ¬valid result.2 t' c) err (runCalls exec s pre) := by
  induction cs generalizing s t with
  | nil => exact ⟨[], [], rfl, t, .nil t, hrel, by simp⟩
  | cons c cs ih =>
      by_cases hvalid : valid s t c
      · have hcall := hstep s t c hrel hvalid
        cases hexec : exec s c with
        | error e =>
            rw [hexec] at hcall
            refine ⟨[c], cs, rfl, ?_⟩
            rw [runCalls_cons_error hexec]
            exact hcall
        | ok result =>
            rw [hexec] at hcall
            obtain ⟨t₁, hallows, hrel₁⟩ := hcall
            obtain ⟨pre, post, rfl, hrun⟩ := ih hrel₁
            refine ⟨c :: pre, post, rfl, ?_⟩
            simp only [runCalls, hexec]
            apply hrun.bind
            rintro ⟨rs, s'⟩ ⟨t', hfollows, hrel', hstop⟩
            exact ⟨t', .cons hallows hfollows, hrel', hstop⟩
      · exact ⟨[], c :: cs, rfl, t, .nil t, hrel, by simpa using hvalid⟩

/-- The same where a valid call does not fail. -/
theorem runCalls_follows {rel : σ → τ → Prop} {allows : τ → κ → ρ → τ → Prop}
    {valid : σ → τ → κ → Prop}
    (hstep : ∀ s t c, rel s t → valid s t c →
      ∃ r s' t', exec s c = .ok (r, s') ∧ allows t c r t' ∧ rel s' t')
    {s : σ} {t : τ} (hrel : rel s t) (cs : List κ) :
    ∃ pre post rs s' t', cs = pre ++ post ∧ runCalls exec s pre = .ok (rs, s') ∧
      Follows allows t pre rs t' ∧ rel s' t' ∧ ∀ c ∈ post.head?, ¬valid s' t' c := by
  have hmeets : ∀ s t c, rel s t → valid s t c →
      Meets (fun result => ∃ t', allows t c result.1 t' ∧ rel result.2 t') (fun _ => False)
        (exec s c) := by
    intro s t c hrel hvalid
    obtain ⟨r, s', t', hcall, hallows, hrel'⟩ := hstep s t c hrel hvalid
    rw [hcall]
    exact ⟨t', hallows, hrel'⟩
  obtain ⟨pre, post, hsplit, hrun⟩ := runCalls_follows_meets hmeets hrel cs
  obtain ⟨⟨rs, s'⟩, hok, t', hfollows, hrel', hstop⟩ := hrun.exists_ok
  exact ⟨pre, post, rs, s', t', hsplit, hok, hfollows, hrel', hstop⟩

theorem Follows.runSpec_eq {t t' : τ} {cs : List κ} {rs : List ρ}
    (hfollows : Follows (fun t c r t' => spec t c = (r, t')) t cs rs t') :
    runSpec spec t cs = (rs, t') := by
  induction hfollows with
  | nil t => rfl
  | cons hcall _ ih => rw [runSpec, hcall, ih]

theorem Admissible.append_right {t : τ} {pre post : List κ}
    (hvalid : Admissible spec valid t (pre ++ post)) :
    Admissible spec valid (runSpec spec t pre).2 post := by
  induction pre generalizing t with
  | nil => exact hvalid
  | cons c pre ih => exact ih hvalid.2

theorem runCalls_invariant {inv : σ → Prop} {legal : κ → Prop}
    (hstep : ∀ s c, inv s → legal c → ∃ r s', exec s c = .ok (r, s') ∧ inv s')
    {s : σ} {cs : List κ} (hinit : inv s) (hlegal : ∀ c ∈ cs, legal c) :
    ∃ rs s', runCalls exec s cs = .ok (rs, s') ∧ inv s' := by
  induction cs generalizing s with
  | nil => exact ⟨[], s, rfl, hinit⟩
  | cons c cs ih =>
      obtain ⟨r, s', hcall, hinv⟩ := hstep s c hinit (hlegal c (by simp))
      obtain ⟨rs, s'', hrest, hinv'⟩ := ih hinv fun c' hc' => hlegal c' (by simp [hc'])
      exact ⟨r :: rs, s'', runCalls_cons_ok hcall hrest, hinv'⟩

/-- The same where a call may fail: the sequence then fails as that call does. -/
theorem runCalls_meets {inv : σ → Prop} {legal : κ → Prop} {err : ε → Prop}
    (hstep : ∀ s c, inv s → legal c → Meets (fun result => inv result.2) err (exec s c))
    {s : σ} {cs : List κ} (hinit : inv s) (hlegal : ∀ c ∈ cs, legal c) :
    Meets (fun result => inv result.2) err (runCalls exec s cs) := by
  induction cs generalizing s with
  | nil => exact hinit
  | cons c cs ih =>
      apply (hstep s c hinit (hlegal c (by simp))).bind
      intro result hinv
      exact (ih hinv fun c' hc' => hlegal c' (by simp [hc'])).bind fun _ h => h

end Calls
