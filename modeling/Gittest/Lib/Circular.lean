import Mathlib.Data.List.Nodup
import Mathlib.Logic.Function.Basic
import Mathlib.Tactic.ByCases

/-!
# Linked elements and circular lists

Two partial functions `next` and `prev` link the elements of a list into a circle through a head that
is not one of them: following `next` from the head visits the list and comes back, and following
`prev` visits it in reverse. An element is put in between two neighbours, or taken out, by changing
one link in each direction.
-/

variable {A : Type*}

/-- Following `f` from `a` visits `xs` and then arrives at `b`. -/
def Linked (f : A → Option A) : A → List A → A → Prop
  | a, [], b => f a = some b
  | a, x :: xs, b => f a = some x ∧ Linked f x xs b

namespace Linked

variable {f g : A → Option A} {a b x : A} {xs ys : List A}

@[simp]
theorem nil_iff : Linked f a [] b ↔ f a = some b := Iff.rfl

@[simp]
theorem cons_iff : Linked f a (x :: xs) b ↔ f a = some x ∧ Linked f x xs b := Iff.rfl

theorem append_cons_iff : Linked f a (xs ++ x :: ys) b ↔ Linked f a xs x ∧ Linked f x ys b := by
  induction xs generalizing a with
  | nil => rfl
  | cons y xs ih => rw [List.cons_append, cons_iff, cons_iff, ih, and_assoc]

theorem congr (hlinked : Linked f a xs b) (hagree : ∀ c ∈ a :: xs, g c = f c) : Linked g a xs b := by
  induction xs generalizing a with
  | nil =>
      rw [nil_iff] at hlinked ⊢
      rw [hagree a (by simp), hlinked]
  | cons y xs ih =>
      refine ⟨?_, ih hlinked.2 fun c hc => hagree c (List.mem_cons_of_mem a hc)⟩
      rw [hagree a (by simp), hlinked.1]

theorem head_eq (hlinked : Linked f a xs b) : f a = (xs ++ [b]).head? := by
  cases xs with
  | nil => exact hlinked
  | cons y xs => exact hlinked.1

theorem exists_next (hlinked : Linked f a xs b) : ∃ c, f a = some c := by
  cases xs with
  | nil => exact ⟨b, hlinked⟩
  | cons y xs => exact ⟨y, hlinked.1⟩

theorem mem_of_eq {c d : A} (hlinked : Linked f a xs b) (hmem : c ∈ a :: xs) (heq : f c = some d) :
    d ∈ xs ++ [b] := by
  induction xs generalizing a with
  | nil =>
      rw [List.mem_singleton.mp hmem, nil_iff.mp hlinked] at heq
      cases heq
      exact List.mem_singleton_self b
  | cons y xs ih =>
      rcases List.mem_cons.mp hmem with rfl | hrest
      · rw [hlinked.1] at heq
        cases heq
        exact List.mem_cons_self ..
      · exact List.mem_cons_of_mem y (ih hlinked.2 hrest)

variable [DecidableEq A] {n p q : A}

theorem insert (hlinked : Linked f a (xs ++ ys) b) (hnodup : (a :: (xs ++ ys)).Nodup)
    (hnew : n ∉ a :: (xs ++ ys)) (hlast : (a :: xs).getLast? = some p)
    (hnext : (ys ++ [b]).head? = some q) :
    Linked (Function.update (Function.update f n (some q)) p (some n)) a (xs ++ n :: ys) b := by
  induction xs generalizing a with
  | nil =>
      rw [List.getLast?_singleton, Option.some.injEq] at hlast
      subst hlast
      have hna : n ≠ a := fun h => hnew (by simp [h])
      refine ⟨Function.update_self a _ _, ?_⟩
      have hfirst : Function.update (Function.update f n (some q)) a (some n) n = some q := by
        rw [Function.update_of_ne hna, Function.update_self]
      cases ys with
      | nil =>
          cases hnext
          exact hfirst
      | cons y ys =>
          cases hnext
          refine ⟨hfirst, hlinked.2.congr fun c hc => ?_⟩
          have hca : c ≠ a := fun h => (List.nodup_cons.mp hnodup).1 (h ▸ hc)
          have hcn : c ≠ n := fun h => hnew (List.mem_cons_of_mem a (h ▸ hc))
          rw [Function.update_of_ne hca, Function.update_of_ne hcn]
  | cons x xs ih =>
      rw [List.getLast?_cons_cons] at hlast
      have hmem : p ∈ x :: xs := List.mem_of_getLast? hlast
      have hap : a ≠ p := by
        rintro rfl
        exact (List.nodup_cons.mp hnodup).1 (List.mem_append_left ys hmem)
      have han : a ≠ n := fun h => hnew (by simp [h])
      refine ⟨?_, ih hlinked.2 hnodup.of_cons (fun h => hnew (List.mem_cons_of_mem a h)) hlast⟩
      rw [Function.update_of_ne hap, Function.update_of_ne han, hlinked.1]

theorem remove (hlinked : Linked f a (xs ++ n :: ys) b) (hnodup : (a :: (xs ++ n :: ys)).Nodup)
    (hlast : (a :: xs).getLast? = some p) (hnext : (ys ++ [b]).head? = some q) :
    Linked (Function.update f p (some q)) a (xs ++ ys) b := by
  induction xs generalizing a with
  | nil =>
      rw [List.getLast?_singleton, Option.some.injEq] at hlast
      subst hlast
      cases ys with
      | nil =>
          cases hnext
          exact Function.update_self a _ _
      | cons y ys =>
          cases hnext
          refine ⟨Function.update_self a _ _, hlinked.2.2.congr fun c hc => ?_⟩
          have hca : c ≠ a := fun h => (List.nodup_cons.mp hnodup).1 (h ▸ List.mem_cons_of_mem n hc)
          rw [Function.update_of_ne hca]
  | cons x xs ih =>
      rw [List.getLast?_cons_cons] at hlast
      have hmem : p ∈ x :: xs := List.mem_of_getLast? hlast
      have hap : a ≠ p := by
        rintro rfl
        exact (List.nodup_cons.mp hnodup).1 (List.mem_append_left (n :: ys) hmem)
      refine ⟨?_, ih hlinked.2 hnodup.of_cons hlast⟩
      rw [Function.update_of_ne hap, hlinked.1]

end Linked

/-- `next` and `prev` link `xs` into a circle through `h`. -/
structure Circular (next prev : A → Option A) (h : A) (xs : List A) : Prop where
  forth : Linked next h xs h
  back : Linked prev h xs.reverse h
  nodup : (h :: xs).Nodup

namespace Circular

variable {next prev next' prev' : A → Option A} {h n p q : A} {xs ys : List A}

theorem symm (hcirc : Circular next prev h xs) : Circular prev next h xs.reverse where
  forth := hcirc.back
  back := by
    rw [List.reverse_reverse]
    exact hcirc.forth
  nodup := by
    rw [List.nodup_cons, List.mem_reverse, List.nodup_reverse, ← List.nodup_cons]
    exact hcirc.nodup

theorem congr (hcirc : Circular next prev h xs)
    (hagree : ∀ c ∈ h :: xs, next' c = next c ∧ prev' c = prev c) : Circular next' prev' h xs where
  forth := hcirc.forth.congr fun c hc => (hagree c hc).1
  back := hcirc.back.congr fun c hc => (hagree c (by simpa using hc)).2
  nodup := hcirc.nodup

theorem singleton (hnext : next h = some h) (hprev : prev h = some h) : Circular next prev h [] where
  forth := hnext
  back := hprev
  nodup := List.nodup_singleton h

theorem reverse_cons_getLast? : (h :: xs.reverse).getLast? = (xs ++ [h]).head? := by
  rw [← List.reverse_reverse (h :: xs.reverse), List.getLast?_reverse, List.reverse_cons,
    List.reverse_reverse]

theorem next_mem {c d : A} (hcirc : Circular next prev h xs) (hmem : c ∈ h :: xs)
    (heq : next c = some d) : d ∈ h :: xs := by
  have hd := hcirc.forth.mem_of_eq hmem heq
  simpa [or_comm] using hd

theorem prev_mem {c d : A} (hcirc : Circular next prev h xs) (hmem : c ∈ h :: xs)
    (heq : prev c = some d) : d ∈ h :: xs := by
  have hd := hcirc.symm.next_mem (by simpa using hmem) heq
  simpa using hd

theorem next_head (hcirc : Circular next prev h xs) : next h = (xs ++ [h]).head? :=
  hcirc.forth.head_eq

theorem prev_head (hcirc : Circular next prev h xs) : prev h = (h :: xs).getLast? := by
  rw [hcirc.back.head_eq, ← reverse_cons_getLast?, List.reverse_reverse]

theorem next_eq (hcirc : Circular next prev h (xs ++ n :: ys)) : next n = (ys ++ [h]).head? :=
  (Linked.append_cons_iff.mp hcirc.forth).2.head_eq

theorem prev_eq (hcirc : Circular next prev h (xs ++ n :: ys)) : prev n = (h :: xs).getLast? := by
  have hback := hcirc.back
  rw [List.reverse_append, List.reverse_cons, List.append_assoc, List.singleton_append] at hback
  rw [(Linked.append_cons_iff.mp hback).2.head_eq, ← reverse_cons_getLast?, List.reverse_reverse]

theorem notMem (hcirc : Circular next prev h (xs ++ n :: ys)) : n ∉ h :: (xs ++ ys) := by
  have hperm : (h :: (xs ++ n :: ys)).Perm (n :: h :: (xs ++ ys)) :=
    (List.perm_middle.cons h).trans (List.Perm.swap n h _)
  exact (List.nodup_cons.mp (hperm.nodup_iff.mp hcirc.nodup)).1

theorem neighbours (hcirc : Circular next prev h (xs ++ n :: ys)) :
    ∃ p q, prev n = some p ∧ next n = some q ∧ p ∈ h :: (xs ++ ys) ∧ q ∈ h :: (xs ++ ys) := by
  obtain ⟨q, hq⟩ := (Linked.append_cons_iff.mp hcirc.forth).2.exists_next
  have hlast := List.getLast?_eq_some_getLast (List.cons_ne_nil h xs)
  refine ⟨_, q, hcirc.prev_eq.trans hlast, hq, ?_, ?_⟩
  · have hmem := List.mem_of_getLast? hlast
    rw [← List.cons_append]
    exact List.mem_append_left ys hmem
  · have hhead := hcirc.next_eq.symm.trans hq
    have hmem := List.mem_of_head? hhead
    simp only [List.mem_append, List.mem_cons, List.not_mem_nil, or_false] at hmem ⊢
    tauto

variable [DecidableEq A]

theorem insert (hcirc : Circular next prev h (xs ++ ys)) (hnew : n ∉ h :: (xs ++ ys))
    (hp : (h :: xs).getLast? = some p) (hq : (ys ++ [h]).head? = some q) :
    Circular (Function.update (Function.update next n (some q)) p (some n))
      (Function.update (Function.update prev n (some p)) q (some n)) h (xs ++ n :: ys) where
  forth := hcirc.forth.insert hcirc.nodup hnew hp hq
  back := by
    have hsymm := hcirc.symm
    rw [List.reverse_append] at hsymm
    rw [List.reverse_append, List.reverse_cons, List.append_assoc, List.singleton_append]
    refine hsymm.forth.insert hsymm.nodup ?_ ?_ ?_
    · simpa [or_comm] using hnew
    · rw [reverse_cons_getLast?, hq]
    · rw [← reverse_cons_getLast?, List.reverse_reverse, hp]
  nodup := by
    have hperm : (n :: h :: (xs ++ ys)).Perm (h :: (xs ++ n :: ys)) :=
      (List.Perm.swap h n _).trans (List.perm_middle.symm.cons h)
    exact hperm.nodup_iff.mp (List.nodup_cons.mpr ⟨hnew, hcirc.nodup⟩)

theorem remove (hcirc : Circular next prev h (xs ++ n :: ys))
    (hp : (h :: xs).getLast? = some p) (hq : (ys ++ [h]).head? = some q) :
    Circular (Function.update next p (some q)) (Function.update prev q (some p)) h (xs ++ ys) where
  forth := hcirc.forth.remove hcirc.nodup hp hq
  back := by
    have hsymm := hcirc.symm
    rw [List.reverse_append, List.reverse_cons, List.append_assoc, List.singleton_append] at hsymm
    rw [List.reverse_append]
    refine hsymm.forth.remove hsymm.nodup ?_ ?_
    · rw [reverse_cons_getLast?, hq]
    · rw [← reverse_cons_getLast?, List.reverse_reverse, hp]
  nodup := by
    have hperm : (h :: (xs ++ n :: ys)).Perm (n :: h :: (xs ++ ys)) :=
      (List.perm_middle.cons h).trans (List.Perm.swap n h _)
    exact (hperm.nodup_iff.mp hcirc.nodup).of_cons

end Circular
