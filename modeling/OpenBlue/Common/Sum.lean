import Mathlib.Algebra.BigOperators.Group.Finset.Piecewise
import Mathlib.Algebra.Order.Ring.Int
/-!
# Totals over a family

What an account that is kept over the members of a family is proved with:
the total after one member has changed, and when two totals agree, one of
which counts less.
-/

namespace OpenBlue

open Function List

theorem sum_update_add {ι α M : Type*} [DecidableEq ι] [AddCommMonoid M] (f : α → M) (g : ι → α)
    {s : Finset ι} {k : ι} (hk : k ∈ s) (x : α) :
    ∑ j ∈ s, f (update g k x j) + f (g k) = ∑ j ∈ s, f (g j) + f x := by
  have hcomp : (fun j => f (update g k x j)) = update (fun j => f (g j)) k (f x) := by
    funext j
    by_cases hj : j = k
    · subst hj
      simp
    · simp [hj]
  rw [hcomp, Finset.sum_update_of_mem hk, ← Finset.sum_sdiff (Finset.singleton_subset_iff.2 hk),
    Finset.sum_singleton]
  ac_rfl

theorem sum_map_set {α : Type*} (f : α → ℕ) {l : List α} {i : ℕ} {x : α} (hi : l[i]? = some x)
    (y : α) : ((l.set i y).map f).sum + f x = (l.map f).sum + f y := by
  induction l generalizing i with
  | nil => exact nomatch hi
  | cons z l ih =>
    cases i with
    | zero =>
      obtain rfl := Option.some.inj hi
      simp only [set_cons_zero, map_cons, sum_cons]
      omega
    | succ i =>
      have hrest := ih (getElem?_cons_succ.symm.trans hi)
      simp only [set_cons_succ, map_cons, sum_cons]
      omega

theorem sum_sublist_le {α : Type*} (f : α → ℕ) {l' l : List α} (h : List.Sublist l' l)
    (hf : ∀ x, 0 < f x) :
    (l'.map f).sum ≤ (l.map f).sum ∧ ((l'.map f).sum = (l.map f).sum ↔ l' = l) := by
  induction h with
  | slnil => simp
  | @cons l' l x h ih =>
    have hx := hf x
    have hne : l' ≠ x :: l := by
      rintro rfl
      exact absurd h.length_le (by simp)
    rw [map_cons, sum_cons, iff_false_right hne]
    omega
  | @cons_cons l' l x h ih =>
    rw [map_cons, map_cons, sum_cons, sum_cons, cons_inj_right, ← ih.2]
    omega

theorem sum_map_le_iff {α : Type*} {f g : α → ℕ} {l : List α} (h : ∀ x ∈ l, f x ≤ g x) :
    (l.map f).sum ≤ (l.map g).sum ∧ ((l.map f).sum = (l.map g).sum ↔ ∀ x ∈ l, f x = g x) := by
  induction l with
  | nil => simp
  | cons x l ih =>
    rw [forall_mem_cons] at h
    obtain ⟨hle, heq⟩ := ih h.2
    rw [forall_mem_cons, ← heq]
    simp only [map_cons, sum_cons]
    omega

end OpenBlue
