import Mathlib.Algebra.Order.Ring.Int
import Mathlib.Data.List.Basic
import Mathlib.Data.List.Infix
/-!
# Going through a table with a cursor

A function answers the first element of a table, or the one after an
element it has answered before; a loop calls it with its own last answer
until there is none. What such a loop gets is a relation here, so that it
says by itself that the loop ends.
-/

namespace OpenBlue

open List

variable {ι : Type*} {next : Option ι → Option ι} {c : Option ι} {l l' : List ι}

/-- The answers from the cursor `c` on, to the last one. -/
inductive Visits (next : Option ι → Option ι) : Option ι → List ι → Prop
  | done {c : Option ι} (h : next c = none) : Visits next c []
  | step {c : Option ι} {i : ι} {l : List ι} (h : next c = some i)
      (rest : Visits next (some i) l) : Visits next c (i :: l)

theorem Visits.unique (h : Visits next c l) (h' : Visits next c l') : l = l' := by
  induction h generalizing l' with
  | done hnone =>
    cases h' with
    | done => rfl
    | step hsome => exact nomatch hnone.symm.trans hsome
  | step hsome _ ih =>
    cases h' with
    | done hnone => exact nomatch hnone.symm.trans hsome
    | step hsome' rest' =>
      obtain rfl := Option.mem_unique hsome hsome'
      rw [ih rest']

/-- **The rule of the cursor.** Where the first answer is the head of a list
and the answer at an element is the one behind it, the list is gone
through. -/
theorem visits_of_suffix (hfirst : next c = l.head?)
    (hnext : ∀ i rest, i :: rest <:+ l → next (some i) = rest.head?) : Visits next c l := by
  induction l generalizing c with
  | nil => exact .done hfirst
  | cons i l ih =>
    refine .step hfirst (ih (hnext i l suffix_rfl) fun j rest hsuffix => ?_)
    exact hnext j rest (hsuffix.trans (suffix_cons i l))

theorem findIdxs_of_suffix {α : Type*} {p : α → Bool} {xs : List α} {s i : ℕ} {rest : List ℕ}
    (h : i :: rest <:+ xs.findIdxs p s) :
    ∃ x xs', s ≤ i ∧ xs.drop (i - s) = x :: xs' ∧ p x = true ∧ rest = xs'.findIdxs p (i + 1) := by
  induction xs generalizing s with
  | nil => exact absurd (suffix_nil.1 h) (cons_ne_nil i rest)
  | cons x xs ih =>
    have hlater (h' : i :: rest <:+ xs.findIdxs p (s + 1)) :
        ∃ y xs', s ≤ i ∧ (x :: xs).drop (i - s) = y :: xs' ∧ p y = true ∧
          rest = xs'.findIdxs p (i + 1) := by
      obtain ⟨y, xs', hle, hdrop, hy, hrest⟩ := ih h'
      refine ⟨y, xs', by omega, ?_, hy, hrest⟩
      rwa [show i - s = i - (s + 1) + 1 by omega, drop_succ_cons]
    rw [findIdxs_cons] at h
    split at h
    next hx =>
      rcases suffix_cons_iff.1 h with heq | h'
      · obtain ⟨rfl, rfl⟩ := List.cons.inj heq
        exact ⟨x, xs, le_refl _, by rw [Nat.sub_self, drop_zero], hx, rfl⟩
      · exact hlater h'
    next => exact hlater h

end OpenBlue
