import Mathlib.Algebra.Order.Ring.Int
import Mathlib.Data.List.Basic
/-!
# Common — two ascending lists walked together

A walk over one list that takes at most one step in another for each of its
elements, past what has been left behind as well as over what is met.
`met_all_iff` says when it meets everything the lists have in common.
-/

namespace OpenBlue

namespace Merge

open List

variable {α : Type*} [DecidableEq α] [LT α] [DecidableLT α] {hs es l m : List α} {a b e h x : α}

/-- What a walk over `hs` meets in `es`: an element left behind takes a step,
too. -/
def met : List α → List α → List α
  | [], _ | _, [] => []
  | h :: hs, e :: es =>
    if e = h then h :: met hs es else if e < h then met hs es else met hs (e :: es)

theorem mem_of_mem_met (h : a ∈ met hs es) : a ∈ hs ∧ a ∈ es := by
  fun_induction met hs es with grind

variable [LE α] [DecidableLE α]

/-- How many elements of `l` from `b` on and before `a` are not in `m`. -/
def alone (l m : List α) (b a : α) : ℕ := l.countP fun x => x ∉ m ∧ b ≤ x ∧ x < a

theorem alone_cons (x : α) (l m : List α) (b a : α) :
    alone (x :: l) m b a = alone l m b a + if x ∉ m ∧ b ≤ x ∧ x < a then 1 else 0 := by
  simp [alone, countP_cons]

theorem alone_cons_right (hx : x ∉ l) (b a : α) : alone l (x :: m) b a = alone l m b a :=
  countP_congr fun y hy => by grind

variable [Std.IsLinearOrder α]

theorem alone_le (h : b ≤ e) (a : α) : alone l m e a ≤ alone l m b a :=
  countP_mono_left fun y _ => by grind

theorem alone_eq (hl : ∀ x ∈ l, e ≤ x) (h : b ≤ e) (a : α) : alone l m b a = alone l m e a :=
  countP_congr fun y hy => by grind

variable [Std.LawfulOrderLT α]

/-- **A walk meets all that the lists have in common** if and only if from
nowhere on more is left behind before it than is passed by. -/
theorem met_all_iff (hhs : hs.Pairwise (· < ·)) (hes : es.Pairwise (· < ·)) :
    (∀ a ∈ hs, a ∈ es → a ∈ met hs es) ↔
      ∀ a ∈ hs, a ∈ es → ∀ b, alone es hs b a ≤ alone hs es b a := by
  fun_induction met hs es with
  | case1 es => simp
  | case2 hs => simp
  | case3 hs h es ih =>
    -- the element is met, and counts nowhere
    obtain ⟨hh, hhs⟩ := pairwise_cons.1 hhs
    obtain ⟨he, hes⟩ := pairwise_cons.1 hes
    have hhs' : h ∉ hs := by grind
    have hes' : h ∉ es := by grind
    have hcount := ih hhs hes
    simp only [alone_cons, alone_cons_right hhs', alone_cons_right hes', mem_cons_self,
      not_true, false_and, if_false, Nat.add_zero]
    have hfirst : ∀ b, alone es hs b h = 0 := fun b => countP_eq_zero.2 fun x hx => by grind
    grind
  | case4 h hs e es hne hlt ih =>
    obtain ⟨hh, hhs⟩ := pairwise_cons.1 hhs
    obtain ⟨he, hes⟩ := pairwise_cons.1 hes
    have hehs : e ∉ hs := by grind
    by_cases hmem : h ∈ es
    · -- the step is lost, and the element is passed by
      have hhs' : h ∉ hs := by grind
      refine iff_of_false (fun hall => ?_) fun hall => ?_
      · exact hhs' (mem_of_mem_met (hall h mem_cons_self (mem_cons_of_mem e hmem))).1
      · have hle := hall h mem_cons_self (mem_cons_of_mem e hmem) e
        have hnone : alone hs (e :: es) e h = 0 := countP_eq_zero.2 fun x hx => by grind
        rw [alone_cons, alone_cons] at hle
        grind
    · have hcount : ∀ a ∈ hs, ∀ b, alone (e :: es) (h :: hs) b a = alone es hs b a +
          (if b ≤ e then 1 else 0) ∧
          alone (h :: hs) (e :: es) b a = alone hs es b a + if b ≤ h then 1 else 0 := by
        intro a ha b
        rw [alone_cons, alone_cons_right hmem, alone_cons, alone_cons_right hehs]
        grind
      have hrest : (∀ a ∈ h :: hs, a ∈ e :: es → a ∈ met hs es) ↔
          ∀ a ∈ hs, a ∈ es → a ∈ met hs es := by grind
      rw [hrest, ih hhs hes]
      constructor
      · intro hall a ha hae b
        obtain ⟨ha, hae⟩ : a ∈ hs ∧ a ∈ es := by grind
        have := hall a ha hae b
        rw [(hcount a ha b).1, (hcount a ha b).2]
        grind
      · intro hall a ha hae b
        have hfrom : ∀ b, _ := hall a (mem_cons_of_mem h ha) (mem_cons_of_mem e hae)
        simp only [hcount a ha] at hfrom
        have := hfrom b
        -- what is behind the one left behind counts from there on as well
        have := hfrom e
        have := alone_le (l := es) (m := hs) (b := e) (e := b) (a := a)
        have := alone_eq (l := hs) (m := es) (b := b) (e := h) (a := a)
        have := alone_eq (l := hs) (m := es) (b := e) (e := h) (a := a)
        grind
  | case5 h hs e es hne hlt ih =>
    obtain ⟨hh, hhs⟩ := pairwise_cons.1 hhs
    have he := (pairwise_cons.1 hes).1
    have hle : ∀ x ∈ e :: es, e ≤ x := by grind
    have hmem : h ∉ e :: es := by grind
    have hcount : ∀ a ∈ hs, ∀ b, alone (e :: es) (h :: hs) b a = alone (e :: es) hs b a ∧
        alone (h :: hs) (e :: es) b a = alone hs (e :: es) b a + if b ≤ h then 1 else 0 := by
      intro a ha b
      rw [alone_cons_right hmem, alone_cons h]
      grind
    have hrest : (∀ a ∈ h :: hs, a ∈ e :: es → a ∈ met hs (e :: es)) ↔
        ∀ a ∈ hs, a ∈ e :: es → a ∈ met hs (e :: es) := by grind
    rw [hrest, ih hhs hes]
    constructor
    · intro hall a ha hae b
      have := hall a
      grind
    · intro hall a ha hae b
      have hfrom : ∀ b, _ := hall a (mem_cons_of_mem h ha) hae
      simp only [hcount a ha] at hfrom
      have := hfrom b
      have := hfrom e
      have := alone_eq (m := hs) hle (b := b)
      have := alone_le (l := hs) (m := e :: es) (b := b) (e := e)
      grind

end Merge

end OpenBlue
