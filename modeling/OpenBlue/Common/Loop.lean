import Mathlib.Algebra.Order.Ring.Int
/-!
# Loops

A loop that takes one turn after another until a turn ends it, with the
number of turns bounded so that it always returns: `none` says that it had
not ended by then. A loop whose turns keep a value and lower a measure ends
with that value (`loop_eq_some`).
-/

namespace OpenBlue

variable {σ ρ : Type*} {turn : σ → σ ⊕ ρ} {s : σ} {n : ℕ}

/-- A loop of at most `n` turns: a turn goes on from a new state, or ends
the loop with its result. -/
def loop (turn : σ → σ ⊕ ρ) : ℕ → σ → Option ρ
  | 0, _ => none
  | n + 1, s =>
    match turn s with
    | .inl s' => loop turn n s'
    | .inr r => some r

theorem loop_of_inl {s' : σ} (h : turn s = .inl s') : loop turn (n + 1) s = loop turn n s' := by
  simp only [loop, h]

theorem loop_of_inr {r : ρ} (h : turn s = .inr r) : loop turn (n + 1) s = some r := by
  simp only [loop, h]

/-- **The loop rule.** A loop whose turns keep an invariant and what `f`
says of the state, and lower a measure, ends within that many turns, with
what `f` says of the state it starts in. -/
theorem loop_eq_some (f : σ → ρ) (μ : σ → ℕ) (Inv : σ → Prop)
    (hgo : ∀ s s', Inv s → turn s = .inl s' → Inv s' ∧ μ s' < μ s ∧ f s' = f s)
    (hend : ∀ s r, Inv s → turn s = .inr r → f s = r) (hs : Inv s) (hn : μ s < n) :
    loop turn n s = some (f s) := by
  induction n generalizing s with
  | zero => exact absurd hn (Nat.not_lt_zero _)
  | succ n ih =>
    cases hturn : turn s with
    | inl s' =>
      obtain ⟨hinv, hlt, hf⟩ := hgo s s' hs hturn
      rw [loop_of_inl hturn, ih hinv (by omega), hf]
    | inr r => rw [loop_of_inr hturn, hend s r hs hturn]

end OpenBlue
