import Mathlib.Algebra.Order.Floor.Div
import Mathlib.Algebra.Order.Ring.Int
import Mathlib.Data.List.Basic
/-!
# Bit fields and pieces

What a format that packs fields into bytes and cuts a payload into pieces
of one size is proved with: a field below a shift is an addition, and the
pieces put together in order are the payload.
-/

namespace OpenBlue

open List Nat

theorem shiftLeft_or_eq {a b n : ℕ} (h : b < 2 ^ n) : a <<< n ||| b = a * 2 ^ n + b := by
  rw [← shiftLeft_add_eq_or_of_lt h, shiftLeft_eq]

variable {α : Type*} {n : ℕ} {l : List α}

/-- The `i`-th piece of `n` elements. -/
def piece (n : ℕ) (l : List α) (i : ℕ) : List α := (l.drop (n * i)).take n

@[simp] theorem piece_zero (n : ℕ) (l : List α) : piece n l 0 = l.take n := by simp [piece]

theorem piece_succ (n : ℕ) (l : List α) (i : ℕ) : piece n l (i + 1) = piece n (l.drop n) i := by
  rw [piece, piece, drop_drop]
  congr 2
  rw [mul_succ, Nat.add_comm]

@[simp] theorem length_piece (n : ℕ) (l : List α) (i : ℕ) :
    (piece n l i).length = min n (l.length - n * i) := by simp [piece]

theorem flatMap_piece (n : ℕ) (l : List α) (k : ℕ) :
    (List.range k).flatMap (piece n l) = l.take (n * k) := by
  induction k with
  | zero => simp
  | succ k ih =>
    rw [range_succ, flatMap_append, ih, flatMap_singleton, piece, mul_succ, take_add]

/-- **All pieces put together are the whole.** -/
theorem flatMap_piece_of_le {k : ℕ} (h : l.length ≤ n * k) :
    (List.range k).flatMap (piece n l) = l := by
  rw [flatMap_piece, take_of_length_le h]

theorem length_le_of_last (hn : 0 < n) : l.length ≤ n * ((l.length - 1) / n + 1) := by
  have := div_add_mod (l.length - 1) n
  have := mod_lt (l.length - 1) hn
  rw [mul_succ]
  omega

theorem mul_lt_length_iff (hn : 0 < n) (hl : l ≠ []) {i : ℕ} :
    n * i < l.length ↔ i ≤ (l.length - 1) / n := by
  have hpos : 0 < l.length := length_pos_iff.2 hl
  rw [Nat.le_div_iff_mul_le hn, Nat.mul_comm]
  omega

/-! ## All the pieces -/

theorem one_le_ceilDiv {a m : ℕ} (hm : 0 < m) (h : 0 < a) : 1 ≤ a ⌈/⌉ m := by
  by_contra hn
  have := (ceilDiv_le_iff_le_mul hm).1 (lt_one_iff.1 (not_le.1 hn)).le
  omega

theorem le_mul_ceilDiv {m : ℕ} (hm : 0 < m) (a : ℕ) : a ≤ m * (a ⌈/⌉ m) :=
  (ceilDiv_le_iff_le_mul hm).1 (le_refl (a ⌈/⌉ m))

theorem ceilDiv_le_ceilDiv {a b m : ℕ} (hm : 0 < m) (h : a ≤ b) : a ⌈/⌉ m ≤ b ⌈/⌉ m := by
  rw [ceilDiv_le_iff_le_mul hm]
  exact h.trans (le_mul_ceilDiv hm b)

theorem ceilDiv_le_succ {a b m : ℕ} (hm : 0 < m) (h : a ≤ b + m) : a ⌈/⌉ m ≤ b ⌈/⌉ m + 1 := by
  rw [ceilDiv_le_iff_le_mul hm, Nat.mul_add, Nat.mul_one]
  have := le_mul_ceilDiv hm b
  omega

theorem ceilDiv_sub_add_one {a m : ℕ} (hm : 0 < m) (h : 0 < a) : (a - m) ⌈/⌉ m + 1 = a ⌈/⌉ m := by
  refine le_antisymm ?_ (ceilDiv_le_succ hm (by omega))
  have hpos := one_le_ceilDiv hm h
  have hmul := le_mul_ceilDiv hm a
  have : (a - m) ⌈/⌉ m ≤ a ⌈/⌉ m - 1 := by
    rw [ceilDiv_le_iff_le_mul hm, Nat.mul_sub, Nat.mul_one]
    omega
  omega

/-- A payload cut into pieces of `n`, the last one maybe shorter. -/
def pieces (n : ℕ) (l : List α) : List (List α) := (List.range (l.length ⌈/⌉ n)).map (piece n l)

@[simp] theorem pieces_nil (n : ℕ) : pieces n ([] : List α) = [] := by simp [pieces]

@[simp] theorem length_pieces (n : ℕ) (l : List α) : (pieces n l).length = l.length ⌈/⌉ n := by
  simp [pieces]

theorem pieces_eq_cons (hn : 0 < n) (hl : l ≠ []) :
    pieces n l = l.take n :: pieces n (l.drop n) := by
  have hcount := ceilDiv_sub_add_one hn (length_pos_iff.2 hl)
  rw [pieces, ← hcount, range_succ_eq_map, map_cons, map_map, piece_zero, pieces, length_drop]
  congr 1
  exact map_congr_left fun i _ => piece_succ n l i

theorem length_le_of_mem_pieces {p : List α} (h : p ∈ pieces n l) : p.length ≤ n := by
  obtain ⟨i, -, rfl⟩ := mem_map.1 h
  rw [length_piece]
  omega

theorem ne_nil_of_mem_pieces (hn : 0 < n) {p : List α} (h : p ∈ pieces n l) : p ≠ [] := by
  obtain ⟨i, hi, rfl⟩ := mem_map.1 h
  have hlt : n * i < l.length := by
    by_contra hle
    exact absurd (List.mem_range.1 hi) (not_lt.2 ((ceilDiv_le_iff_le_mul hn).2 (not_lt.1 hle)))
  rw [← length_pos_iff, length_piece]
  omega

/-- **The pieces put together are the payload.** -/
theorem flatten_pieces (hn : 0 < n) (l : List α) : (pieces n l).flatten = l := by
  rw [pieces, ← flatMap_def]
  exact flatMap_piece_of_le (le_mul_ceilDiv hn l.length)

end OpenBlue
