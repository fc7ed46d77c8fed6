import Mathlib.Data.List.Forall2
import Mathlib.Data.List.Nodup
import Mathlib.Data.List.ReduceOption
import OpenBlue.Common.Sum
/-!
# Blocks kept in slots

A pool hands out its blocks from a free list, and those who take them keep
them in rows of slots. A step that only moves blocks between one row and
the free list keeps the account of every block; this file has that
account, the moves it is kept by, and what it says when the pool starts
with each block once.
-/

namespace OpenBlue

open List

variable {β : Type*} [DecidableEq β] {b : β} {free pool : List β}
variable {ids ids' : List (Option β)} {rows : List (List (Option β))} {i o : ℕ}

/-- The blocks in the slots of all rows. -/
def held (rows : List (List (Option β))) : List β := rows.flatMap List.reduceOption

/-- How many slots have the block in them. -/
def refs (b : β) (rows : List (List (Option β))) : ℕ := (rows.map (·.count (some b))).sum

/-- Every block of the pool is on the free list or in a slot, as often as
the pool has it. -/
def Conserved (pool free : List β) (rows : List (List (Option β))) : Prop :=
  ∀ b, free.count b + refs b rows = pool.count b

/-- Blocks have only moved between a row and the free list. -/
def Moved (r r' : List (Option β) × List β) : Prop :=
  ∀ b, r'.1.count (some b) + r'.2.count b = r.1.count (some b) + r.2.count b

/-! ## Moves -/

theorem Moved.refl (r : List (Option β) × List β) : Moved r r := fun _ => rfl

theorem Moved.trans {r r' r'' : List (Option β) × List β} (h : Moved r r') (h' : Moved r' r'') :
    Moved r r'' := fun b => (h' b).trans (h b)

theorem Moved.cons {r : List (Option β) × List β} (h : Moved (ids, free) r) (x : Option β) :
    Moved (x :: ids, free) (x :: r.1, r.2) := by
  intro b
  have := h b
  simp only [count_cons] at this ⊢
  omega

theorem Moved.free_cons {r : List (Option β) × List β} (h : Moved (ids, b :: free) r) :
    Moved (some b :: ids, free) (none :: r.1, r.2) := by
  intro c
  have := h c
  simp only [count_cons, beq_iff_eq, Option.some.injEq, reduceCtorEq, if_false] at this ⊢
  omega

theorem moved_take (ho : ids[o]? = some none) :
    Moved (ids, b :: free) (ids.set o (some b), free) := by
  intro c
  obtain ⟨hlt, hnone⟩ := List.getElem?_eq_some_iff.1 ho
  simp only [List.count_set hlt, hnone, count_cons, beq_iff_eq, Option.some.injEq,
    reduceCtorEq, if_false, Nat.sub_zero]
  omega

theorem set_of_getElem? {α : Type*} {l : List α} {x : α} (ho : l[o]? = some x) : l.set o x = l := by
  obtain ⟨hlt, rfl⟩ := List.getElem?_eq_some_iff.1 ho
  exact set_getElem_self hlt

/-! ## The account -/

theorem refs_set (hi : rows[i]? = some ids) (b : β) (ids' : List (Option β)) :
    refs b (rows.set i ids') + ids.count (some b) = refs b rows + ids'.count (some b) :=
  sum_map_set (List.count (some b)) hi ids'

/-- **A move keeps the account.** -/
theorem Conserved.set {r : List (Option β) × List β} (h : Conserved pool free rows)
    (hi : rows[i]? = some ids) (hm : Moved (ids, free) r) :
    Conserved pool r.2 (rows.set i r.1) := by
  intro b
  have hset := refs_set hi b r.1
  have hmoved := hm b
  have hold := h b
  dsimp only at hmoved
  omega

theorem count_held : (held rows).count b = refs b rows := by
  induction rows with
  | nil => rfl
  | cons row rows ih =>
    have hrow : row.reduceOption.count b = row.count (some b) := by
      induction row with
      | nil => rfl
      | cons x row ih =>
        cases x with
        | none => simp [reduceOption_cons_of_none, ih]
        | some c => simp [reduceOption_cons_of_some, ih, count_cons]
    rw [held, flatMap_cons, count_append, ← held, ih, hrow]
    rfl

/-- **What is not free is in exactly one slot**, where the pool has each
block once. -/
theorem Conserved.perm (h : Conserved pool free rows) (hpool : pool.Nodup) :
    (held rows).Perm (pool.filter fun b => decide (b ∉ free)) := by
  refine perm_iff_count.2 fun b => ?_
  have hb := h b
  rw [count_held]
  by_cases hfree : b ∈ free
  · have hpos : 0 < free.count b := count_pos_iff.2 hfree
    have hone : pool.count b ≤ 1 := nodup_iff_count_le_one.1 hpool b
    rw [count_eq_zero_of_not_mem (by simp [hfree])]
    omega
  · rw [count_filter (by simpa using hfree), ← hb, count_eq_zero_of_not_mem hfree, Nat.zero_add]

theorem Conserved.nodup (h : Conserved pool free rows) (hpool : pool.Nodup) : free.Nodup := by
  refine nodup_iff_count_le_one.2 fun b => ?_
  have hb := h b
  have hone : pool.count b ≤ 1 := nodup_iff_count_le_one.1 hpool b
  omega

/-! ## Owners -/

section Owners

variable {α γ κ : Type*} {R : α → γ → Prop} {l l' : List α} {m : List γ} {x : α} {y : γ}

theorem forall₂_set (h : l.Forall₂ R m) (hxy : R x y) : (l.set i x).Forall₂ R (m.set i y) := by
  induction h generalizing i with
  | nil => exact .nil
  | cons hab hrest ih =>
    cases i with
    | zero => exact .cons hxy hrest
    | succ i => exact .cons hab ih

theorem forall₂_getElem? (h : l.Forall₂ R m) (hi : l[i]? = some x) :
    ∃ y, m[i]? = some y ∧ R x y := by
  induction h generalizing i with
  | nil => exact nomatch hi
  | @cons a b _ _ hab _ ih =>
    cases i with
    | zero => exact ⟨b, rfl, Option.some.inj hi ▸ hab⟩
    | succ i => exact ih hi

theorem forall₂_map_congr {f : α → κ} (hR : ∀ a a' b, f a' = f a → R a b → R a' b)
    (h : l.Forall₂ R m) (hmap : l'.map f = l.map f) : l'.Forall₂ R m := by
  induction h generalizing l' with
  | nil =>
    obtain rfl := map_eq_nil_iff.1 hmap
    exact .nil
  | cons hab _ ih =>
    obtain ⟨a', t', rfl, ha, ht⟩ := map_eq_cons_iff.1 hmap
    exact .cons (hR _ _ _ ha hab) (ih ht)

theorem forall₂_replicate (n : ℕ) (hxy : R x y) :
    (List.replicate n x).Forall₂ R (List.replicate n y) := by
  induction n with
  | zero => exact .nil
  | succ n ih => exact .cons hxy ih

end Owners

end OpenBlue
