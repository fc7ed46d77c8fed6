import Mathlib.Algebra.Order.Ring.Int
import Mathlib.Data.List.Basic
/-!
# Tables of entries with a key

A table of fixed size keeps its entries in slots; an entry that is not in
use has a key that stands for none. This file has the two searches such a
table is used by, for the slot of a key and for a slot to put a key in,
and the rule that no two used entries share a key, with the updates of one
slot that keep it.
-/

namespace OpenBlue

open List Option

variable {α : Type*} {key : α → ℕ} {unused k : ℕ} {t : List α} {x y : α} {i j : ℕ}

/-- The first slot whose entry has the key. -/
def slotOf (key : α → ℕ) (k : ℕ) : List α → Option ℕ
  | [] => none
  | x :: t => if key x = k then some 0 else (slotOf key k t).map (· + 1)

/-- The first slot whose entry has the key; where there is none, the first
whose entry is not in use. `free` is what the loop has found so far. -/
def slotFor (key : α → ℕ) (unused k : ℕ) : ℕ → Option ℕ → List α → Option ℕ
  | _, free, [] => free
  | i, free, x :: t =>
    if key x = k then some i
    else slotFor key unused k (i + 1)
      (if free = none ∧ key x = unused then some i else free) t

/-- The entry the search for the slot of a key ends at. -/
def entryOf (key : α → ℕ) (k : ℕ) (t : List α) : Option α := (slotOf key k t).bind (t[·]?)

/-- No two entries in use share a key. -/
def UniqueKeys (key : α → ℕ) (unused : ℕ) (t : List α) : Prop :=
  ∀ (i j : ℕ) (x y : α), t[i]? = some x → t[j]? = some y → key x = key y → key x ≠ unused → i = j

/-! ## The slot of a key -/

theorem slotOf_eq_some (h : slotOf key k t = some i) : ∃ x, t[i]? = some x ∧ key x = k := by
  induction t generalizing i with
  | nil => exact nomatch h
  | cons x t ih =>
    rw [slotOf] at h
    split at h
    next hx =>
      obtain rfl := Option.some.inj h
      exact ⟨x, rfl, hx⟩
    next =>
      obtain ⟨j, hj, rfl⟩ := map_eq_some_iff.1 h
      exact ih hj

theorem slotOf_eq_none : slotOf key k t = none ↔ ∀ x ∈ t, key x ≠ k := by
  induction t with
  | nil => simp [slotOf]
  | cons x t ih =>
    rw [slotOf]
    split
    next hx => simp [hx]
    next hx => simp [hx, ih]

theorem slotOf_eq_of_unique (h : UniqueKeys key unused t) (hi : t[i]? = some x)
    (hk : key x ≠ unused) : slotOf key (key x) t = some i := by
  cases hslot : slotOf key (key x) t with
  | none => exact absurd rfl (slotOf_eq_none.1 hslot x (mem_of_getElem? hi))
  | some j =>
    obtain ⟨y, hj, hy⟩ := slotOf_eq_some hslot
    rw [h j i y x hj hi hy (hy ▸ hk)]

/-- **The entry of a key** is the one that has it. -/
theorem entryOf_eq_some (h : UniqueKeys key unused t) (hk : k ≠ unused) :
    entryOf key k t = some x ↔ x ∈ t ∧ key x = k := by
  rw [entryOf, bind_eq_some_iff]
  constructor
  · rintro ⟨i, hslot, hi⟩
    obtain ⟨y, hy, hkey⟩ := slotOf_eq_some hslot
    obtain rfl : y = x := mem_unique hy hi
    exact ⟨mem_of_getElem? hi, hkey⟩
  · rintro ⟨hmem, rfl⟩
    obtain ⟨i, hi⟩ := mem_iff_getElem?.1 hmem
    exact ⟨i, slotOf_eq_of_unique h hi hk, hi⟩

theorem entryOf_eq_none (h : UniqueKeys key unused t) (hk : k ≠ unused) :
    entryOf key k t = none ↔ ∀ x ∈ t, key x ≠ k := by
  rw [eq_none_iff_forall_not_mem]
  constructor
  · intro hnone x hx hkey
    exact hnone x ((entryOf_eq_some h hk).2 ⟨hx, hkey⟩)
  · intro hne x hx
    obtain ⟨hmem, hkey⟩ := (entryOf_eq_some h hk).1 hx
    exact hne x hmem hkey

/-! ## A slot for a key -/

theorem slotFor_spec {free : Option ℕ} (n : ℕ) (h : slotFor key unused k n free t = some i) :
    (∃ j x, i = n + j ∧ t[j]? = some x ∧ key x = k) ∨ (∀ x ∈ t, key x ≠ k) ∧
        (free = some i ∨ free = none ∧ ∃ j x, i = n + j ∧ t[j]? = some x ∧ key x = unused) := by
  induction t generalizing n free with
  | nil => exact .inr ⟨by simp, .inl h⟩
  | cons x t ih =>
    rw [slotFor] at h
    split at h
    next hx => exact .inl ⟨0, x, (Option.some.inj h).symm, rfl, hx⟩
    next hx =>
      rcases ih (n + 1) h with ⟨j, y, hi, hj, hy⟩ | ⟨hnone, hfree⟩
      · exact .inl ⟨j + 1, y, by omega, hj, hy⟩
      have hall : ∀ y ∈ x :: t, key y ≠ k := by simpa [hx] using hnone
      refine .inr ⟨hall, ?_⟩
      split at hfree
      next hfirst =>
        refine .inr ⟨hfirst.1, 0, x, ?_, rfl, hfirst.2⟩
        rcases hfree with hn | ⟨hn, -⟩
        · exact (Option.some.inj hn).symm
        · exact nomatch hn
      next =>
        rcases hfree with hn | ⟨hn, j, y, hi, hj, hy⟩
        · exact .inl hn
        · exact .inr ⟨hn, j + 1, y, by omega, hj, hy⟩

/-- **What the search finds**: an entry with the key, or one not in use in a
table without the key. -/
theorem slotFor_eq_some (h : slotFor key unused k 0 none t = some i) :
    ∃ x, t[i]? = some x ∧ (key x = k ∨ key x = unused ∧ ∀ y ∈ t, key y ≠ k) := by
  rcases slotFor_spec 0 h with ⟨j, x, rfl, hj, hx⟩ | ⟨hnone, hfree | ⟨-, j, x, rfl, hj, hx⟩⟩
  · exact ⟨x, by rwa [Nat.zero_add], .inl hx⟩
  · exact nomatch hfree
  · exact ⟨x, by rwa [Nat.zero_add], .inr ⟨hx, hnone⟩⟩

/-! ## Updates of one slot -/

theorem getElem?_set_cases {a : α} (h : (t.set i a)[j]? = some y) :
    (i = j ∧ y = a) ∨ (i ≠ j ∧ t[j]? = some y) := by
  rw [getElem?_set] at h
  split at h
  next hij =>
    split at h
    · exact .inl ⟨hij, (Option.some.inj h).symm⟩
    · exact nomatch h
  next hij => exact .inr ⟨hij, h⟩

theorem mem_set_of_ne {a : α} (hj : t[j]? = some y) (hij : i ≠ j) : y ∈ t.set i a :=
  mem_of_getElem? (by rwa [getElem?_set_ne hij])

theorem mem_set_self {a : α} (hi : t[i]? = some x) : a ∈ t.set i a := by
  obtain ⟨hlt, -⟩ := List.getElem?_eq_some_iff.1 hi
  exact mem_of_getElem? (getElem?_set_self hlt)

/-- **Keys stay unique** where the entry keeps its key, is given one that no
entry has, or goes out of use. -/
theorem UniqueKeys.set (h : UniqueKeys key unused t) (hi : t[i]? = some x)
    (hkey : key y = key x ∨ key y = unused ∨ ∀ z ∈ t, key z ≠ key y) :
    UniqueKeys key unused (t.set i y) := by
  -- Whatever entry of another slot has the key of the new one, it is in the table.
  have hother : ∀ (j : ℕ) (z : α), i ≠ j → t[j]? = some z → key y = key z → key y ≠ unused → i = j := by
    intro j z _ hz hyz hy
    rcases hkey with hkey | hkey | hkey
    · exact h i j x z hi hz (hkey ▸ hyz) (hkey ▸ hy)
    · exact absurd hkey hy
    · exact absurd hyz.symm (hkey z (mem_of_getElem? hz))
  intro j l a b ha hb hab hused
  rcases getElem?_set_cases ha with ⟨rfl, rfl⟩ | ⟨hij, ha'⟩
  · rcases getElem?_set_cases hb with ⟨rfl, -⟩ | ⟨hil, hb'⟩
    · rfl
    · exact hother l b hil hb' hab hused
  · rcases getElem?_set_cases hb with ⟨rfl, rfl⟩ | ⟨-, hb'⟩
    · exact (hother j a hij ha' hab.symm (hab ▸ hused)).symm
    · exact h j l a b ha' hb' hab hused

/-- **What the table says of each key** after one entry is replaced. -/
theorem entryOf_set (h : UniqueKeys key unused t) (hi : t[i]? = some x)
    (hkey : key y = key x ∨ key y = unused ∨ ∀ z ∈ t, key z ≠ key y) (hk : k ≠ unused) :
    entryOf key k (t.set i y) =
      if key y = k then some y else if key x = k then none else entryOf key k t := by
  have h' : UniqueKeys key unused (t.set i y) := h.set hi hkey
  split
  next hy => exact (entryOf_eq_some h' hk).2 ⟨mem_set_self hi, hy⟩
  next hy =>
    split
    next hx =>
      refine (entryOf_eq_none h' hk).2 fun z hz hzk => ?_
      obtain ⟨j, hj⟩ := mem_iff_getElem?.1 hz
      rcases getElem?_set_cases hj with ⟨-, rfl⟩ | ⟨hij, hj'⟩
      · exact hy hzk
      · exact hij (h i j x z hi hj' (hx.trans hzk.symm) (hx ▸ hk))
    next hx =>
      ext z
      rw [entryOf_eq_some h' hk, entryOf_eq_some h hk]
      refine and_congr_left fun hzk => ⟨fun hz => ?_, fun hz => ?_⟩
      · exact (mem_or_eq_of_mem_set hz).resolve_right fun hzy => hy (hzy ▸ hzk)
      · obtain ⟨j, hj⟩ := mem_iff_getElem?.1 hz
        refine mem_set_of_ne hj fun hij => hx ?_
        subst hij
        rw [← hzk, mem_unique hi hj]

theorem uniqueKeys_of_forall (h : ∀ x ∈ t, key x = unused) : UniqueKeys key unused t :=
  fun _ _ x _ hx _ _ hused => absurd (h x (mem_of_getElem? hx)) hused

end OpenBlue
