import OpenBlue.Common.Slots
import OpenBlue.Mesh.Model.SegPool
import OpenBlue.Mesh.SeqAuth
/-!
# Mesh — the loops over the segment buffers

What each loop that takes or frees blocks of the pool `segs` does with the
pointers of a context: it only moves blocks between them and the free
list, and goes over the pointers as it goes over the contents. The loops
that free leave nothing behind, if the bound they stop at is not too
small; the one that takes has a block for each segment, or runs out.
-/

namespace OpenBlue

namespace Mesh

open Function List Nat

variable {cfg : TransCfg} {env : SendEnv} {tx : NetTx} {ids : List (Option ℕ)}
variable {seg : List (Option Bytes)} {free : List ℕ} {nack k o : ℕ}

/-! ## Loops -/

/-- The pointers and the contents of a context are there in the same
places. -/
def SameHeld (ids : List (Option ℕ)) (seg : List (Option Bytes)) : Prop :=
  ids.map Option.isSome = seg.map Option.isSome

/-- The places that are not NULL. -/
def count (ids : List (Option ℕ)) : ℕ := ids.countP Option.isSome

@[simp] theorem count_nil : count [] = 0 := rfl

@[simp] theorem count_none (ids : List (Option ℕ)) : count (none :: ids) = count ids := rfl

@[simp] theorem count_some (b : ℕ) (ids : List (Option ℕ)) :
    count (some b :: ids) = count ids + 1 := by
  simp [count]

theorem count_eq_zero : count ids = 0 ↔ ∀ p ∈ ids, p = none := by
  simp [count, countP_eq_zero]

theorem moved_txFree (nack k : ℕ) (ids : List (Option ℕ)) (free : List ℕ) :
    Moved (ids, free) (txFree nack k ids free) := by
  fun_induction txFree nack k ids free with
  | case1 | case2 | case3 => exact .refl _
  | case4 nack k ids free r ih => exact ih.cons none
  | case5 nack k b ids free r ih => exact ih.free_cons

@[simp] theorem txFree_nil (nack k : ℕ) (free : List ℕ) : txFree nack k [] free = ([], free) := by
  cases nack <;> cases k <;> rfl

theorem moved_ackFree (ack o : ℕ) (ids : List (Option ℕ)) (free : List ℕ) :
    Moved (ids, free) (ackFree ack o ids free) := by
  fun_induction ackFree ack o ids free with
  | case1 => exact .refl _
  | case2 o ids free r ih => exact ih.cons none
  | case3 o b ids free hbit r ih => exact ih.free_cons
  | case4 o b ids free hbit r ih => exact ih.cons (some b)

theorem moved_rxFree (k : ℕ) (ids : List (Option ℕ)) (free : List ℕ) :
    Moved (ids, free) (rxFree k ids free) := by
  fun_induction rxFree k ids free with
  | case1 | case2 => exact .refl _
  | case3 k ids free r ih => exact ih.cons none
  | case4 k b ids free r ih => exact ih.free_cons

/-- **The loop of `seg_tx_reset` clears every place**, where `nack_count`
is not too small and nothing lies past `seg_n`. -/
theorem count_txFree (free : List ℕ) (hnack : count ids ≤ nack)
    (hlast : ∀ o, (ids.getD o none).isSome → o < k) : count (txFree nack k ids free).1 = 0 := by
  fun_induction txFree nack k ids free with
  | case1 => exact le_zero.1 hnack
  | case2 nack ids =>
    refine count_eq_zero.2 fun p hp => ?_
    obtain ⟨o, ho⟩ := mem_iff_getElem?.1 hp
    cases p with
    | none => rfl
    | some b => exact absurd (hlast o (by simp [ho])) (Nat.not_lt_zero o)
  | case3 => rfl
  | case4 nack k ids free r ih =>
    exact ih hnack fun o ho => by simpa using hlast (o + 1) ho
  | case5 nack k b ids free r ih =>
    rw [count_some] at hnack
    exact ih (by omega) fun o ho => by simpa using hlast (o + 1) ho

theorem rxFree_none (free : List ℕ) (hlast : ∀ o, (ids.getD o none).isSome → o < k) :
    count (rxFree k ids free).1 = 0 := by
  fun_induction rxFree k ids free with
  | case1 ids =>
    refine count_eq_zero.2 fun p hp => ?_
    obtain ⟨o, ho⟩ := mem_iff_getElem?.1 hp
    cases p with
    | none => rfl
    | some b => exact absurd (hlast o (by simp [ho])) (Nat.not_lt_zero o)
  | case2 => rfl
  | case3 k ids free r ih => exact ih fun o ho => by simpa using hlast (o + 1) ho
  | case4 k b ids free r ih => exact ih fun o ho => by simpa using hlast (o + 1) ho

theorem SameHeld.txFree (h : SameHeld ids seg) (nack k : ℕ) (free : List ℕ) :
    SameHeld (txFree nack k ids free).1 (dropSegs nack k seg) := by
  induction nack, k, ids, free using Mesh.txFree.induct generalizing seg with
  | case1 => simpa [Mesh.txFree, dropSegs] using h
  | case2 nack ids free hnack => cases nack <;> simpa [Mesh.txFree, dropSegs] using h
  | case3 nack k free =>
    obtain rfl : seg = [] := by simpa [SameHeld] using h.symm
    cases nack <;> cases k <;> exact h
  | case4 nack k ids free ih =>
    cases seg with
    | nil => simp [SameHeld] at h
    | cons x seg =>
      obtain ⟨hx, hseg⟩ := List.cons.inj h
      obtain rfl : x = none := by simpa using hx.symm
      exact congrArg (false :: ·) (ih hseg)
  | case5 nack k b ids free ih =>
    cases seg with
    | nil => simp [SameHeld] at h
    | cons x seg =>
      obtain ⟨hx, hseg⟩ := List.cons.inj h
      obtain ⟨y, rfl⟩ : ∃ y, x = some y := Option.isSome_iff_exists.1 hx.symm
      exact congrArg (false :: ·) (ih hseg)

theorem SameHeld.length (h : SameHeld ids seg) : ids.length = seg.length := by
  simpa using congrArg List.length h

theorem SameHeld.getD (h : SameHeld ids seg) (o : ℕ) :
    (ids.getD o none).isSome = (seg.getD o none).isSome := by
  have heq := congrArg (·[o]?) h
  simp only [getElem?_map] at heq
  rw [getD_eq_getElem?_getD, getD_eq_getElem?_getD]
  cases hp : ids[o]? <;> cases hx : seg[o]? <;> simp_all

theorem SameHeld.cons {p : Option ℕ} {x : Option Bytes} (hx : p.isSome = x.isSome)
    (h : SameHeld ids seg) : SameHeld (p :: ids) (x :: seg) := by
  rw [SameHeld, map_cons, map_cons, hx, h]

theorem sameHeld_cons {p : Option ℕ} {x : Option Bytes} :
    SameHeld (p :: ids) (x :: seg) ↔ p.isSome = x.isSome ∧ SameHeld ids seg := cons_eq_cons

theorem SameHeld.ackFree (h : SameHeld ids seg) (ack o : ℕ) (free : List ℕ) :
    SameHeld (ackFree ack o ids free).1
      (seg.mapIdx fun j x => if ack.testBit (o + j) then none else x) := by
  induction ids generalizing seg o free with
  | nil =>
    obtain rfl : seg = [] := by simpa [SameHeld] using h.symm
    rfl
  | cons p ids ih =>
    cases seg with
    | nil => simp [SameHeld] at h
    | cons x seg =>
      obtain ⟨hx, hseg⟩ := sameHeld_cons.1 h
      have hrest (free : List ℕ) := ih hseg (o + 1) free
      simp only [Nat.add_assoc, Nat.add_comm 1] at hrest
      rw [mapIdx_cons]
      cases p with
      | none =>
        obtain rfl : x = none := by simpa using hx.symm
        exact (hrest free).cons (by simp)
      | some b =>
        rw [Mesh.ackFree]
        split
        next hbit => exact (hrest _).cons (by simp [hbit])
        next hbit => exact (hrest _).cons (by simpa [hbit] using hx)

/-- **Each acked segment that was held is one less**, counted as
`nack_count` is. -/
theorem SameHeld.count_ackFree {n : ℕ} (h : SameHeld ids seg) (ack o : ℕ)
    (hn : seg.length ≤ n) (free : List ℕ) :
    ((List.range n).filter fun j => ack.testBit (o + j) && (seg.getD j none).isSome).length +
      count (Mesh.ackFree ack o ids free).1 = count ids := by
  induction ids generalizing seg o n free with
  | nil =>
    obtain rfl : seg = [] := by simpa [SameHeld] using h.symm
    simp [Mesh.ackFree]
  | cons p ids ih =>
    cases seg with
    | nil => simp [SameHeld] at h
    | cons x seg =>
      obtain ⟨n, rfl⟩ : ∃ m, n = m + 1 := ⟨n - 1, by simp only [length_cons] at hn; omega⟩
      obtain ⟨hx, hseg⟩ := sameHeld_cons.1 h
      have hrest (free : List ℕ) := ih hseg (o + 1) (n := n) (by simpa using hn) free
      simp only [Nat.add_assoc, Nat.add_comm 1] at hrest
      rw [range_succ_eq_map, filter_cons, filter_map, getD_cons_zero, Nat.add_zero, ← hx]
      cases p with
      | none => simpa [Mesh.ackFree, comp_def] using hrest free
      | some b =>
        rw [Mesh.ackFree]
        by_cases hbit : ack.testBit o
        · have := hrest (b :: free)
          simp only [hbit, Option.isSome_some, Bool.and_self, if_true, length_cons,
            length_map, comp_def, getD_cons_succ, count_none, count_some,
            succ_eq_add_one] at this ⊢
          omega
        · have := hrest free
          simp only [hbit, Option.isSome_some, Bool.and_true, if_false, Bool.false_eq_true,
            length_map, comp_def, getD_cons_succ, count_some,
            succ_eq_add_one] at this ⊢
          omega

/-! ## Segmentation -/

/-- The segments of an SDU of this length. -/
def segCount (ctl : Bool) (len : ℕ) : ℕ := (len + segLen ctl - 1) / segLen ctl

@[simp] theorem segCount_zero (ctl : Bool) : segCount ctl 0 = 0 := by cases ctl <;> rfl

theorem segCount_of_pos {len : ℕ} (ctl : Bool) (hpos : 0 < len) :
    segCount ctl len = (len - 1) / segLen ctl + 1 := by
  have hlen := segLen_pos ctl
  rw [segCount, ← add_div_right _ hlen]
  congr 1
  omega

theorem segCount_sub {len : ℕ} (ctl : Bool) (hpos : 0 < len) :
    segCount ctl (len - segLen ctl) + 1 = segCount ctl len := by
  have hlen := segLen_pos ctl
  rw [segCount_of_pos ctl hpos]
  rcases Nat.lt_or_ge (segLen ctl) len with hlt | hge
  · rw [segCount_of_pos ctl (by omega), div_eq_sub_div hlen (le_sub_one_of_lt hlt),
      Nat.sub_right_comm]
  · rw [Nat.sub_eq_zero_of_le hge, segCount_zero, div_eq_of_lt (by omega)]

theorem count_set {b : ℕ} (ho : ids[o]? = some none) :
    count (ids.set o (some b)) = count ids + 1 := by
  obtain ⟨hlt, hnone⟩ := List.getElem?_eq_some_iff.1 ho
  simp [count, countP_set, hlt, hnone]

/-- What the segmentation loop does, from segment `o` on with `n` segments
left: it takes a block for each, or runs out of them. -/
structure Cut (o n : ℕ) (ids : List (Option ℕ)) (free : List ℕ)
    (r : List (Option ℕ) × List ℕ × Bool) : Prop where
  moved : Moved (ids, free) (r.1, r.2.1)
  count_le : count r.1 ≤ count ids + n
  count_eq : r.2.2 = true → count r.1 = count ids + n
  last : ∀ j, (r.1.getD j none).isSome → (ids.getD j none).isSome ∨ j < o + n

theorem cutBlocks_cut (ctl : Bool) (hfriend : ∀ o, friendOnly cfg env tx o = false) {fuel : ℕ}
    {sdu : Bytes} (hfuel : sdu.length ≤ fuel) (hempty : ∀ j, o ≤ j → ids.getD j none = none)
    (hroom : o + min (segCount ctl sdu.length) free.length ≤ ids.length) :
    Cut o (segCount ctl sdu.length) ids free (cutBlocks cfg env tx ctl fuel o sdu ids free) := by
  induction fuel generalizing o sdu ids free with
  | zero =>
    obtain rfl : sdu = [] := length_eq_zero_iff.1 (by omega)
    exact ⟨.refl _, by simp [cutBlocks], by simp [cutBlocks], fun j hj => .inl hj⟩
  | succ fuel ih =>
    rw [cutBlocks.eq_def]
    dsimp only
    split
    next hsdu =>
      obtain rfl := List.isEmpty_iff.1 hsdu
      exact ⟨.refl _, by simp, by simp, fun j hj => .inl hj⟩
    next hsdu =>
      have hne : sdu ≠ [] := fun h => hsdu (List.isEmpty_iff.2 h)
      have hn := segCount_sub ctl (length_pos_iff.2 hne)
      rw [← length_drop] at hn
      cases free with
      | nil => exact ⟨.refl _, Nat.le_add_right _ _, nofun, fun j hj => .inl hj⟩
      | cons b free =>
        simp only [hfriend o, Bool.false_eq_true, if_false]
        have hlt : o < ids.length := by simp only [length_cons] at hroom; omega
        have ho : ids[o]? = some none := by
          have := hempty o (Nat.le_refl o)
          rw [getD_eq_getElem?_getD, getElem?_eq_getElem hlt] at this
          rw [getElem?_eq_getElem hlt]
          exact congrArg some this
        have hpos := segLen_pos ctl
        have hcut : Cut (o + 1) (segCount ctl (sdu.drop (segLen ctl)).length) (ids.set o (some b))
            free (cutBlocks cfg env tx ctl fuel (o + 1) (sdu.drop (segLen ctl))
              (ids.set o (some b)) free) := ih (by simp only [length_drop]; omega)
          (fun j hj => by
            rw [getD_eq_getElem?_getD, getElem?_set_ne (by omega), ← getD_eq_getElem?_getD]
            exact hempty j (by omega))
          (by simp only [length_set, length_cons] at hroom ⊢; omega)
        have hcount := count_set (b := b) ho
        refine ⟨(moved_take ho).trans hcut.moved, ?_, fun hok => ?_, fun j hj => ?_⟩
        · have := hcut.count_le
          omega
        · have := hcut.count_eq hok
          omega
        · rcases hcut.last j hj with hold | hnew
          · by_cases hjo : o = j
            · exact .inr (by omega)
            · rw [getD_eq_getElem?_getD, getElem?_set_ne hjo, ← getD_eq_getElem?_getD] at hold
              exact .inl hold
          · exact .inr (by omega)

theorem cutBlocks_cutSegs (hfriend : ∀ o, friendOnly cfg env tx o = false) (ctl : Bool)
    (fuel : ℕ) (sdu : Bytes) (hpool : ∀ j, env.segAlloc (o + j) = decide (j < free.length))
    (h : SameHeld ids seg) : (cutBlocks cfg env tx ctl fuel o sdu ids free).2.2 =
        (cutSegs cfg env tx ctl fuel o sdu seg).2 ∧
      SameHeld (cutBlocks cfg env tx ctl fuel o sdu ids free).1
        (cutSegs cfg env tx ctl fuel o sdu seg).1 := by
  induction fuel generalizing o sdu ids free seg with
  | zero => exact ⟨rfl, h⟩
  | succ fuel ih =>
    rw [cutBlocks.eq_def, cutSegs]
    dsimp only
    split
    · exact ⟨rfl, h⟩
    · have halloc := hpool 0
      cases free with
      | nil =>
        simp only [Nat.add_zero, length_nil, Nat.lt_irrefl, decide_false] at halloc
        simp only [halloc, Bool.not_false, if_true]
        exact ⟨trivial, h⟩
      | cons b free =>
        simp only [Nat.add_zero, length_cons, zero_lt_succ, decide_true] at halloc
        simp only [halloc, hfriend o, Bool.not_true, Bool.false_eq_true, if_false]
        refine ih _ (fun j => ?_) ?_
        · have := hpool (j + 1)
          rw [Nat.add_assoc, Nat.add_comm 1, this]
          simp
        · rw [SameHeld, map_set, map_set, h]
          rfl

end Mesh

end OpenBlue
