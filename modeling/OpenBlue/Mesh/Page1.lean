import OpenBlue.Common.Run
import OpenBlue.Mesh.CompData
import OpenBlue.Mesh.Model.Extend
/-!
# Mesh — reading Composition Data Page 1

A model on page 1 is a header that tells whether a correspondence follows, how
many extended models follow, and whether these take one byte each or two; a
reader has nothing else to go by (`readModel`). The count has six bits, and
each of three places decides on the format for itself: the header by the
offset furthest away, an item by its own. What is read is what was registered
just where the count fits and the offsets call for one format (`ItemFits`).
-/

namespace OpenBlue

namespace CompData

open List Option

/-! ## The reader -/

/-- A signed number of `bits` bits. -/
def signed (bits n : ℕ) : ℤ := if n < 2 ^ (bits - 1) then n else (n : ℤ) - 2 ^ bits

/-- An item in the short format: three bits of element offset below five of
index. -/
def readShort (b : UInt8) : ℤ × ℕ := (signed 3 (b &&& 7).toNat, (b >>> 3).toNat)

/-- An item in the long format. -/
def readLong (offset index : UInt8) : ℤ × ℕ := (signed 8 offset.toNat, index.toNat)

/-- An item in the format that is announced. -/
def readItem : Bool → Bytes → Option ((ℤ × ℕ) × Bytes)
  | false, b :: rest => some (readShort b, rest)
  | true, b :: b' :: rest => some (readLong b b', rest)
  | _, _ => none

/-- So many items in one format. -/
def readItems (long : Bool) : ℕ → Bytes → Option (List (ℤ × ℕ) × Bytes)
  | 0, bs => some ([], bs)
  | n + 1, bs => do
    let (item, bs) ← readItem long bs
    let (items, bs) ← readItems long n bs
    return (item :: items, bs)

/-- A correspondence ID, where one is announced. -/
def readCorId : Bool → Bytes → Option (Option UInt8 × Bytes)
  | false, bs => some (none, bs)
  | true, corId :: bs => some (some corId, bs)
  | true, [] => none

/-- A model as it is read from page 1. -/
structure PageModel where
  corId : Option UInt8
  items : List (ℤ × ℕ)
  deriving DecidableEq, Repr

/-- A model is read by what its header announces. -/
def readModel : Bytes → Option (PageModel × Bytes)
  | [] => none
  | h :: bs => do
    let (corId, bs) ← readCorId (h &&& 1 != 0) bs
    let (items, bs) ← readItems (h &&& 2 != 0) (h >>> 2).toNat bs
    return (⟨corId, items⟩, bs)

variable {node : Node} {mod : Model} {sigOffset : ℕ} {long : Bool} {n : ℕ} {bs rest : Bytes}
  {items : List (ℤ × ℕ)} {item : ℤ × ℕ}

theorem length_of_readItem (h : readItem long bs = some (item, rest)) :
    bs.length = (if long then 2 else 1) + rest.length := by
  unfold readItem at h
  split at h
  · obtain ⟨-, rfl⟩ := Prod.mk.inj (Option.some.inj h)
    exact Nat.add_comm _ 1
  · obtain ⟨-, rfl⟩ := Prod.mk.inj (Option.some.inj h)
    exact Nat.add_comm _ 2
  · exact nomatch h

theorem length_of_readItems (h : readItems long n bs = some (items, rest)) :
    items.length = n ∧ bs.length = n * (if long then 2 else 1) + rest.length := by
  induction n generalizing bs items with
  | zero =>
    obtain ⟨rfl, rfl⟩ := Prod.mk.inj (Option.some.inj h)
    exact ⟨rfl, by omega⟩
  | succ n ih =>
    rw [readItems, bind_eq_bind, bind_eq_some_iff] at h
    obtain ⟨⟨item, bs'⟩, hitem, h⟩ := h
    obtain ⟨⟨items', rest'⟩, hitems, h⟩ := bind_eq_some_iff.1 h
    obtain ⟨rfl, rfl⟩ := Prod.mk.inj (Option.some.inj h)
    obtain ⟨hlen, hbytes⟩ := ih hitems
    have hone := length_of_readItem hitem
    rw [length_cons, Nat.succ_mul]
    omega

theorem readItems_flatMap {β : Type*} (write : β → Bytes) (value : β → ℤ × ℕ) (l : List β)
    (h : ∀ x ∈ l, ∀ rest, readItem long (write x ++ rest) = some (value x, rest)) (rest : Bytes) :
    readItems long l.length (l.flatMap write ++ rest) = some (l.map value, rest) := by
  induction l with
  | nil => rfl
  | cons x l ih =>
    rw [length_cons, readItems, flatMap_cons, append_assoc, h x mem_cons_self]
    simp only [bind_eq_bind, bind_some]
    rw [ih fun y hy => h y (mem_cons_of_mem x hy)]
    rfl

/-! ## The header -/

theorem header_bits (cnt : UInt8) (far cor : Bool) :
    ((cnt <<< 2 ||| (if far then 2 else 0) ||| (if cor then 1 else 0)) >>> 2).toNat =
        cnt.toNat % 64 ∧
      (((cnt <<< 2 ||| (if far then 2 else 0) ||| (if cor then 1 else 0)) &&& 2) != 0) = far ∧
      (((cnt <<< 2 ||| (if far then 2 else 0) ||| (if cor then 1 else 0)) &&& 1) != 0) = cor := by
  have hall : ∀ (far cor : Bool) (n : Fin 256),
      ((UInt8.ofFin n <<< 2 ||| (if far then 2 else 0) ||| (if cor then 1 else 0)) >>> 2).toNat =
          (UInt8.ofFin n).toNat % 64 ∧
        (((UInt8.ofFin n <<< 2 ||| (if far then 2 else 0) ||| (if cor then 1 else 0)) &&& 2) != 0) =
          far ∧
        (((UInt8.ofFin n <<< 2 ||| (if far then 2 else 0) ||| (if cor then 1 else 0)) &&& 1) != 0) =
          cor := by
    decide +kernel
  exact hall far cor cnt.toFin

/-- The header announces the long format. -/
def Announced (node : Node) (mod : Model) (sigOffset : ℕ) : Prop :=
  countModExt node mod sigOffset > 31 ∨ maxOffset node mod sigOffset > 3 ∨
    maxOffset node mod sigOffset < -4

instance (node : Node) (mod : Model) (sigOffset : ℕ) :
    Decidable (Announced node mod sigOffset) :=
  inferInstanceAs (Decidable (_ ∨ _ ∨ _))

/-- The items of a model, as written. -/
def itemBytes (node : Node) (sigOffset : ℕ) (mod : Model) : Bytes :=
  (extRels node mod sigOffset).flatMap (relItem mod (countModExt node mod sigOffset))

/-- **Reading a model** is reading its items in the format and number its
header announces. -/
theorem readModel_page1Model (hcount : (countModExt node mod sigOffset).toNat =
    (extRels node mod sigOffset).length) (rest : Bytes) :
    readModel (page1Model node sigOffset mod ++ rest) =
      (readItems (decide (Announced node mod sigOffset)) ((extRels node mod sigOffset).length % 64)
        (itemBytes node sigOffset mod ++ rest)).map fun p =>
          (⟨isCorPresent node mod sigOffset, p.1⟩, p.2) := by
  have hitems : (if countModExt node mod sigOffset ≠ 0 then
      (extRels node mod sigOffset).flatMap (relItem mod (countModExt node mod sigOffset))
      else []) = itemBytes node sigOffset mod := by
    split
    · rfl
    next hzero =>
      rw [not_not] at hzero
      rw [hzero] at hcount
      have hnil : extRels node mod sigOffset = [] := length_eq_zero_iff.1 hcount.symm
      rw [itemBytes, hnil, flatMap_nil]
  have hinfo : modElemInfo node mod sigOffset = countModExt node mod sigOffset <<< 2 |||
      (if decide (Announced node mod sigOffset) then 2 else 0) |||
      (if (isCorPresent node mod sigOffset).isSome then 1 else 0) := by
    unfold modElemInfo
    dsimp only
    by_cases hfar : countModExt node mod sigOffset > 31 ∨ maxOffset node mod sigOffset > 3 ∨
        maxOffset node mod sigOffset < -4
    · rw [if_pos hfar, if_pos (decide_eq_true (show Announced node mod sigOffset from hfar))]
    · have hno : ¬ decide (Announced node mod sigOffset) = true := fun h =>
        hfar (of_decide_eq_true h)
      rw [if_neg hfar, if_neg hno]
  obtain ⟨hcnt, hfar, hcor⟩ := header_bits (countModExt node mod sigOffset)
    (decide (Announced node mod sigOffset)) (isCorPresent node mod sigOffset).isSome
  rw [← hinfo] at hcnt hfar hcor
  rw [page1Model, hitems, append_assoc, append_assoc, singleton_append, readModel,
    hcnt, hfar, hcor, hcount]
  cases isCorPresent node mod sigOffset with
  | none =>
    simp only [isSome_none, toList_none, nil_append, readCorId, bind_eq_bind, bind_some]
    cases readItems _ _ _ <;> rfl
  | some corId =>
    simp only [isSome_some, toList_some, singleton_append, readCorId, bind_eq_bind, bind_some]
    cases readItems _ _ _ <;> rfl

/-! ## Items -/

variable {r : ModRelation} {cnt : UInt8}

/-- An element offset that has three bits. -/
def Near (mod : Model) (r : ModRelation) : Prop := elemOffset mod r < 4 ∧ elemOffset mod r > -5

instance (mod : Model) (r : ModRelation) : Decidable (Near mod r) :=
  inferInstanceAs (Decidable (_ ∧ _))

theorem elemOffset_bounds (mod : Model) (r : ModRelation) :
    -256 < elemOffset mod r ∧ elemOffset mod r < 256 := by
  have hmod := mod.elemIdx.toNat_lt
  have hbase := r.elemBase.toNat_lt
  unfold elemOffset
  omega

/-- The element offset and the model index of a relation. -/
def relValue (mod : Model) (r : ModRelation) : ℤ × ℕ := (elemOffset mod r, r.idxBase.toNat)

/-- **An item in the short format** is read with the lower five bits of its
index. -/
theorem readItem_short (hnear : Near mod r) (hcnt : cnt < 32) (rest : Bytes) :
    readItem false (relItem mod cnt r ++ rest) =
      some ((elemOffset mod r, r.idxBase.toNat % 32), rest) := by
  obtain ⟨o, hlt8, ho⟩ : ∃ o : ℕ, o < 8 ∧
      (o : ℤ) = if elemOffset mod r < 0 then elemOffset mod r + 8 else elemOffset mod r := by
    obtain ⟨hlt, hgt⟩ := hnear
    refine ⟨(if elemOffset mod r < 0 then elemOffset mod r + 8
      else elemOffset mod r).toNat, ?_, ?_⟩ <;> split <;> omega
  have hbits : ∀ (o : Fin 8) (n : Fin 256),
      ((UInt8.ofNat o.val ||| (UInt8.ofFin n <<< 3)) &&& 7).toNat = o.val ∧
        ((UInt8.ofNat o.val ||| (UInt8.ofFin n <<< 3)) >>> 3).toNat = n.val % 32 := by
    decide +kernel
  obtain ⟨hlow, hhigh⟩ := hbits ⟨o, hlt8⟩ r.idxBase.toFin
  have hshort : shortFormat mod cnt r = true := by simpa [shortFormat] using ⟨hcnt, hnear⟩
  have hitem : relItem mod cnt r = [UInt8.ofNat o ||| (UInt8.ofFin r.idxBase.toFin <<< 3)] := by
    rw [relItem, if_pos hshort, ← ho, Int.toNat_natCast]
    rfl
  have hvalue : readShort (UInt8.ofNat o ||| (UInt8.ofFin r.idxBase.toFin <<< 3)) =
      (elemOffset mod r, r.idxBase.toNat % 32) := by
    rw [readShort, hlow, hhigh]
    refine Prod.ext ?_ rfl
    show signed 3 o = elemOffset mod r
    obtain ⟨hlt, hgt⟩ := hnear
    unfold signed
    split at ho <;> split <;> simp only [Nat.add_one_sub_one] at * <;> omega
  rw [hitem, singleton_append, readItem, hvalue]

/-- **An item in the long format** is read with its offset in eight bits. -/
theorem readItem_long (hshort : shortFormat mod cnt r = false) (rest : Bytes) :
    readItem true (relItem mod cnt r ++ rest) =
      some (((elemOffset mod r).bmod (2 ^ 8), r.idxBase.toNat), rest) := by
  obtain ⟨hgt, hlt⟩ := elemOffset_bounds mod r
  obtain ⟨o, hlt', ho⟩ : ∃ o : ℕ, o < 256 ∧
      (o : ℤ) = if elemOffset mod r < 0 then elemOffset mod r + 256 else elemOffset mod r := by
    refine ⟨(if elemOffset mod r < 0 then elemOffset mod r + 256
      else elemOffset mod r).toNat, ?_, ?_⟩ <;> split <;> omega
  have hitem : relItem mod cnt r = [UInt8.ofNat o, r.idxBase] := by
    rw [relItem, if_neg (by rw [hshort]; decide), ← ho, Int.toNat_natCast]
    rfl
  have htoNat : (UInt8.ofNat o).toNat = o := UInt8.toNat_ofNat_of_lt' hlt'
  rw [hitem]
  show some (readLong (UInt8.ofNat o) r.idxBase, rest) = _
  rw [readLong, htoNat]
  have hsigned : signed 8 o = (elemOffset mod r).bmod (2 ^ 8) := by
    unfold signed Int.bmod
    split at ho <;> split <;> simp only [Nat.add_one_sub_one] at * <;> omega
  rw [hsigned]

theorem shortFormat_iff : shortFormat mod cnt r = true ↔ cnt < 32 ∧ Near mod r := by
  simp [shortFormat, Near]

/-! ## The offset furthest away -/

theorem foldl_natAbs {β : Type*} (f : β → ℤ) (l : List β) (init : ℤ) :
    let found := l.foldl (fun record x => if (f x).natAbs > record.natAbs then f x else record) init
    (found = init ∨ ∃ x ∈ l, found = f x) ∧ init.natAbs ≤ found.natAbs ∧
      ∀ x ∈ l, (f x).natAbs ≤ found.natAbs := by
  induction l generalizing init with
  | nil => exact ⟨.inl rfl, Nat.le_refl _, fun x hx => absurd hx not_mem_nil⟩
  | cons y l ih =>
    obtain ⟨hfrom, hinit, hall⟩ := ih (if (f y).natAbs > init.natAbs then f y else init)
    dsimp only at hfrom hinit hall ⊢
    rw [foldl_cons]
    have hstep : init.natAbs ≤ (if (f y).natAbs > init.natAbs then f y else init).natAbs ∧
        (f y).natAbs ≤ (if (f y).natAbs > init.natAbs then f y else init).natAbs := by
      split <;> omega
    refine ⟨?_, hstep.1.trans hinit, fun x hx => ?_⟩
    · rcases hfrom with hfrom | ⟨x, hx, hfrom⟩
      · split at hfrom
        next hgt =>
          rw [if_pos hgt]
          exact .inr ⟨y, mem_cons_self, hfrom⟩
        next hle =>
          rw [if_neg hle]
          exact .inl hfrom
      · exact .inr ⟨x, mem_cons_of_mem y hx, hfrom⟩
    · rcases mem_cons.1 hx with rfl | hx
      · exact hstep.2.trans hinit
      · exact hall x hx

/-- The element offset in eight bits. -/
def narrowOffset (mod : Model) (r : ModRelation) : ℤ := (elemOffset mod r).bmod (2 ^ 8)

theorem maxOffset_spec (node : Node) (mod : Model) (sigOffset : ℕ) :
    (maxOffset node mod sigOffset = 0 ∨
      ∃ r ∈ extRels node mod sigOffset, maxOffset node mod sigOffset = narrowOffset mod r) ∧
    ∀ r ∈ extRels node mod sigOffset,
      (narrowOffset mod r).natAbs ≤ (maxOffset node mod sigOffset).natAbs := by
  have hsame : maxOffset node mod sigOffset = (extRels node mod sigOffset).foldl (fun record r =>
        if (narrowOffset mod r).natAbs > record.natAbs then narrowOffset mod r else record) 0 := by
    unfold maxOffset
    refine foldl_ext _ _ 0 fun record r hr => ?_
    have hext : r.elemExt = mod.elemIdx := by
      have hmem := (mem_filter.1 hr).2
      simp only [isModExtension, Bool.decide_and, Bool.and_eq_true, decide_eq_true_eq] at hmem
      exact hmem.1.1
    rw [narrowOffset, elemOffset, hext]
  obtain ⟨hfrom, -, hall⟩ := foldl_natAbs (narrowOffset mod) (extRels node mod sigOffset) 0
  rw [← hsame] at hfrom hall
  exact ⟨hfrom, hall⟩

/-! ## Where a model is read as it is -/

/-- What is read of a model is its correspondence and the element offset and
index of each model it extends, whatever follows. -/
def ItemRight (node : Node) (sigOffset : ℕ) (mod : Model) : Prop :=
  ∀ rest, readModel (page1Model node sigOffset mod ++ rest) =
    some (⟨isCorPresent node mod sigOffset, (extRels node mod sigOffset).map (relValue mod)⟩, rest)

/-- The count has six bits; and the offsets call for one format, which is the
one that is announced, and have room in it, as have the indexes. -/
def ItemFits (node : Node) (sigOffset : ℕ) (mod : Model) : Prop :=
  (extRels node mod sigOffset).length < 64 ∧
    (((extRels node mod sigOffset).length < 32 ∧
        ∀ r ∈ extRels node mod sigOffset, Near mod r ∧ r.idxBase < 32) ∨
      (((extRels node mod sigOffset).length < 32 →
          ∀ r ∈ extRels node mod sigOffset, ¬ Near mod r) ∧
        ∀ r ∈ extRels node mod sigOffset, -128 ≤ elemOffset mod r ∧ elemOffset mod r ≤ 127))

instance (node : Node) (sigOffset : ℕ) (mod : Model) : Decidable (ItemFits node sigOffset mod) :=
  inferInstanceAs (Decidable (_ ∧ (_ ∨ _)))

theorem narrowOffset_eq (h : -128 ≤ elemOffset mod r ∧ elemOffset mod r ≤ 127) :
    narrowOffset mod r = elemOffset mod r := by
  exact Int.bmod_eq_of_le (by omega) (by omega)

theorem length_itemBytes_iff (long : Bool) : (itemBytes node sigOffset mod).length =
        (extRels node mod sigOffset).length * (if long then 2 else 1) ↔
      ∀ r ∈ extRels node mod sigOffset,
        shortFormat mod (countModExt node mod sigOffset) r = !long := by
  have hconst : ∀ k, ((extRels node mod sigOffset).map fun _ => k).sum =
      (extRels node mod sigOffset).length * k := fun k => by simp
  have hbounds : ∀ r, 1 ≤ (relItem mod (countModExt node mod sigOffset) r).length ∧
      (relItem mod (countModExt node mod sigOffset) r).length ≤ 2 := by
    intro r
    rw [length_relItem]
    split <;> omega
  rw [itemBytes, length_flatMap]
  cases long with
  | false =>
    have hsum := (sum_map_le_iff (l := extRels node mod sigOffset) fun r _ => (hbounds r).1).2
    rw [hconst] at hsum
    rw [if_neg (by decide), eq_comm, hsum]
    refine forall₂_congr fun r _ => ?_
    rw [length_relItem]
    split <;> simp_all
  | true =>
    have hsum := (sum_map_le_iff (l := extRels node mod sigOffset) fun r _ => (hbounds r).2).2
    rw [hconst] at hsum
    rw [if_pos rfl, hsum]
    refine forall₂_congr fun r _ => ?_
    rw [length_relItem]
    split <;> simp_all

variable (hcount : (countModExt node mod sigOffset).toNat = (extRels node mod sigOffset).length)

include hcount in
theorem countModExt_lt_iff :
    countModExt node mod sigOffset < 32 ↔ (extRels node mod sigOffset).length < 32 := by
  rw [UInt8.lt_iff_toNat_lt, hcount]
  rfl

include hcount in
theorem countModExt_gt_iff :
    countModExt node mod sigOffset > 31 ↔ 32 ≤ (extRels node mod sigOffset).length := by
  rw [gt_iff_lt, UInt8.lt_iff_toNat_lt, hcount]
  exact Nat.lt_iff_add_one_le

theorem readItems_short (h : ∀ r ∈ extRels node mod sigOffset,
    shortFormat mod (countModExt node mod sigOffset) r = true) (rest : Bytes) :
    readItems false (extRels node mod sigOffset).length (itemBytes node sigOffset mod ++ rest) =
      some ((extRels node mod sigOffset).map fun r => (elemOffset mod r, r.idxBase.toNat % 32),
        rest) := by
  refine readItems_flatMap _ _ _ (fun r hr rest => ?_) rest
  obtain ⟨hcnt, hnear⟩ := shortFormat_iff.1 (h r hr)
  exact readItem_short hnear hcnt rest

theorem readItems_long (h : ∀ r ∈ extRels node mod sigOffset,
    shortFormat mod (countModExt node mod sigOffset) r = false) (rest : Bytes) :
    readItems true (extRels node mod sigOffset).length (itemBytes node sigOffset mod ++ rest) =
      some ((extRels node mod sigOffset).map fun r => (narrowOffset mod r, r.idxBase.toNat),
        rest) :=
  readItems_flatMap _ _ _ (fun r hr rest => readItem_long (h r hr) rest) rest

include hcount in
theorem not_announced (hcnt : (extRels node mod sigOffset).length < 32)
    (hnear : ∀ r ∈ extRels node mod sigOffset, Near mod r) : ¬ Announced node mod sigOffset := by
  have hmax : maxOffset node mod sigOffset < 4 ∧ maxOffset node mod sigOffset > -5 := by
    rcases (maxOffset_spec node mod sigOffset).1 with hzero | ⟨r, hr, hmax⟩
    · rw [hzero]
      decide
    · obtain ⟨hlow, hhigh⟩ := hnear r hr
      rw [hmax, narrowOffset_eq (by omega)]
      exact ⟨hlow, hhigh⟩
  rintro (h | h | h)
  · rw [countModExt_gt_iff hcount] at h
    omega
  · omega
  · omega

include hcount in
theorem announced (hsome : extRels node mod sigOffset ≠ [])
    (hfar : (extRels node mod sigOffset).length < 32 →
      ∀ r ∈ extRels node mod sigOffset, ¬ Near mod r) (hrange : ∀ r ∈ extRels node mod sigOffset,
      -128 ≤ elemOffset mod r ∧ elemOffset mod r ≤ 127) : Announced node mod sigOffset := by
  rcases Nat.lt_or_ge (extRels node mod sigOffset).length 32 with hcnt | hcnt
  · obtain ⟨hfrom, hall⟩ := maxOffset_spec node mod sigOffset
    obtain ⟨r, hr⟩ := exists_mem_of_ne_nil _ hsome
    have hle := hall r hr
    have hnot := hfar hcnt r hr
    rw [narrowOffset_eq (hrange r hr)] at hle
    rcases hfrom with hzero | ⟨r', hr', hmax⟩
    · rw [hzero] at hle
      unfold Near at hnot
      omega
    · have hnot' := hfar hcnt r' hr'
      rw [narrowOffset_eq (hrange r' hr')] at hmax
      unfold Near at hnot'
      rw [Announced, hmax]
      omega
  · exact .inl ((countModExt_gt_iff hcount).2 hcnt)

include hcount in
theorem ItemRight.fits (h : ItemRight node sigOffset mod) : ItemFits node sigOffset mod := by
  have hread := h []
  rw [readModel_page1Model hcount] at hread
  obtain ⟨⟨values, left⟩, hitems, hp⟩ := map_eq_some_iff.1 hread
  obtain ⟨hmodel, rfl⟩ := Prod.mk.inj hp
  obtain rfl : values = (extRels node mod sigOffset).map (relValue mod) :=
    congrArg PageModel.items hmodel
  obtain ⟨hnum, hbytes⟩ := length_of_readItems hitems
  rw [length_map] at hnum
  have hlt : (extRels node mod sigOffset).length < 64 := by omega
  rw [← hnum, append_nil, length_nil, Nat.add_zero] at hbytes
  have hformat := (length_itemBytes_iff _).1 hbytes
  rw [← hnum] at hitems
  refine ⟨hlt, ?_⟩
  by_cases hlong : Announced node mod sigOffset
  · rw [decide_eq_true hlong] at hformat hitems
    rw [readItems_long hformat] at hitems
    have hsame := map_inj_left.1 (Prod.mk.inj (Option.some.inj hitems)).1
    refine .inr ⟨fun hcnt r hr hnear => ?_, fun r hr => ?_⟩
    · have hshort := hformat r hr
      rw [shortFormat_iff.2 ⟨(countModExt_lt_iff hcount).2 hcnt, hnear⟩] at hshort
      exact nomatch hshort
    · have hoff : (elemOffset mod r).bmod (2 ^ 8) = elemOffset mod r :=
        (Prod.mk.inj (hsame r hr)).1
      have hlow : -(((2 ^ 8 : ℕ) : ℤ) / 2) ≤ (elemOffset mod r).bmod (2 ^ 8) :=
        Int.le_bmod (by decide)
      have hhigh : (elemOffset mod r).bmod (2 ^ 8) < (((2 ^ 8 : ℕ) : ℤ) + 1) / 2 :=
        Int.bmod_lt (by decide)
      omega
  · rw [decide_eq_false hlong] at hformat hitems
    rw [readItems_short hformat] at hitems
    have hsame := map_inj_left.1 (Prod.mk.inj (Option.some.inj hitems)).1
    refine .inl ⟨?_, fun r hr => ⟨(shortFormat_iff.1 (hformat r hr)).2, ?_⟩⟩
    · have hle : ¬ countModExt node mod sigOffset > 31 := fun h => hlong (.inl h)
      rw [countModExt_gt_iff hcount] at hle
      omega
    · have hidx : r.idxBase.toNat % 32 = r.idxBase.toNat := (Prod.mk.inj (hsame r hr)).2
      rw [UInt8.lt_iff_toNat_lt]
      show r.idxBase.toNat < 32
      omega

include hcount in
theorem ItemFits.right (h : ItemFits node sigOffset mod) : ItemRight node sigOffset mod := by
  intro rest
  obtain ⟨hlt, hfits⟩ := h
  rw [readModel_page1Model hcount, Nat.mod_eq_of_lt hlt]
  rcases hfits with ⟨hcnt, hnear⟩ | ⟨hfar, hrange⟩
  · have hshort : ∀ r ∈ extRels node mod sigOffset,
        shortFormat mod (countModExt node mod sigOffset) r = true := fun r hr =>
      shortFormat_iff.2 ⟨(countModExt_lt_iff hcount).2 hcnt, (hnear r hr).1⟩
    have hvalues : ∀ r ∈ extRels node mod sigOffset,
        (elemOffset mod r, r.idxBase.toNat % 32) = relValue mod r := by
      intro r hr
      have hidx : r.idxBase.toNat < 32 := UInt8.lt_iff_toNat_lt.1 (hnear r hr).2
      rw [Nat.mod_eq_of_lt hidx, relValue]
    rw [decide_eq_false (not_announced hcount hcnt fun r hr => (hnear r hr).1),
      readItems_short hshort, map_congr_left hvalues]
    rfl
  · by_cases hnil : extRels node mod sigOffset = []
    · rw [itemBytes, hnil]
      rfl
    have hlong : ∀ r ∈ extRels node mod sigOffset,
        shortFormat mod (countModExt node mod sigOffset) r = false := by
      intro r hr
      rw [← Bool.not_eq_true, shortFormat_iff]
      rintro ⟨hcnt, hnear⟩
      exact hfar ((countModExt_lt_iff hcount).1 hcnt) r hr hnear
    have hvalues : ∀ r ∈ extRels node mod sigOffset,
        (narrowOffset mod r, r.idxBase.toNat) = relValue mod r := fun r hr => by
      rw [narrowOffset_eq (hrange r hr), relValue]
    rw [decide_eq_true (announced hcount hnil hfar hrange), readItems_long hlong,
      map_congr_left hvalues]
    rfl

end CompData

end OpenBlue
