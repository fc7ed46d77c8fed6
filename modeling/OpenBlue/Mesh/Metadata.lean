import Mathlib.Data.List.TakeWhile
import OpenBlue.Mesh.CompData
/-!
# Mesh — the models metadata page

A model is written whole or not at all (`metadataAddModel_eq`), and the
counts an element begins with are raised with each model
(`metadataAddModels_spec`), so the page is cut before an item with the
counts of what went out. That is what the page has there unless the room
ends inside an element whose counts were written, or inside the model that
the offset lies in.
-/

namespace OpenBlue

namespace CompData

open List Option UInt8 Writer

variable {node : Node} {buf : Buf} {elem : Elem} {mod : Model} {offset room : ℕ}
variable {entries : List MetadataEntry} {ptr : Option ℕ}

/-! ## A model -/

/-- An entry of the metadata of a model. -/
def entryBytes (entry : MetadataEntry) : Bytes :=
  le16 (UInt16.ofNat entry.data.length).toNat ++ le16 entry.id.toNat ++ entry.data

/-- A model on the metadata page. -/
def metaItem (vnd : Bool) (mod : Model) (entries : List MetadataEntry) : Bytes :=
  modelId vnd mod ++ [UInt8.ofNat entries.length] ++ entries.flatMap entryBytes

/-- No entry of the metadata of a model is empty. -/
def NoEmpty (mod : Model) : Prop := ∀ entries ∈ mod.metadata, ∀ entry ∈ entries, entry.data ≠ []

theorem length_entryBytes (entry : MetadataEntry) :
    (entryBytes entry).length = 4 + entry.data.length := by
  simp only [entryBytes, length_append, length_le16]

theorem length_metaItem (vnd : Bool) (h : mod.metadata = some entries) :
    metadataModelSize vnd mod ≤ (metaItem vnd mod entries).length ∧
      (metadataModelSize vnd mod = (metaItem vnd mod entries).length ↔ NoEmpty mod) := by
  have hsum := sum_sublist_le (fun entry : MetadataEntry => 4 + entry.data.length)
    (takeWhile_sublist fun entry => entry.data.length ≠ 0) (l := entries) fun _ => by omega
  have hall := takeWhile_eq_self_iff (l := entries)
    (p := fun entry : MetadataEntry => entry.data.length ≠ 0)
  have hlen : (metaItem vnd mod entries).length =
      (if vnd then 4 else 2) + 1 + (entries.map fun entry => 4 + entry.data.length).sum := by
    simp only [metaItem, length_append, length_modelId, length_singleton,
      length_flatMap, length_entryBytes]
  rw [hlen, metadataModelSize, h, NoEmpty, h]
  refine ⟨Nat.add_le_add_left hsum.1 _, ?_⟩
  rw [Nat.add_left_cancel_iff, hsum.2, hall]
  simp

theorem metadataAddEntry_eq : metadataAddEntry = fun buf entry => buf.add (entryBytes entry) := by
  funext buf entry
  simp only [metadataAddEntry, dataBufAddLe16Offset_eq, dataBufAddMemOffset_eq, bind_eq_bind,
    entryBytes, add_append, bind_assoc]

theorem modify_append {i : ℕ} {data : Bytes} (f : UInt8 → UInt8) (rest : Bytes)
    (h : i < data.length) : (data ++ rest).modify i f = data.modify i f ++ rest := by
  induction data generalizing i with
  | nil => exact absurd h (Nat.not_lt_zero i)
  | cons b data ih =>
    cases i with
    | zero => rfl
    | succ i =>
      rw [cons_append, modify_succ_cons, modify_succ_cons,
        ih (Nat.lt_of_succ_lt_succ h), cons_append]

theorem modify_concat (data : Bytes) (b : UInt8) (f : UInt8 → UInt8) :
    (data ++ [b]).modify data.length f = data ++ [f b] := by
  induction data with
  | nil => rfl
  | cons c data ih =>
    rw [cons_append, length_cons, modify_succ_cons, ih, cons_append]

theorem add_storeU8 (count : UInt8) (rest : Bytes) (buf : Buf) :
    ((buf.add [0]).bind fun buf' => (buf'.add rest).map (storeU8 (u8Ptr buf) fun _ => count)) =
      buf.add ([count] ++ rest) := by
  rw [add_append]
  obtain ⟨data, room, offset⟩ := buf
  cases offset with
  | zero =>
    have hadd (b : UInt8) : (⟨data, room, 0⟩ : Buf).add [b] =
        if 1 ≤ room then some ⟨data ++ [b], room - 1, 0⟩ else none := rfl
    have hptr : u8Ptr ⟨data, room, 0⟩ = some data.length := rfl
    rw [hadd, hadd, hptr]
    by_cases hroom : 1 ≤ room
    · rw [if_pos hroom, if_pos hroom, bind_some, bind_some]
      by_cases hrest : rest.length ≤ room - 1
      · have hadd' (b : UInt8) : (⟨data ++ [b], room - 1, 0⟩ : Buf).add rest =
            some ⟨data ++ [b] ++ rest, room - 1 - rest.length, 0 - rest.length⟩ :=
          add_of_le hrest
        rw [hadd', hadd', map_some]
        unfold storeU8
        dsimp only
        rw [modify_append _ _ (by simp), modify_concat]
      · have hadd' (b : UInt8) : (⟨data ++ [b], room - 1, 0⟩ : Buf).add rest = none :=
          if_neg hrest
        rw [hadd', hadd', map_none]
    · rw [if_neg hroom, if_neg hroom, bind_none, bind_none]
  | succ offset =>
    have hadd (b : UInt8) : (⟨data, room, offset + 1⟩ : Buf).add [b] =
        some ⟨data, room, offset⟩ := by
      rw [← dataBufAddU8Offset_eq]
      exact if_pos (Nat.succ_pos offset)
    have hptr : u8Ptr ⟨data, room, offset + 1⟩ = none := if_pos (Nat.succ_pos offset)
    rw [hadd, hadd, hptr, bind_some, bind_some]
    exact Option.map_id'

/-- **A model is passed over, or written whole where there is room for all
of it.** -/
theorem metadataAddModel_eq (vnd : Bool) (buf : Buf) (h : mod.metadata = some entries)
    (hne : NoEmpty mod) : metadataAddModel vnd mod entries buf =
    if (metaItem vnd mod entries).length ≤ buf.offset then
      some ({ buf with offset := buf.offset - (metaItem vnd mod entries).length }, .ok)
    else if buf.room < (metaItem vnd mod entries).length + micShort then some (buf, .e2big)
    else (buf.add (metaItem vnd mod entries)).map fun buf => (buf, .ok) := by
  unfold metadataAddModel
  rw [(length_metaItem vnd h).2.2 hne]
  congr 2
  simp only [compAddModel_eq, dataBufAddU8Offset_eq, metadataAddEntry_eq, foldlM_add,
    bind_eq_bind, Option.pure_def]
  rw [metaItem, append_assoc, add_append, Option.map_bind]
  congr 1
  funext buf'
  rw [Function.comp_apply, ← add_storeU8, Option.map_bind]
  congr 1
  funext buf''
  rw [Function.comp_apply, Option.map_map, map_eq_bind]
  rfl

/-! ## The models of an element -/

/-- `n` is added to the byte that a pointer is to. -/
def bump (ptr : Option ℕ) (n : ℕ) (data : Bytes) : Bytes :=
  match ptr with
  | none => data
  | some i => data.modify i (· + UInt8.ofNat n)

theorem storeU8_succ (ptr : Option ℕ) (buf : Buf) :
    storeU8 ptr (· + 1) buf = { buf with data := bump ptr 1 buf.data } := by
  cases ptr <;> rfl

theorem bump_zero (ptr : Option ℕ) (data : Bytes) : bump ptr 0 data = data := by
  cases ptr with
  | none => rfl
  | some i =>
    have hid : (fun b : UInt8 => b + ofNat 0) = id := funext fun b => UInt8.add_zero b
    exact (congrArg (data.modify i) hid).trans (modify_id i data)

theorem bump_bump (ptr : Option ℕ) (n m : ℕ) (data : Bytes) :
    bump ptr n (bump ptr m data) = bump ptr (m + n) data := by
  cases ptr with
  | none => rfl
  | some i =>
    simp only [bump, modify_modify_eq, ofNat_add, ← UInt8.add_assoc]
    rfl

theorem length_bump (ptr : Option ℕ) (n : ℕ) (data : Bytes) :
    (bump ptr n data).length = data.length := by
  cases ptr with
  | none => rfl
  | some i => exact length_modify _ data i

theorem bump_append {data : Bytes} (n : ℕ) (rest : Bytes) (h : ∀ i ∈ ptr, i < data.length) :
    bump ptr n (data ++ rest) = bump ptr n data ++ rest := by
  cases ptr with
  | none => rfl
  | some i => exact modify_append _ rest (h i rfl)

/-- The models with metadata, as they are written. -/
def metaItems (vnd : Bool) (models : List Model) : List Bytes :=
  models.filterMap fun mod => mod.metadata.map (metaItem vnd mod)

theorem metaItems_none (vnd : Bool) (models : List Model) (h : mod.metadata = none) :
    metaItems vnd (mod :: models) = metaItems vnd models := by
  rw [metaItems, filterMap_cons_none (by rw [h]; rfl)]
  rfl

theorem metaItems_some (vnd : Bool) (models : List Model) (h : mod.metadata = some entries) :
    metaItems vnd (mod :: models) = metaItem vnd mod entries :: metaItems vnd models := by
  rw [metaItems, filterMap_cons_some (b := metaItem vnd mod entries) (by rw [h]; rfl)]
  rfl

/-- The buffer after `t` of the items, with `t` added to their count. -/
def afterItems (ptr : Option ℕ) (items : List Bytes) (t : ℕ) (buf : Buf) : Buf :=
  ⟨bump ptr t buf.data ++ (items.take t).flatten.drop buf.offset,
    buf.room - ((items.take t).flatten.length - buf.offset),
    buf.offset - (items.take t).flatten.length⟩

theorem afterItems_zero (ptr : Option ℕ) (items : List Bytes) (buf : Buf) :
    afterItems ptr items 0 buf = buf := by
  simp [afterItems, bump_zero]

theorem afterItems_succ {item : Bytes} {items : List Bytes} {t : ℕ}
    (h : ∀ i ∈ ptr, i < buf.data.length) :
    afterItems ptr items t (storeU8 ptr (· + 1) ⟨buf.data ++ item.drop buf.offset,
      buf.room - (item.length - buf.offset), buf.offset - item.length⟩) =
      afterItems ptr (item :: items) (t + 1) buf := by
  unfold afterItems
  rw [storeU8_succ]
  dsimp only
  have hbump : ∀ i ∈ ptr, i < (bump ptr 1 buf.data).length := by
    rwa [length_bump]
  rw [bump_append _ _ h, bump_append _ _ hbump, bump_bump, Nat.add_comm 1, take_succ_cons,
    flatten_cons, drop_append, append_assoc, length_append]
  congr 1 <;> omega

/-- **The models of an element go out one by one, and are counted.** -/
theorem metadataAddModels_spec (vnd : Bool) (models : List Model)
    (hne : ∀ mod ∈ models, NoEmpty mod) (buf : Buf) (hptr : ∀ i ∈ ptr, i < buf.data.length) :
    metadataAddModels vnd ptr models buf =
      some (afterItems ptr (metaItems vnd models) (wholeCount micShort
          ((metaItems vnd models).map List.length) buf.offset buf.room) buf,
        if wholeCount micShort ((metaItems vnd models).map List.length) buf.offset buf.room =
          (metaItems vnd models).length then .ok else .e2big) := by
  induction models generalizing buf with
  | nil => exact congrArg some (Prod.ext (afterItems_zero ptr [] buf).symm rfl)
  | cons mod models ih =>
    rw [forall_mem_cons] at hne
    rw [metadataAddModels]
    cases hmod : mod.metadata with
    | none =>
      rw [metaItems_none vnd models hmod]
      exact ih hne.2 buf hptr
    | some entries =>
      dsimp only
      rw [metadataAddModel_eq vnd buf hmod hne.1, metaItems_some vnd models hmod, map_cons,
        wholeCount]
      generalize metaItem vnd mod entries = item
      -- the buffer after the item, whether it was passed over or written
      have hnext : ∀ i ∈ ptr, i < (storeU8 ptr (· + 1) ⟨buf.data ++ item.drop buf.offset,
          buf.room - (item.length - buf.offset), buf.offset - item.length⟩ : Buf).data.length := by
        intro i hi
        rw [storeU8_succ, length_bump, length_append]
        exact Nat.lt_add_right _ (hptr i hi)
      have hrest := ih hne.2 _ hnext
      rw [afterItems_succ hptr, storeU8_succ] at hrest
      split
      next hle =>
        rw [drop_eq_nil_of_le hle, Nat.sub_eq_zero_of_le hle, append_nil, Nat.sub_zero] at hrest
        rw [ifOk, storeU8_succ, hrest]
        simp
      split
      next hle hlt => simp [ifOk, afterItems_zero]
      next hle hlt =>
        rw [add_of_le (by omega), map_some, ifOk, storeU8_succ, hrest,
          show buf.offset - item.length = 0 by omega]
        simp

/-! ## An element -/

theorem counts_ptr (data : Bytes) (room offset : ℕ) :
    let first := u8Ptr ⟨data, room, offset⟩
    let second := u8Ptr ⟨data ++ [0].drop offset, room - (1 - offset), offset - 1⟩
    let counts := data ++ [0].drop offset ++ [0].drop (offset - 1)
    (∀ i ∈ first, i < counts.length) ∧ (∀ i ∈ second, i < counts.length) ∧
      ∀ n m, bump second m (bump first n counts) = data ++ [ofNat n, ofNat m].drop offset := by
  match offset with
  | 0 =>
    have hfirst : u8Ptr ⟨data, room, 0⟩ = some data.length := rfl
    have hsecond : u8Ptr ⟨data ++ [0], room - 1, 0⟩ = some (data ++ [0]).length := rfl
    dsimp only [drop_zero, Nat.sub_zero]
    rw [hfirst, Nat.zero_sub, drop_zero, hsecond]
    refine ⟨by simp, by simp, fun n m => ?_⟩
    unfold bump
    dsimp only
    rw [modify_append _ _ (by simp), modify_concat,
      show (data ++ [(0 : UInt8)]).length = (data ++ [0 + ofNat n]).length by simp,
      modify_concat, UInt8.zero_add, UInt8.zero_add, append_assoc]
    rfl
  | 1 =>
    have hsecond : u8Ptr ⟨data ++ [0].drop 1, room - (1 - 1), 1 - 1⟩ = some (data ++ []).length :=
      rfl
    dsimp only
    rw [hsecond, show u8Ptr ⟨data, room, 1⟩ = none from rfl, append_nil]
    refine ⟨by simp, by simp, fun n m => ?_⟩
    unfold bump
    simp [modify_concat]
  | offset + 2 =>
    have hnone (data : Bytes) (room offset : ℕ) : u8Ptr ⟨data, room, offset + 1⟩ = none := rfl
    dsimp only
    rw [hnone, show offset + 2 - 1 = offset + 1 by omega, hnone]
    refine ⟨by simp, by simp, fun n m => ?_⟩
    unfold bump
    simp

/-- The models of an element, as they are written. -/
def elemItems (elem : Elem) : List Bytes :=
  metaItems false elem.models ++ metaItems true elem.vndModels

/-- The two counts, where `t` of the models of an element are counted. -/
def counts (elem : Elem) (t : ℕ) : Bytes :=
  [UInt8.ofNat (min t (metaItems false elem.models).length),
    UInt8.ofNat (t - (metaItems false elem.models).length)]

/-- How many of the models of an element go out. -/
def elemCount (elem : Elem) (buf : Buf) : ℕ :=
  wholeCount micShort ((elemItems elem).map List.length) (buf.offset - 2)
    (buf.room - (2 - buf.offset))

/-- The buffer after `t` of the models of an element. -/
def afterElem (elem : Elem) (t : ℕ) (buf : Buf) : Buf :=
  ⟨buf.data ++ (counts elem t).drop buf.offset ++
      ((elemItems elem).take t).flatten.drop (buf.offset - 2),
    buf.room - (2 - buf.offset) - (((elemItems elem).take t).flatten.length - (buf.offset - 2)),
    buf.offset - 2 - ((elemItems elem).take t).flatten.length⟩

theorem countsRoom_eq (buf : Buf) : countsRoom buf = 2 - buf.offset := by
  unfold countsRoom
  split
  next h => omega
  split <;> omega

theorem afterItems_elem {first second : Option ℕ} {start : Bytes} (elem : Elem) (buf : Buf)
    (hsecond : ∀ i ∈ second, i < start.length)
    (hcounts : ∀ n m, bump second m (bump first n start) =
      buf.data ++ [ofNat n, ofNat m].drop buf.offset) :
    (∀ t ≤ (metaItems false elem.models).length, afterItems first (metaItems false elem.models) t
        ⟨start, buf.room - (2 - buf.offset), buf.offset - 2⟩ = afterElem elem t buf) ∧
    ∀ t, afterItems second (metaItems true elem.vndModels) t
      (afterItems first (metaItems false elem.models) (metaItems false elem.models).length
        ⟨start, buf.room - (2 - buf.offset), buf.offset - 2⟩) =
      afterElem elem ((metaItems false elem.models).length + t) buf := by
  have hbump : ∀ i ∈ second, i < (bump first (metaItems false elem.models).length start).length := by
    rwa [length_bump]
  constructor
  · intro t ht
    have hstart := hcounts t 0
    rw [bump_zero] at hstart
    unfold afterItems afterElem counts elemItems
    dsimp only
    rw [hstart, Nat.min_eq_left ht, Nat.sub_eq_zero_of_le ht, take_append_of_le_length ht]
  · intro t
    unfold afterItems afterElem counts elemItems
    dsimp only
    rw [take_length, bump_append _ _ hbump, hcounts, Nat.min_eq_right (Nat.le_add_right _ _),
      Nat.add_sub_cancel_left, take_length_add_append, flatten_append, drop_append,
      length_append, append_assoc, append_assoc]
    congr 1 <;> omega

/-- **An element writes its counts and then its models, up to the first one
that does not fit whole.** -/
theorem metadataLoop_cons (elem : Elem) (elems : List Elem) (buf : Buf)
    (hsig : ∀ mod ∈ elem.models, NoEmpty mod) (hvnd : ∀ mod ∈ elem.vndModels, NoEmpty mod) :
    metadataLoop (elem :: elems) buf =
      if buf.room < 2 - buf.offset + micShort then some (buf, .e2big)
      else if elemCount elem buf = (elemItems elem).length then
        metadataLoop elems (afterElem elem (elemCount elem buf) buf)
      else some (afterElem elem (elemCount elem buf) buf, .e2big) := by
  rw [metadataLoop, countsRoom_eq]
  by_cases hroom : buf.room < 2 - buf.offset + micShort
  · rw [if_pos hroom, if_pos hroom]
  rw [if_neg hroom, if_neg hroom]
  obtain ⟨hfirst, hsecond, hcounts⟩ := counts_ptr buf.data buf.room buf.offset
  -- the two counts, 0 as yet
  have hadd : dataBufAddU8Offset 0 buf = some ⟨buf.data ++ [0].drop buf.offset,
      buf.room - (1 - buf.offset), buf.offset - 1⟩ := by
    rw [dataBufAddU8Offset_eq]
    exact add_of_le (by rw [length_singleton]; omega)
  have hadd' : dataBufAddU8Offset 0 ⟨buf.data ++ [0].drop buf.offset,
      buf.room - (1 - buf.offset), buf.offset - 1⟩ =
      some ⟨buf.data ++ [0].drop buf.offset ++ [0].drop (buf.offset - 1),
        buf.room - (2 - buf.offset), buf.offset - 2⟩ := by
    rw [dataBufAddU8Offset_eq, add_of_le (by rw [length_singleton]; dsimp only; omega)]
    simp only [length_singleton, Option.some.injEq, Writer.mk.injEq, true_and]
    omega
  obtain ⟨hleft, hright⟩ := afterItems_elem elem buf hsecond hcounts
  simp only [hadd, hadd', bind_eq_bind, bind_some]
  rw [metadataAddModels_spec false elem.models hsig _ hfirst]
  have happend := wholeCount_append micShort ((metaItems false elem.models).map List.length)
    ((metaItems true elem.vndModels).map List.length) (buf.offset - 2)
    (buf.room - (2 - buf.offset))
  rw [← map_append, length_map, ← length_flatten] at happend
  have hle := wholeCount_le micShort ((metaItems false elem.models).map List.length)
    (buf.offset - 2) (buf.room - (2 - buf.offset))
  rw [length_map] at hle
  dsimp only
  by_cases hall : wholeCount micShort ((metaItems false elem.models).map List.length)
      (buf.offset - 2) (buf.room - (2 - buf.offset)) = (metaItems false elem.models).length
  · -- the models of the node go out, and those of vendors are next
    rw [if_pos hall] at happend ⊢
    rw [hall]
    rw [ifOk, metadataAddModels_spec true elem.vndModels hvnd _ (by
      intro i hi
      unfold afterItems
      rw [length_append, length_bump]
      exact Nat.lt_add_right _ (hsecond i hi)), hright]
    have hcount : elemCount elem buf = (metaItems false elem.models).length +
        wholeCount micShort ((metaItems true elem.vndModels).map List.length)
          (buf.offset - 2 - (metaItems false elem.models).flatten.length)
          (buf.room - (2 - buf.offset) -
            ((metaItems false elem.models).flatten.length - (buf.offset - 2))) := happend
    have hiff : elemCount elem buf = (elemItems elem).length ↔
        wholeCount micShort ((metaItems true elem.vndModels).map List.length)
          (buf.offset - 2 - (metaItems false elem.models).flatten.length)
          (buf.room - (2 - buf.offset) -
            ((metaItems false elem.models).flatten.length - (buf.offset - 2))) =
          (metaItems true elem.vndModels).length := by
      rw [hcount, elemItems, length_append, Nat.add_left_cancel_iff]
    simp only [hiff]
    unfold afterItems
    dsimp only
    rw [take_length, ← hcount]
    split <;> rfl
  · -- one of the models of the node does not fit
    rw [if_neg hall] at happend ⊢
    have hcount : elemCount elem buf = wholeCount micShort
        ((metaItems false elem.models).map List.length) (buf.offset - 2)
        (buf.room - (2 - buf.offset)) := happend
    rw [← hcount] at hle hall ⊢
    have hne : elemCount elem buf ≠ (elemItems elem).length := by
      rw [elemItems, length_append]
      omega
    rw [if_neg hne, ← hleft _ hle]
    rfl

/-! ## The page -/

/-- An element on the metadata page: its counts, and its models. -/
def pageItems (elem : Elem) : List Bytes := counts elem (elemItems elem).length :: elemItems elem

/-- The bytes of an element on the metadata page. -/
def metaElemSize (elem : Elem) : ℕ := 2 + (elemItems elem).flatten.length

/-- Where the metadata page is cut right: a model that the offset lies in
fits whole if what is left of it fits, and the element the room ends in has
not had its counts written, but for a count of vendor models that is 0. -/
def MetaFits : List Elem → ℕ → ℕ → Prop
  | [], _, _ => True
  | elem :: elems, offset, room =>
    room < 2 - offset + micShort ∨
      WholeFits micShort ((elemItems elem).map List.length) (offset - 2) room ∧
        if metaElemSize elem - offset + micShort ≤ room then
          MetaFits elems (offset - metaElemSize elem) (room - (metaElemSize elem - offset))
        else 2 ≤ offset ∨ offset = 1 ∧ metaItems true elem.vndModels = []

theorem length_counts (elem : Elem) (t : ℕ) : (counts elem t).length = 2 := rfl

theorem length_flatten_pageItems (elem : Elem) :
    (pageItems elem).flatten.length = metaElemSize elem := by
  rw [pageItems, flatten_cons, length_append, length_counts, metaElemSize]

theorem length_flatten_take (items : List Bytes) (t : ℕ) :
    (items.take t).flatten.length = ((items.map List.length).take t).sum := by
  rw [length_flatten, map_take]

theorem counts_inj {t : ℕ} (ht : t < (elemItems elem).length)
    (h : (counts elem t).drop offset = (counts elem (elemItems elem).length).drop offset) :
    2 ≤ offset ∨ offset = 1 ∧ metaItems true elem.vndModels = [] := by
  have hm : (metaItems false elem.models).length < 2 ^ 8 :=
    lt_of_le_of_lt (length_filterMap_le ..) elem.models_lt
  have hv : (metaItems true elem.vndModels).length < 2 ^ 8 :=
    lt_of_le_of_lt (length_filterMap_le ..) elem.vndModels_lt
  rw [elemItems, length_append] at ht
  unfold counts elemItems at h
  rw [length_append, Nat.add_sub_cancel_left, Nat.min_eq_right (Nat.le_add_right _ _)] at h
  match offset, h with
  | 0, h =>
    simp only [drop_zero, List.cons.injEq, ← UInt8.toNat_inj, toNat_ofNat', and_true] at h
    omega
  | 1, h =>
    simp only [drop_one, tail_cons, List.cons.injEq, ← UInt8.toNat_inj, toNat_ofNat', and_true] at h
    refine .inr ⟨rfl, eq_nil_of_length_eq_zero ?_⟩
    omega
  | offset + 2, _ => exact .inl (Nat.le_add_left 2 offset)

theorem counts_eq {t : ℕ} (ht : t < (elemItems elem).length)
    (h : 2 ≤ offset ∨ offset = 1 ∧ metaItems true elem.vndModels = []) :
    (counts elem t).drop offset = (counts elem (elemItems elem).length).drop offset := by
  rcases h with h | ⟨rfl, hnil⟩
  · rw [drop_eq_nil_of_le h, drop_eq_nil_of_le h]
  · rw [elemItems, hnil, append_nil] at ht ⊢
    unfold counts
    rw [drop_one, drop_one, tail_cons, tail_cons,
      Nat.sub_eq_zero_of_le (Nat.le_of_lt ht), Nat.sub_self]

/-- What an element writes where `t` of its models go out. -/
def elemText (elem : Elem) (t offset : ℕ) : Bytes :=
  (counts elem t).drop offset ++ ((elemItems elem).take t).flatten.drop (offset - 2)

theorem elemText_all (elem : Elem) (offset : ℕ) :
    elemText elem (elemItems elem).length offset = (pageItems elem).flatten.drop offset := by
  rw [elemText, take_length, pageItems, flatten_cons, drop_append, length_counts]

/-- **An element in which the room ends is cut right where its counts are
not written, or are the same for the models that are left out.** -/
theorem elemText_cut_iff {t : ℕ} {rest : List Bytes} (ht : t < (elemItems elem).length)
    (hroom : ¬ room < 2 - offset + micShort) (hfull : room - (2 - offset) <
      (((elemItems elem).map List.length).take (t + 1)).sum - (offset - 2) + micShort) :
    Cut micShort [] (pageItems elem ++ rest) offset room (elemText elem t offset) ↔
      2 ≤ offset ∨ offset = 1 ∧ metaItems true elem.vndModels = [] := by
  constructor
  · intro hcut
    obtain ⟨after, hafter⟩ := hcut.prefix
    rw [nil_append, pageItems, cons_append, flatten_cons, drop_append,
      elemText, append_assoc] at hafter
    exact counts_inj ht (append_inj_left hafter (by
      rw [length_drop, length_drop, length_counts, length_counts]))
  · intro h
    have ht' : t + 1 ≤ (elemItems elem).length := ht
    refine ⟨t + 1, ?_, ?_, fun _ => ?_⟩
    · rw [pageItems, length_append, length_cons]
      omega
    · rw [nil_append, pageItems, cons_append, take_succ_cons,
        take_append_of_le_length (Nat.le_of_lt ht), flatten_cons, drop_append,
        length_counts, elemText, counts_eq ht h]
    · rw [nil_append, pageItems, cons_append, take_succ_cons,
        take_append_of_le_length ht', flatten_cons, length_append, length_counts,
        length_flatten_take]
      omega

theorem not_cut_of_not_wholeFits {rest : List Bytes} (hroom : ¬ room < 2 - offset + micShort)
    (hwhole : ¬ WholeFits micShort ((elemItems elem).map List.length) (offset - 2)
      (room - (2 - offset))) : ¬ Cut micShort [] (pageItems elem ++ rest) offset room
      (elemText elem (wholeCount micShort ((elemItems elem).map List.length) (offset - 2)
        (room - (2 - offset))) offset) := by
  obtain ⟨-, hbefore, hafter, hfits⟩ := wholeCount_of_not hwhole
  generalize wholeCount micShort ((elemItems elem).map List.length) (offset - 2)
    (room - (2 - offset)) = t at hbefore hafter hfits ⊢
  rw [← length_flatten_take] at hbefore hafter hfits
  have hoff : 2 ≤ offset := by
    by_contra hlt
    rw [Nat.sub_eq_zero_of_le (by omega)] at hwhole
    exact hwhole (wholeFits_zero ..)
  have htext : elemText elem t offset = [] := by
    rw [elemText, drop_eq_nil_of_le hoff, nil_append]
    exact drop_eq_nil_of_le hbefore
  have hsplit : pageItems elem ++ rest =
      (counts elem (elemItems elem).length :: (elemItems elem).take (t + 1)) ++
        ((elemItems elem).drop (t + 1) ++ rest) := by
    rw [cons_append, ← append_assoc, take_append_drop, pageItems, cons_append]
  have hlen : (counts elem (elemItems elem).length ::
      (elemItems elem).take (t + 1)).flatten.length =
      2 + ((elemItems elem).take (t + 1)).flatten.length := by
    rw [flatten_cons, length_append, length_counts]
  rw [htext, hsplit, cut_append_of_fits micShort_pos (by omega)]
  rintro ⟨y, hy, -⟩
  have hnil := congrArg List.length hy
  rw [length_append, length_drop, hlen, length_nil] at hnil
  omega

theorem wholeFits_counts (elem : Elem) (offset room : ℕ) :
    WholeFits micShort ((elemItems elem).map List.length) (offset - 2) (room - (2 - offset)) ↔
      WholeFits micShort ((elemItems elem).map List.length) (offset - 2) room := by
  rcases Nat.le_total offset 2 with h | h
  · rw [Nat.sub_eq_zero_of_le h]
    exact iff_of_true (wholeFits_zero ..) (wholeFits_zero ..)
  · rw [Nat.sub_eq_zero_of_le h, Nat.sub_zero]

theorem afterElem_data (elem : Elem) (t : ℕ) (buf : Buf) :
    (afterElem elem t buf).data = buf.data ++ elemText elem t buf.offset :=
  append_assoc ..

theorem afterElem_all (elem : Elem) (buf : Buf) :
    (afterElem elem (elemItems elem).length buf).room =
        buf.room - (metaElemSize elem - buf.offset) ∧
      (afterElem elem (elemItems elem).length buf).offset = buf.offset - metaElemSize elem := by
  rw [afterElem, take_length, metaElemSize]
  dsimp only
  omega

/-- **The loop of the page serves it right just where `MetaFits` holds.** -/
theorem metadataLoop_cut_iff (elems : List Elem) (buf : Buf)
    (hne : ∀ elem ∈ elems, (∀ mod ∈ elem.models, NoEmpty mod) ∧
      ∀ mod ∈ elem.vndModels, NoEmpty mod) :
    ∃ buf' ret text, metadataLoop elems buf = some (buf', ret) ∧ buf'.data = buf.data ++ text ∧
      (Cut micShort [] (elems.flatMap pageItems) buf.offset buf.room text ↔
        MetaFits elems buf.offset buf.room) := by
  induction elems generalizing buf with
  | nil =>
    refine ⟨buf, .ok, [], rfl, (append_nil _).symm, ?_⟩
    exact iff_of_true (cut_nil.2 rfl) trivial
  | cons elem elems ih =>
    rw [forall_mem_cons] at hne
    rw [metadataLoop_cons elem elems buf hne.1.1 hne.1.2, flatMap_cons, MetaFits]
    by_cases hroom : buf.room < 2 - buf.offset + micShort
    · refine ⟨buf, .e2big, [], if_pos hroom, (append_nil _).symm, ?_⟩
      refine iff_of_true ?_ (.inl hroom)
      rw [pageItems, cons_append, cut_cons]
      exact .inl ⟨rfl, hroom⟩
    rw [if_neg hroom, or_iff_right hroom, ← wholeFits_counts]
    have hcount : elemCount elem buf = wholeCount micShort ((elemItems elem).map List.length)
      (buf.offset - 2) (buf.room - (2 - buf.offset)) := rfl
    have hlen : ((elemItems elem).map List.length).length = (elemItems elem).length :=
      length_map ..
    have hle := wholeCount_le micShort ((elemItems elem).map List.length) (buf.offset - 2)
      (buf.room - (2 - buf.offset))
    rw [← hcount, hlen] at hle
    rcases Nat.lt_or_eq_of_le hle with hlt | hall
    · -- a model is left out
      refine ⟨afterElem elem (elemCount elem buf) buf, .e2big, _, if_neg (Nat.ne_of_lt hlt),
        afterElem_data .., ?_⟩
      by_cases hwhole : WholeFits micShort ((elemItems elem).map List.length) (buf.offset - 2)
          (buf.room - (2 - buf.offset))
      · have hfull := wholeCount_lt hwhole (by rwa [hlen])
        have hsum := sum_take_add_sum_drop ((elemItems elem).map List.length)
          (elemCount elem buf + 1)
        rw [← hcount] at hfull
        have hnot : ¬ metaElemSize elem - buf.offset + micShort ≤ buf.room := by
          rw [metaElemSize, length_flatten]
          omega
        rw [and_iff_right hwhole, if_neg hnot]
        exact elemText_cut_iff hlt hroom hfull
      · exact iff_of_false (not_cut_of_not_wholeFits hroom hwhole) fun h => hwhole h.1
    · -- all the models go out
      have hsum := wholeCount_all (by omega) (hall.trans hlen.symm)
      have hwhole : WholeFits micShort ((elemItems elem).map List.length) (buf.offset - 2)
          (buf.room - (2 - buf.offset)) := by
        by_contra hnot
        have hlt := (wholeCount_of_not hnot).1
        omega
      have hfits : metaElemSize elem - buf.offset + micShort ≤ buf.room := by
        rw [metaElemSize, length_flatten]
        omega
      obtain ⟨buf', ret, text, hloop, htext, hiff⟩ :=
        ih (afterElem elem (elemCount elem buf) buf) hne.2
      refine ⟨buf', ret, elemText elem (elemCount elem buf) buf.offset ++ text, ?_, ?_, ?_⟩
      · rw [if_pos hall, hloop]
      · rw [htext, afterElem_data, append_assoc]
      · rw [hall, (afterElem_all elem buf).1, (afterElem_all elem buf).2] at hiff
        rw [and_iff_right hwhole, if_pos hfits, ← hiff, hall, elemText_all,
          cut_append_of_fits micShort_pos (by rwa [length_flatten_pageItems])]
        simp only [append_cancel_left_eq, exists_eq_left', length_flatten_pageItems]

/-! ## The size of the page -/

/-- No entry of the metadata of an element is empty. -/
def ElemNoEmpty (elem : Elem) : Prop :=
  (∀ mod ∈ elem.models, NoEmpty mod) ∧ ∀ mod ∈ elem.vndModels, NoEmpty mod

theorem length_metaItems (vnd : Bool) (models : List Model) :
    (models.map (metadataModelSize vnd)).sum ≤ (metaItems vnd models).flatten.length ∧
      ((models.map (metadataModelSize vnd)).sum = (metaItems vnd models).flatten.length ↔
        ∀ mod ∈ models, NoEmpty mod) := by
  induction models with
  | nil => simp [metaItems]
  | cons mod models ih =>
    rw [forall_mem_cons, ← ih.2, map_cons, sum_cons]
    cases hmod : mod.metadata with
    | none =>
      have hsize : metadataModelSize vnd mod = 0 := by rw [metadataModelSize, hmod]
      have hno : NoEmpty mod := fun entries h => by rw [hmod] at h; exact nomatch h
      rw [metaItems_none vnd models hmod, hsize, Nat.zero_add, and_iff_right hno]
      exact ⟨ih.1, Iff.rfl⟩
    | some entries =>
      have hitem := length_metaItem vnd hmod
      rw [metaItems_some vnd models hmod, flatten_cons, length_append, ← hitem.2]
      omega

theorem metadata_size (node : Node) :
    (node.comp.elem.flatMap pageItems).flatten.length = btMeshMetadataPage0Size node ↔
      ∀ elem ∈ node.comp.elem, ElemNoEmpty elem := by
  have helem (elem : Elem) :
      2 + (elem.models.map (metadataModelSize false)).sum +
          (elem.vndModels.map (metadataModelSize true)).sum ≤ metaElemSize elem ∧
        (2 + (elem.models.map (metadataModelSize false)).sum +
          (elem.vndModels.map (metadataModelSize true)).sum = metaElemSize elem ↔
            ElemNoEmpty elem) := by
    have hsig := length_metaItems false elem.models
    have hvnd := length_metaItems true elem.vndModels
    rw [metaElemSize, elemItems, flatten_append, length_append, ElemNoEmpty, ← hsig.2, ← hvnd.2]
    omega
  have hsum := sum_map_le_iff (l := node.comp.elem) fun elem _ => (helem elem).1
  have hlen (elems : List Elem) : (elems.flatMap pageItems).flatten.length =
      (elems.map metaElemSize).sum := by
    induction elems with
    | nil => rfl
    | cons elem elems ih =>
      rw [flatMap_cons, flatten_append, length_append, ih, length_flatten_pageItems,
        map_cons, sum_cons]
  simp only [(helem _).2] at hsum
  rw [hlen, btMeshMetadataPage0Size, eq_comm]
  exact hsum.2

/-- Where the metadata page is served right: no entry is empty, and where
the page is cut its counts are those of all the models. -/
def MetadataOk (node : Node) (offset room : ℕ) : Prop :=
  (∀ elem ∈ node.comp.elem, ElemNoEmpty elem) ∧ MetaFits node.comp.elem offset room

/-- **The metadata page is served right just where its condition holds.** -/
theorem metadata_right_iff (node : Node) (offset room : ℕ) :
    ServedRight [] (node.comp.elem.flatMap pageItems) (btMeshMetadataPage0Size node) offset room
      (btMeshMetadataGetPage0 node ⟨[], room, offset⟩) ↔ MetadataOk node offset room := by
  rw [MetadataOk, ← metadata_size]
  constructor
  · intro h
    refine ⟨h.1, ?_⟩
    obtain ⟨buf, ret, text, hloop, hdata, hiff⟩ := metadataLoop_cut_iff node.comp.elem
      ⟨[], room, offset⟩ ((metadata_size node).1 h.1)
    rw [btMeshMetadataGetPage0, hloop, servedRight_some, hdata] at h
    exact hiff.1 h.2
  · rintro ⟨hsize, hfits⟩
    obtain ⟨buf, ret, text, hloop, hdata, hiff⟩ := metadataLoop_cut_iff node.comp.elem
      ⟨[], room, offset⟩ ((metadata_size node).1 hsize)
    rw [btMeshMetadataGetPage0, hloop, servedRight_some, hdata]
    exact ⟨hsize, hiff.2 hfits⟩

/-! ## All the pages -/

/-- What a composition page begins with. -/
def compHead (node : Node) (page : UInt8) : Bytes :=
  if page = 0 ∨ page = 128 then page0Head node else []

/-- The elements of page 0 and page 1, and the records of page 2. -/
def compItems (node : Node) (page : UInt8) : List Bytes :=
  if page = 0 ∨ page = 128 then node.comp.elem.map page0Item
  else if node.compPage1 ∧ (page = 1 ∨ page = 129) then node.comp.elem.map (page1Item node)
  else if node.compPage2 ∧ (page = 2 ∨ page = 130) then page2Items node
  else []

/-- Where a composition page is served right. -/
def CompOk (node : Node) (page : UInt8) (offset room : ℕ) : Prop :=
  if page = 0 ∨ page = 128 then Page0Ok node offset room
  else if node.compPage1 ∧ (page = 1 ∨ page = 129) then
    ∀ elem ∈ node.comp.elem, ElemExtOnly node elem
  else True

theorem btMeshCompDataGetPage_toNat (node : Node) (page : UInt8) (buf : Buf) :
    btMeshCompDataGetPage node page.toNat buf =
      if page = 0 ∨ page = 128 then btMeshCompDataGetPage0 node buf
      else if node.compPage1 ∧ (page = 1 ∨ page = 129) then btMeshCompDataGetPage1 node buf
      else if node.compPage2 ∧ (page = 2 ∨ page = 130) then btMeshCompDataGetPage2 node buf
      else some (buf, .einval) := by
  unfold btMeshCompDataGetPage
  simp only [← UInt8.toNat_inj]
  rfl

/-- **A page of the composition or of the metadata is served right just
where its condition holds.** -/
theorem pages_served_iff (node : Node) (offset room : ℕ) :
    (∀ page : UInt8, ServedRight (compHead node page) (compItems node page)
      (btMeshCompPageSize node page) offset room
      (btMeshCompDataGetPage node page.toNat ⟨[], room, offset⟩) ↔ CompOk node page offset room) ∧
    (ServedRight [] (node.comp.elem.flatMap pageItems) (btMeshMetadataPage0Size node) offset room
      (btMeshMetadataGetPage0 node ⟨[], room, offset⟩) ↔ MetadataOk node offset room) := by
  refine ⟨fun page => ?_, metadata_right_iff node offset room⟩
  rw [btMeshCompDataGetPage_toNat]
  unfold compHead compItems btMeshCompPageSize CompOk
  by_cases h0 : page = 0 ∨ page = 128
  · simp only [if_pos h0]
    exact page0_right_iff node offset room
  simp only [if_neg h0]
  by_cases h1 : node.compPage1 ∧ (page = 1 ∨ page = 129)
  · simp only [if_pos h1]
    exact page1_right_iff node offset room
  simp only [if_neg h1]
  refine iff_of_true ?_ trivial
  by_cases h2 : node.compPage2 ∧ (page = 2 ∨ page = 130)
  · simp only [if_pos h2]
    exact page2_right node offset room
  · simp only [if_neg h2]
    exact servedRight_some.2 ⟨rfl, cut_nil.2 rfl⟩

/-- A node whose second element, with four models, does not fit where the
third, with one, does. -/
def threeElems : Node where
  large := true
  compPage1 := true
  compPage2 := true
  relay := true
  gattProxy := false
  friend := false
  lowPower := false
  crpl := 10
  comp := ⟨0x0059, 1, 1, [{ loc := 1, models := [⟨0x0000, 0, 0, 0, none⟩], vndModels := [] },
    { loc := 2, models := List.replicate 4 ⟨0x1000, 0, 1, 0, none⟩, vndModels := [] },
    { loc := 3, models := [⟨0x1001, 0, 2, 0, none⟩], vndModels := [] }]⟩
  comp2 := none
  modRelList := []

/-- **The third element is put where the second one belongs.** -/
theorem page0_goes_on : 0 < btMeshCompPageSize threeElems 0 ∧
    ¬ ServedRight (compHead threeElems 0) (compItems threeElems 0)
      (btMeshCompPageSize threeElems 0) 0 27
      (btMeshCompDataGetPage threeElems 0 ⟨[], 27, 0⟩) := by
  refine ⟨by decide, ?_⟩
  have hpage := page0_right_iff threeElems 0 27
  intro h
  have hok := (hpage.1 h).2 rfl
  simp [threeElems, btMeshCompElemSize, NoneAfter, NoneFits, micShort] at hok

end CompData

end OpenBlue
