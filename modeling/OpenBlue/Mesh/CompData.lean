import OpenBlue.Common.Sum
import OpenBlue.Mesh.Model.CompData
/-!
# Mesh — composition and metadata pages

Every writer of `access.c` leaves out what the offset names and writes the
rest, so what an element, a record or a model writes is one text
(`page0Item`, `page1Item`, `page2Item`, `metaItem`), and a page is served
item by item. What the code gets wrong is where it does not stop (page 0),
where it passes over more than it writes (page 1), and where it has written
counts of models that then do not fit (metadata).
-/

namespace OpenBlue

namespace CompData

open List Writer

variable {node : Node} {buf : Buf} {elem : Elem} {mod : Model} {offset room : ℕ}

/-! ## The writers -/

theorem dataBufAddU8Offset_eq (val : UInt8) (buf : Buf) :
    dataBufAddU8Offset val buf = buf.add [val] := by
  unfold dataBufAddU8Offset btBufSimpleAddMem Writer.add
  rcases Nat.eq_zero_or_pos buf.offset with h | h
  · simp [h]
  · have hdrop : [val].drop buf.offset = [] := drop_eq_nil_of_le h
    have hlen : [val].length - buf.offset = 0 := Nat.sub_eq_zero_of_le h
    have hpos : buf.offset ≥ 1 := h
    rw [if_pos hpos, hdrop, hlen, if_pos (Nat.zero_le _), append_nil, Nat.sub_zero]
    rfl

theorem dataBufAddLe16Offset_eq (val : UInt16) (buf : Buf) :
    dataBufAddLe16Offset val buf = buf.add (le16 val.toNat) := by
  unfold dataBufAddLe16Offset btBufSimpleAddMem Writer.add
  rw [length_le16]
  split
  next h =>
    rw [drop_eq_nil_of_le h, Nat.sub_eq_zero_of_le h, if_pos (Nat.zero_le _), append_nil,
      Nat.sub_zero]
  split
  next h => simp [h, le16]
  next hlt hne =>
    have h : buf.offset = 0 := by omega
    simp [h]

theorem dataBufAddMemOffset_eq (data : Bytes) (buf : Buf) :
    dataBufAddMemOffset data buf = buf.add data := by
  unfold dataBufAddMemOffset btBufSimpleAddMem Writer.add
  split
  next h =>
    rw [drop_eq_nil_of_le h, Nat.sub_eq_zero_of_le h, if_pos (Nat.zero_le _), append_nil,
      Nat.sub_zero]
  next h =>
    rw [length_drop, show buf.offset - data.length = 0 by omega]
    split <;> rfl

/-- What `comp_add_model` writes. -/
def modelId (vnd : Bool) (mod : Model) : Bytes :=
  if vnd then le16 mod.company.toNat ++ le16 mod.id.toNat else le16 mod.id.toNat

theorem compAddModel_eq (vnd : Bool) (mod : Model) (buf : Buf) :
    compAddModel vnd mod buf = buf.add (modelId vnd mod) := by
  unfold compAddModel modelId
  cases vnd
  · simp [dataBufAddLe16Offset_eq]
  · simp [dataBufAddLe16Offset_eq, add_append]

theorem length_modelId (vnd : Bool) (mod : Model) :
    (modelId vnd mod).length = if vnd then 4 else 2 := by
  cases vnd <;> simp [modelId]

/-! ## Page 0 -/

/-- What page 0 begins with. -/
def page0Head (node : Node) : Bytes :=
  le16 node.comp.cid.toNat ++ le16 node.comp.pid.toNat ++ le16 node.comp.vid.toNat ++
    le16 node.crpl.toNat ++ le16 (feat node).toNat

/-- An element on page 0. -/
def page0Item (elem : Elem) : Bytes :=
  le16 elem.loc.toNat ++ [UInt8.ofNat elem.models.length] ++ [UInt8.ofNat elem.vndModels.length] ++
    elem.models.flatMap (modelId false) ++ elem.vndModels.flatMap (modelId true)

theorem length_flatMap_const {β : Type*} (f : β → Bytes) (n : ℕ) (l : List β)
    (h : ∀ x ∈ l, (f x).length = n) : (l.flatMap f).length = l.length * n := by
  induction l with
  | nil => simp
  | cons x l ih =>
    rw [forall_mem_cons] at h
    rw [flatMap_cons, length_append, h.1, ih h.2, length_cons, Nat.succ_mul, Nat.add_comm]

@[simp] theorem length_page0Item (elem : Elem) :
    (page0Item elem).length = btMeshCompElemSize elem := by
  have hsig := length_flatMap_const (modelId false) 2 elem.models fun m _ => length_modelId false m
  have hvnd := length_flatMap_const (modelId true) 4 elem.vndModels fun m _ => length_modelId true m
  simp only [page0Item, length_append, length_le16, length_singleton, hsig, hvnd,
    btMeshCompElemSize]

@[simp] theorem length_page0Head (node : Node) : (page0Head node).length = 10 := rfl

/-- **An element is passed over, left out, or written.** -/
theorem compAddElem_eq (node : Node) (elem : Elem) (buf : Buf) : compAddElem node elem buf =
    if (page0Item elem).length ≤ buf.offset then
      some ({ buf with offset := buf.offset - (page0Item elem).length }, .ok)
    else if buf.room < (page0Item elem).length - buf.offset + micShort then
      some (buf, notFit node)
    else (buf.add (page0Item elem)).map fun buf => (buf, .ok) := by
  unfold compAddElem
  rw [length_page0Item]
  congr 2
  simp only [dataBufAddLe16Offset_eq, dataBufAddU8Offset_eq, compAddModel_eq, foldlM_add,
    Option.bind_eq_bind, add_bind_add, Option.pure_def, Option.map_eq_bind, page0Item]
  rfl

theorem page0Loop_cons (node : Node) (elem : Elem) (elems : List Elem) (buf : Buf) :
    page0Loop node (elem :: elems) buf =
    if (page0Item elem).length ≤ buf.offset then
      page0Loop node elems { buf with offset := buf.offset - (page0Item elem).length }
    else if buf.room < (page0Item elem).length - buf.offset + micShort then
      if !node.large then some (buf, .e2big) else page0Loop node elems buf
    else (buf.add (page0Item elem)).bind (page0Loop node elems) := by
  rw [page0Loop, compAddElem_eq]
  split
  · rfl
  split
  · unfold notFit
    cases node.large <;> rfl
  · cases buf.add (page0Item elem) <;> rfl

/-! ## A page served right -/

/-- The bytes written are those of the page from the offset on, cut before
the first item that does not fit; the page has as many bytes as is told;
and reading on gives the rest of it. -/
def ServedRight (head : Bytes) (items : List Bytes) (size offset room : ℕ)
    (served : Option (Buf × Ret)) : Prop :=
  (head ++ items.flatten).length = size ∧ ∃ buf ret, served = some (buf, ret) ∧
    Cut micShort head items offset room buf.data ∧
    buf.data ++ (head ++ items.flatten).drop (offset + buf.data.length) =
      (head ++ items.flatten).drop offset

theorem micShort_pos : 0 < micShort := by decide

theorem servedRight_some {head : Bytes} {items : List Bytes} {size : ℕ} {buf : Buf} {ret : Ret} :
    ServedRight head items size offset room (some (buf, ret)) ↔
      (head ++ items.flatten).length = size ∧ Cut micShort head items offset room buf.data := by
  simp only [ServedRight, Option.some.injEq, Prod.mk.injEq]
  constructor
  · rintro ⟨hsize, _, _, ⟨rfl, rfl⟩, hcut, -⟩
    exact ⟨hsize, hcut⟩
  · rintro ⟨hsize, hcut⟩
    exact ⟨hsize, buf, ret, ⟨rfl, rfl⟩, hcut, hcut.reads_on⟩

theorem not_servedRight_none {head : Bytes} {items : List Bytes} {size : ℕ} :
    ¬ ServedRight head items size offset room none := by
  rintro ⟨-, _, _, h, -⟩
  exact nomatch h

/-- Where a page is served right on page 0: there is room for what it begins
with, and after the first element that does not fit the server of large
compositions finds none that fits. -/
def Page0Ok (node : Node) (offset room : ℕ) : Prop :=
  10 - offset ≤ room ∧ (node.large → NoneAfter micShort
    (node.comp.elem.map btMeshCompElemSize) (offset - 10) (room - (10 - offset)))

theorem btMeshCompDataGetPage0_eq (node : Node) (buf : Buf) : btMeshCompDataGetPage0 node buf =
    (buf.add (page0Head node)).bind (page0Loop node node.comp.elem) := by
  unfold btMeshCompDataGetPage0 page0Head
  simp only [dataBufAddLe16Offset_eq, Option.bind_eq_bind, add_bind_add, append_assoc]

theorem length_flatten_map {β : Type*} (f : β → Bytes) (l : List β) :
    (l.map f).flatten.length = (l.map fun x => (f x).length).sum := by
  rw [length_flatten, map_map]
  rfl

theorem page0_size (node : Node) :
    (page0Head node ++ (node.comp.elem.map page0Item).flatten).length = compPage0Size node := by
  rw [length_append, length_flatten_map, length_page0Head, compPage0Size]
  simp only [length_page0Item]

/-- **Page 0 is served right just where its condition holds.** -/
theorem page0_right_iff (node : Node) (offset room : ℕ) :
    ServedRight (page0Head node) (node.comp.elem.map page0Item) (compPage0Size node) offset room
      (btMeshCompDataGetPage0 node ⟨[], room, offset⟩) ↔ Page0Ok node offset room := by
  rw [btMeshCompDataGetPage0_eq, Page0Ok]
  by_cases hroom : 10 - offset ≤ room
  · obtain ⟨buf, ret, hloop, hdata⟩ := serve_of_loop (p := fun _ => True) (fun _ => rfl)
      (fun elem elems buf _ => page0Loop_cons node elem elems buf) node.comp.elem
      ⟨(page0Head node).drop offset, room - (10 - offset), offset - 10⟩ (fun _ _ => trivial)
    have hadd : (⟨[], room, offset⟩ : Buf).add (page0Head node) =
        some ⟨(page0Head node).drop offset, room - (10 - offset), offset - 10⟩ :=
      add_of_le hroom
    rw [hadd, Option.bind_some, hloop, servedRight_some, hdata, cut_head micShort_pos]
    simp only [page0_size, hroom, true_and, append_cancel_left_eq, exists_eq_left',
      length_page0Head]
    cases hlarge : node.large with
    | false => simpa using serve_cut micShort_pos
    | true =>
      rw [Bool.not_true, serve_cut_iff micShort_pos, map_map]
      simp [Function.comp_def]
  · have hadd : (⟨[], room, offset⟩ : Buf).add (page0Head node) = none := if_neg hroom
    rw [hadd, Option.bind_none]
    exact iff_of_false not_servedRight_none fun h => hroom h.1

/-! ## Page 1 -/

/-- What `add_items_to_page` writes for one relation. -/
def relItem (mod : Model) (extModCnt : UInt8) (r : ModRelation) : Bytes :=
  let offset := elemOffset mod r
  if shortFormat mod extModCnt r then
    [UInt8.ofNat (if offset < 0 then offset + 8 else offset).toNat ||| (r.idxBase <<< 3)]
  else [UInt8.ofNat (if offset < 0 then offset + 256 else offset).toNat] ++ [r.idxBase]

theorem addItem_eq (mod : Model) (extModCnt : UInt8) :
    addItem mod extModCnt = fun buf r => buf.add (relItem mod extModCnt r) := by
  funext buf r
  unfold addItem relItem
  dsimp only
  split
  · exact dataBufAddU8Offset_eq _ buf
  · simp only [dataBufAddU8Offset_eq, Option.bind_eq_bind, add_append]

/-- A model on page 1. -/
def page1Model (node : Node) (sigOffset : ℕ) (mod : Model) : Bytes :=
  [modElemInfo node mod sigOffset] ++ (isCorPresent node mod sigOffset).toList ++
    if countModExt node mod sigOffset ≠ 0 then
      (extRels node mod sigOffset).flatMap (relItem mod (countModExt node mod sigOffset))
    else []

theorem page1AddModel_eq (node : Node) (sigOffset : ℕ) :
    page1AddModel node sigOffset = fun buf mod => buf.add (page1Model node sigOffset mod) := by
  funext buf mod
  have hhead : prepModelItemHeader node mod sigOffset buf = buf.add
      ([modElemInfo node mod sigOffset] ++ (isCorPresent node mod sigOffset).toList) := by
    unfold prepModelItemHeader
    simp only [dataBufAddU8Offset_eq, Option.bind_eq_bind]
    cases isCorPresent node mod sigOffset with
    | none => simp
    | some corId => rw [add_append]; rfl
  unfold page1AddModel page1Model addItemsToPage
  rw [hhead, add_append buf (_ ++ _)]
  refine congrArg _ (funext fun buf => ?_)
  simp only [addItem_eq]
  split
  · exact foldlM_add _ _ _
  · exact (add_nil buf).symm

/-- An element on page 1. -/
def page1Item (node : Node) (elem : Elem) : Bytes :=
  [UInt8.ofNat elem.models.length] ++ [UInt8.ofNat elem.vndModels.length] ++
    elem.models.flatMap (page1Model node 0) ++
    elem.vndModels.flatMap (page1Model node elem.models.length)

/-- Where what is counted of a model on page 1 is what is written: a model
that extends another has no correspondence in which it is the second. -/
def ExtOnly (node : Node) (sigOffset : ℕ) (mod : Model) : Prop :=
  countModExt node mod sigOffset ≠ 0 →
    ∀ r ∈ modRels node, isModExtension mod sigOffset r → r.type = relationTypeExt

theorem length_relItem (mod : Model) (extModCnt : UInt8) (r : ModRelation) :
    (relItem mod extModCnt r).length = if shortFormat mod extModCnt r then 1 else 2 := by
  unfold relItem
  dsimp only
  split <;> rfl

theorem length_page1Model (node : Node) (sigOffset : ℕ) (mod : Model) :
    (page1Model node sigOffset mod).length ≤ page1ModelSize node sigOffset mod ∧
      ((page1Model node sigOffset mod).length = page1ModelSize node sigOffset mod ↔
        ExtOnly node sigOffset mod) := by
  have hhead : ([modElemInfo node mod sigOffset] ++
      (isCorPresent node mod sigOffset).toList).length =
      if (isCorPresent node mod sigOffset).isSome then 2 else 1 := by
    cases isCorPresent node mod sigOffset <;> rfl
  rw [page1Model, length_append, hhead, page1ModelSize, modItemsSize, ExtOnly]
  by_cases hcnt : countModExt node mod sigOffset = 0
  · simp [hcnt]
  · have hexts : extRels node mod sigOffset =
        ((modRels node).filter (isModExtension mod sigOffset)).filter
          fun r => r.type = relationTypeExt := by
      rw [filter_filter, extRels]
      exact filter_congr fun r _ => by simp [and_comm]
    have hsub : List.Sublist (extRels node mod sigOffset)
        ((modRels node).filter (isModExtension mod sigOffset)) := by
      rw [hexts]
      exact filter_sublist
    have hsum := sum_sublist_le
      (fun r => if shortFormat mod (countModExt node mod sigOffset) r then 1 else 2) hsub
      fun r => by split <;> decide
    have hall := filter_eq_self (l := (modRels node).filter (isModExtension mod sigOffset))
      (p := fun r => r.type = relationTypeExt)
    rw [← hexts] at hall
    rw [if_pos hcnt, if_neg hcnt, length_flatMap]
    simp only [length_relItem]
    refine ⟨Nat.add_le_add_left hsum.1 _, ?_⟩
    rw [Nat.add_left_cancel_iff, hsum.2, hall]
    simp [hcnt]

/-- What is counted of an element on page 1 is what is written. -/
def ElemExtOnly (node : Node) (elem : Elem) : Prop :=
  (∀ mod ∈ elem.models, ExtOnly node 0 mod) ∧
    ∀ mod ∈ elem.vndModels, ExtOnly node elem.models.length mod

theorem length_page1Item (node : Node) (elem : Elem) :
    (page1Item node elem).length ≤ page1ElemSize node elem ∧
      ((page1Item node elem).length = page1ElemSize node elem ↔ ElemExtOnly node elem) := by
  have hmodels (l : List Model) (sigOffset : ℕ) :
      (l.flatMap (page1Model node sigOffset)).length ≤ (l.map (page1ModelSize node sigOffset)).sum ∧
        ((l.flatMap (page1Model node sigOffset)).length =
          (l.map (page1ModelSize node sigOffset)).sum ↔ ∀ mod ∈ l, ExtOnly node sigOffset mod) := by
    have hsum := sum_map_le_iff (l := l) fun mod _ => (length_page1Model node sigOffset mod).1
    simp only [(length_page1Model node sigOffset _).2] at hsum
    rwa [length_flatMap]
  have hsig := hmodels elem.models 0
  have hvnd := hmodels elem.vndModels elem.models.length
  simp only [page1Item, page1ElemSize, ElemExtOnly, ← hsig.2, ← hvnd.2, length_append,
    length_singleton]
  omega

theorem page1Loop_cons_size (node : Node) (elem : Elem) (elems : List Elem) (buf : Buf) :
    page1Loop node (elem :: elems) buf = if page1ElemSize node elem ≤ buf.offset then
        page1Loop node elems { buf with offset := buf.offset - page1ElemSize node elem }
      else if buf.room < page1ElemSize node elem - buf.offset + micShort then
        some (buf, notFit node)
      else (buf.add (page1Item node elem)).bind (page1Loop node elems) := by
  rw [page1Loop]
  congr 2
  simp only [dataBufAddU8Offset_eq, page1AddModel_eq, foldlM_add, Option.bind_eq_bind,
    add_bind_add, page1Item, append_assoc]

theorem page1Loop_cons (node : Node) (elem : Elem) (elems : List Elem) (buf : Buf)
    (helem : ElemExtOnly node elem) : page1Loop node (elem :: elems) buf =
    if (page1Item node elem).length ≤ buf.offset then
      page1Loop node elems { buf with offset := buf.offset - (page1Item node elem).length }
    else if buf.room < (page1Item node elem).length - buf.offset + micShort then
      if true then some (buf, notFit node) else page1Loop node elems buf
    else (buf.add (page1Item node elem)).bind (page1Loop node elems) := by
  rw [page1Loop_cons_size, (length_page1Item node elem).2.2 helem, if_pos rfl]

theorem page1_size (node : Node) :
    (node.comp.elem.map (page1Item node)).flatten.length = compPage1Size node ↔
      ∀ elem ∈ node.comp.elem, ElemExtOnly node elem := by
  have hsum := sum_map_le_iff (l := node.comp.elem) fun elem _ => (length_page1Item node elem).1
  simp only [(length_page1Item node _).2] at hsum
  rw [length_flatten_map]
  exact hsum.2

/-- **Page 1 is served right just where no model that extends another is
the second of a correspondence.** -/
theorem page1_right_iff (node : Node) (offset room : ℕ) :
    ServedRight [] (node.comp.elem.map (page1Item node)) (compPage1Size node) offset room
      (btMeshCompDataGetPage1 node ⟨[], room, offset⟩) ↔
      ∀ elem ∈ node.comp.elem, ElemExtOnly node elem := by
  rw [← page1_size]
  constructor
  · exact fun h => h.1
  · intro hsize
    obtain ⟨buf, ret, hloop, hdata⟩ := serve_of_loop (fun _ => rfl)
      (page1Loop_cons node) node.comp.elem ⟨[], room, offset⟩ ((page1_size node).1 hsize)
    rw [btMeshCompDataGetPage1, hloop, servedRight_some, hdata]
    exact ⟨hsize, serve_cut micShort_pos⟩

/-! ## Page 2 -/

/-- A record on page 2. -/
def page2Item (record : Record) : Bytes :=
  le16 record.id.toNat ++ [record.x] ++ [record.y] ++ [record.z] ++
    [UInt8.ofNat record.elemOffset.length] ++ record.elemOffset ++
    le16 (UInt16.ofNat record.data.length).toNat ++ record.data

@[simp] theorem length_page2Item (record : Record) :
    (page2Item record).length = recordSize record := by
  simp only [page2Item, length_append, length_le16, length_singleton, recordSize]
  omega

theorem add_data_bind {β : Type*} (data : Bytes) (buf : Buf) (k : Buf → Option β) :
    (if data.length ≠ 0 then (dataBufAddMemOffset data buf).bind k else (some buf).bind k) =
      (buf.add data).bind k := by
  rw [dataBufAddMemOffset_eq]
  split
  · rfl
  next h => rw [eq_nil_of_length_eq_zero (not_not.1 h), add_nil]

theorem page2Loop_cons (node : Node) (record : Record) (records : List Record) (buf : Buf) :
    page2Loop node (record :: records) buf =
    if (page2Item record).length ≤ buf.offset then
      page2Loop node records { buf with offset := buf.offset - (page2Item record).length }
    else if buf.room < (page2Item record).length - buf.offset + micShort then
      if true then some (buf, notFit node) else page2Loop node records buf
    else (buf.add (page2Item record)).bind (page2Loop node records) := by
  rw [page2Loop, length_page2Item, if_pos rfl]
  congr 2
  simp only [dataBufAddLe16Offset_eq, dataBufAddU8Offset_eq, add_data_bind,
    Option.bind_eq_bind, add_bind_add, page2Item, append_assoc]

/-- The records of page 2. -/
def page2Items (node : Node) : List Bytes := (node.comp2.getD []).map page2Item

/-- **Page 2 is served right.** -/
theorem page2_right (node : Node) (offset room : ℕ) :
    ServedRight [] (page2Items node) (compPage2Size node) offset room
      (btMeshCompDataGetPage2 node ⟨[], room, offset⟩) := by
  unfold btMeshCompDataGetPage2 compPage2Size page2Items
  cases node.comp2 with
  | none => exact servedRight_some.2 ⟨rfl, cut_nil.2 rfl⟩
  | some records =>
    obtain ⟨buf, ret, hloop, hdata⟩ := serve_of_loop (p := fun _ => True) (fun _ => rfl)
      (fun record records buf _ => page2Loop_cons node record records buf) records
      ⟨[], room, offset⟩ (fun _ _ => trivial)
    dsimp only [Option.getD_some]
    rw [hloop, servedRight_some, hdata, nil_append, length_flatten_map]
    simp only [length_page2Item]
    exact ⟨trivial, serve_cut micShort_pos⟩

end CompData

end OpenBlue
