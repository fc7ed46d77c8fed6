import Mathlib.Data.Int.Basic
import OpenBlue.Common.Bytes
import OpenBlue.Common.ReadOn
/-!
# Mesh — composition and metadata pages

The model of the part of `access.c` that serves the composition of the node
page by page from an offset on: the writers that leave out what lies before
the offset, the sizes by which elements, records and models are passed over
at once, and the loops of the three composition pages and of the models
metadata page. An assertion of the buffer that fails is `none`.
-/

namespace OpenBlue

namespace CompData

/-- The bytes of a page. -/
abbrev Bytes := List UInt8

/-! ## The composition -/

/-- `struct bt_mesh_models_metadata_entry`; `len` is the length of its
data. An entry without data ends the list, and is not on it. -/
structure MetadataEntry where
  id : UInt16
  data : Bytes
  len_lt : data.length < 2 ^ 16 := by decide
  deriving DecidableEq, Repr

/-- `struct bt_mesh_model`. -/
structure Model where
  /-- `id`, of a vendor model `vnd.id`. -/
  id : UInt16
  /-- `vnd.company`. -/
  company : UInt16 := 0
  /-- `rt->elem_idx`. -/
  elemIdx : UInt8 := 0
  /-- `rt->mod_idx`. -/
  modIdx : UInt8 := 0
  metadata : Option (List MetadataEntry) := none
  deriving DecidableEq, Repr

/-- `struct bt_mesh_elem`. -/
structure Elem where
  loc : UInt16
  models : List Model
  vndModels : List Model
  models_lt : models.length < 2 ^ 8 := by decide
  vndModels_lt : vndModels.length < 2 ^ 8 := by decide
  deriving DecidableEq, Repr

/-- `struct bt_mesh_comp`. -/
structure Comp where
  cid : UInt16
  pid : UInt16
  vid : UInt16
  elem : List Elem
  deriving DecidableEq, Repr

/-- `struct bt_mesh_comp2_record`. -/
structure Record where
  id : UInt16
  x : UInt8
  y : UInt8
  z : UInt8
  elemOffset : Bytes
  data : Bytes
  elemOffset_lt : elemOffset.length < 2 ^ 8 := by decide
  data_lt : data.length < 2 ^ 16 := by decide
  deriving DecidableEq, Repr

/-- `struct mod_relation`. -/
structure ModRelation where
  elemBase : UInt8
  idxBase : UInt8
  elemExt : UInt8
  idxExt : UInt8
  type : UInt8
  deriving DecidableEq, Repr

/-- What the pages depend on: options of the build, the composition that is
registered, and the relations between models. -/
structure Node where
  /-- `CONFIG_BT_MESH_LARGE_COMP_DATA_SRV`. -/
  large : Bool
  /-- `CONFIG_BT_MESH_COMP_PAGE_1`. -/
  compPage1 : Bool
  /-- `CONFIG_BT_MESH_COMP_PAGE_2`. -/
  compPage2 : Bool
  /-- `CONFIG_BT_MESH_RELAY`. -/
  relay : Bool
  /-- `CONFIG_BT_MESH_GATT_PROXY`. -/
  gattProxy : Bool
  /-- `CONFIG_BT_MESH_FRIEND`. -/
  friend : Bool
  /-- `CONFIG_BT_MESH_LOW_POWER`. -/
  lowPower : Bool
  /-- `CONFIG_BT_MESH_CRPL`. -/
  crpl : UInt16
  /-- `dev_comp`. -/
  comp : Comp
  /-- `dev_comp2`. -/
  comp2 : Option (List Record)
  /-- `mod_rel_list`. -/
  modRelList : List ModRelation
  deriving DecidableEq, Repr

/-! ## Constants -/

/-- `BT_MESH_MIC_SHORT`. -/
def micShort : ℕ := 4

/-- `RELATION_TYPE_EXT`. -/
def relationTypeExt : UInt8 := 0xff

/-- What a page function returns. -/
inductive Ret
  | ok
  | e2big
  | enodev
  | einval
  deriving DecidableEq, Repr

/-! ## Writing from an offset on -/

/-- A buffer, with the offset that is still to be left out. -/
abbrev Buf := Writer UInt8

/-- `bt_buf_simple_add_mem`. -/
def btBufSimpleAddMem (mem : Bytes) (buf : Buf) : Option Buf :=
  if mem.length ≤ buf.room then
    some { buf with data := buf.data ++ mem, room := buf.room - mem.length }
  else none

/-- `data_buf_add_u8_offset`. -/
def dataBufAddU8Offset (val : UInt8) (buf : Buf) : Option Buf :=
  if buf.offset ≥ 1 then some { buf with offset := buf.offset - 1 }
  else btBufSimpleAddMem [val] buf

/-- What `data_buf_add_u8_offset` returns: where the byte is. -/
def u8Ptr (buf : Buf) : Option ℕ :=
  if buf.offset ≥ 1 then none else some buf.data.length

/-- `data_buf_add_le16_offset`. -/
def dataBufAddLe16Offset (val : UInt16) (buf : Buf) : Option Buf :=
  if buf.offset ≥ 2 then some { buf with offset := buf.offset - 2 }
  else if buf.offset = 1 then
    btBufSimpleAddMem [UInt8.ofNat (val.toNat / 256)] { buf with offset := buf.offset - 1 }
  else btBufSimpleAddMem (le16 val.toNat) buf

/-- `data_buf_add_mem_offset`. -/
def dataBufAddMemOffset (data : Bytes) (buf : Buf) : Option Buf :=
  if buf.offset ≥ data.length then some { buf with offset := buf.offset - data.length }
  else (btBufSimpleAddMem (data.drop buf.offset) buf).map fun buf => { buf with offset := 0 }

/-- A write through a pointer that `u8Ptr` gave. -/
def storeU8 (ptr : Option ℕ) (val : UInt8 → UInt8) (buf : Buf) : Buf :=
  match ptr with
  | none => buf
  | some i => { buf with data := buf.data.modify i val }

/-- What follows where nothing failed. -/
def ifOk (r : Option (Buf × Ret)) (k : Buf → Option (Buf × Ret)) : Option (Buf × Ret) :=
  match r with
  | some (buf, .ok) => k buf
  | r => r

/-- `comp_add_model`. -/
def compAddModel (vnd : Bool) (mod : Model) (buf : Buf) : Option Buf :=
  if vnd then do
    let buf ← dataBufAddLe16Offset mod.company buf
    dataBufAddLe16Offset mod.id buf
  else dataBufAddLe16Offset mod.id buf

/-- An element or a record does not fit: `-E2BIG`, unless the server of
large compositions leaves it out. -/
def notFit (node : Node) : Ret := if node.large then .ok else .e2big

/-! ## Page 0 -/

/-- `bt_mesh_comp_elem_size`. -/
def btMeshCompElemSize (elem : Elem) : ℕ :=
  4 + elem.models.length * 2 + elem.vndModels.length * 4

/-- `comp_add_elem`. -/
def compAddElem (node : Node) (elem : Elem) (buf : Buf) : Option (Buf × Ret) :=
  if buf.offset ≥ btMeshCompElemSize elem then
    some ({ buf with offset := buf.offset - btMeshCompElemSize elem }, .ok)
  else if buf.room < btMeshCompElemSize elem - buf.offset + micShort then some (buf, notFit node)
  else do
    let buf ← dataBufAddLe16Offset elem.loc buf
    let buf ← dataBufAddU8Offset (UInt8.ofNat elem.models.length) buf
    let buf ← dataBufAddU8Offset (UInt8.ofNat elem.vndModels.length) buf
    let buf ← elem.models.foldlM (fun buf mod => compAddModel false mod buf) buf
    let buf ← elem.vndModels.foldlM (fun buf mod => compAddModel true mod buf) buf
    return (buf, .ok)

/-- The loop of `bt_mesh_comp_data_get_page_0`. -/
def page0Loop (node : Node) : List Elem → Buf → Option (Buf × Ret)
  | [], buf => some (buf, .ok)
  | elem :: elems, buf => ifOk (compAddElem node elem buf) (page0Loop node elems)

/-- `feat`. -/
def feat (node : Node) : UInt16 :=
  (if node.relay then 1 else 0) ||| (if node.gattProxy then 2 else 0) |||
    (if node.friend then 4 else 0) ||| (if node.lowPower then 8 else 0)

/-- `bt_mesh_comp_data_get_page_0`. -/
def btMeshCompDataGetPage0 (node : Node) (buf : Buf) : Option (Buf × Ret) := do
  let buf ← dataBufAddLe16Offset node.comp.cid buf
  let buf ← dataBufAddLe16Offset node.comp.pid buf
  let buf ← dataBufAddLe16Offset node.comp.vid buf
  let buf ← dataBufAddLe16Offset node.crpl buf
  let buf ← dataBufAddLe16Offset (feat node) buf
  page0Loop node node.comp.elem buf

/-- `comp_page_0_size`. -/
def compPage0Size (node : Node) : ℕ := 10 + (node.comp.elem.map btMeshCompElemSize).sum

/-! ## Page 1 -/

/-- What `MOD_REL_LIST_FOR_EACH` goes through. -/
def modRels (node : Node) : List ModRelation :=
  node.modRelList.takeWhile fun r =>
    ¬ (r.elemBase = 0 ∧ r.idxBase = 0 ∧ r.elemExt = 0 ∧ r.idxExt = 0)

/-- `IS_MOD_BASE`. -/
def isModBase (mod : Model) (offset : ℕ) (r : ModRelation) : Bool :=
  r.elemBase = mod.elemIdx ∧ r.idxBase.toNat = mod.modIdx.toNat + offset

/-- `IS_MOD_EXTENSION`. -/
def isModExtension (mod : Model) (offset : ℕ) (r : ModRelation) : Bool :=
  r.elemExt = mod.elemIdx ∧ r.idxExt.toNat = mod.modIdx.toNat + offset

/-- The relations in which a model extends another. -/
def extRels (node : Node) (mod : Model) (sigOffset : ℕ) : List ModRelation :=
  (modRels node).filter fun r => isModExtension mod sigOffset r ∧ r.type = relationTypeExt

/-- What `count_mod_ext` returns. -/
def countModExt (node : Node) (mod : Model) (sigOffset : ℕ) : UInt8 :=
  UInt8.ofNat (extRels node mod sigOffset).length

/-- `max_offset` of `count_mod_ext`. -/
def maxOffset (node : Node) (mod : Model) (sigOffset : ℕ) : Int :=
  (extRels node mod sigOffset).foldl (fun record r =>
    let offset := ((r.elemExt.toNat : Int) - r.elemBase.toNat).bmod (2 ^ 8)
    if offset.natAbs > record.natAbs then offset else record) 0

/-- `is_cor_present`, with the `cor_id` it finds. -/
def isCorPresent (node : Node) (mod : Model) (sigOffset : ℕ) : Option UInt8 :=
  ((modRels node).find? fun r => (isModBase mod sigOffset r ∨ isModExtension mod sigOffset r) ∧
    r.type < relationTypeExt).map ModRelation.type

/-- `mod_elem_info`. -/
def modElemInfo (node : Node) (mod : Model) (sigOffset : ℕ) : UInt8 :=
  let extModCnt := countModExt node mod sigOffset
  let maxOffset := maxOffset node mod sigOffset
  (extModCnt <<< 2) ||| (if extModCnt > 31 ∨ maxOffset > 3 ∨ maxOffset < -4 then 2 else 0) |||
    (if (isCorPresent node mod sigOffset).isSome then 1 else 0)

/-- `prep_model_item_header`. -/
def prepModelItemHeader (node : Node) (mod : Model) (sigOffset : ℕ) (buf : Buf) : Option Buf := do
  let buf ← dataBufAddU8Offset (modElemInfo node mod sigOffset) buf
  match isCorPresent node mod sigOffset with
  | some corId => dataBufAddU8Offset corId buf
  | none => some buf

/-- `elem_offset`. -/
def elemOffset (mod : Model) (r : ModRelation) : Int :=
  (mod.elemIdx.toNat : Int) - r.elemBase.toNat

/-- The short format is for elements this near. -/
def shortFormat (mod : Model) (extModCnt : UInt8) (r : ModRelation) : Bool :=
  extModCnt < 32 ∧ elemOffset mod r < 4 ∧ elemOffset mod r > -5

/-- The item of one relation in `add_items_to_page`. -/
def addItem (mod : Model) (extModCnt : UInt8) (buf : Buf) (r : ModRelation) : Option Buf :=
  let offset := elemOffset mod r
  if shortFormat mod extModCnt r then
    dataBufAddU8Offset
      (UInt8.ofNat (if offset < 0 then offset + 8 else offset).toNat ||| (r.idxBase <<< 3)) buf
  else do
    let buf ← dataBufAddU8Offset
      (UInt8.ofNat (if offset < 0 then offset + 256 else offset).toNat) buf
    dataBufAddU8Offset r.idxBase buf

/-- `add_items_to_page`. -/
def addItemsToPage (node : Node) (mod : Model) (extModCnt : UInt8) (sigOffset : ℕ) (buf : Buf) :
    Option Buf :=
  (extRels node mod sigOffset).foldlM (addItem mod extModCnt) buf

/-- `mod_items_size`. -/
def modItemsSize (node : Node) (mod : Model) (sigOffset : ℕ) : ℕ :=
  let extModCnt := countModExt node mod sigOffset
  if extModCnt = 0 then 0
  else (((modRels node).filter (isModExtension mod sigOffset)).map fun r =>
    if shortFormat mod extModCnt r then 1 else 2).sum

/-- What a model takes in `page1_elem_size`. -/
def page1ModelSize (node : Node) (sigOffset : ℕ) (mod : Model) : ℕ :=
  (if (isCorPresent node mod sigOffset).isSome then 2 else 1) + modItemsSize node mod sigOffset

/-- `page1_elem_size`. -/
def page1ElemSize (node : Node) (elem : Elem) : ℕ :=
  2 + (elem.models.map (page1ModelSize node 0)).sum +
    (elem.vndModels.map (page1ModelSize node elem.models.length)).sum

/-- A model of an element in `bt_mesh_comp_data_get_page_1`. -/
def page1AddModel (node : Node) (sigOffset : ℕ) (buf : Buf) (mod : Model) : Option Buf := do
  let buf ← prepModelItemHeader node mod sigOffset buf
  let extModCnt := countModExt node mod sigOffset
  if extModCnt ≠ 0 then addItemsToPage node mod extModCnt sigOffset buf else some buf

/-- The loop of `bt_mesh_comp_data_get_page_1`. -/
def page1Loop (node : Node) : List Elem → Buf → Option (Buf × Ret)
  | [], buf => some (buf, .ok)
  | elem :: elems, buf =>
    if buf.offset ≥ page1ElemSize node elem then
      page1Loop node elems { buf with offset := buf.offset - page1ElemSize node elem }
    else if buf.room < page1ElemSize node elem - buf.offset + micShort then
      some (buf, notFit node)
    else do
      let buf ← dataBufAddU8Offset (UInt8.ofNat elem.models.length) buf
      let buf ← dataBufAddU8Offset (UInt8.ofNat elem.vndModels.length) buf
      let buf ← elem.models.foldlM (page1AddModel node 0) buf
      let buf ← elem.vndModels.foldlM (page1AddModel node elem.models.length) buf
      page1Loop node elems buf

/-- `bt_mesh_comp_data_get_page_1`. -/
def btMeshCompDataGetPage1 (node : Node) (buf : Buf) : Option (Buf × Ret) :=
  page1Loop node node.comp.elem buf

/-- `comp_page_1_size`. -/
def compPage1Size (node : Node) : ℕ := (node.comp.elem.map (page1ElemSize node)).sum

/-! ## Page 2 -/

/-- `elem_size` of a record. -/
def recordSize (record : Record) : ℕ := 8 + record.elemOffset.length + record.data.length

/-- The loop of `bt_mesh_comp_data_get_page_2`. -/
def page2Loop (node : Node) : List Record → Buf → Option (Buf × Ret)
  | [], buf => some (buf, .ok)
  | record :: records, buf =>
    if buf.offset ≥ recordSize record then
      page2Loop node records { buf with offset := buf.offset - recordSize record }
    else if buf.room < recordSize record - buf.offset + micShort then some (buf, notFit node)
    else do
      let buf ← dataBufAddLe16Offset record.id buf
      let buf ← dataBufAddU8Offset record.x buf
      let buf ← dataBufAddU8Offset record.y buf
      let buf ← dataBufAddU8Offset record.z buf
      let buf ← dataBufAddU8Offset (UInt8.ofNat record.elemOffset.length) buf
      let buf ← if record.elemOffset.length ≠ 0 then dataBufAddMemOffset record.elemOffset buf
        else some buf
      let buf ← dataBufAddLe16Offset (UInt16.ofNat record.data.length) buf
      let buf ← if record.data.length ≠ 0 then dataBufAddMemOffset record.data buf else some buf
      page2Loop node records buf

/-- `bt_mesh_comp_data_get_page_2`. -/
def btMeshCompDataGetPage2 (node : Node) (buf : Buf) : Option (Buf × Ret) :=
  match node.comp2 with
  | none => some (buf, .enodev)
  | some records => page2Loop node records buf

/-- `comp_page_2_size`. -/
def compPage2Size (node : Node) : ℕ :=
  match node.comp2 with
  | none => 0
  | some records => (records.map recordSize).sum

/-- `bt_mesh_comp_data_get_page`. -/
def btMeshCompDataGetPage (node : Node) (page : ℕ) (buf : Buf) : Option (Buf × Ret) :=
  if page = 0 ∨ page = 128 then btMeshCompDataGetPage0 node buf
  else if node.compPage1 ∧ (page = 1 ∨ page = 129) then btMeshCompDataGetPage1 node buf
  else if node.compPage2 ∧ (page = 2 ∨ page = 130) then btMeshCompDataGetPage2 node buf
  else some (buf, .einval)

/-- `bt_mesh_comp_page_size`. -/
def btMeshCompPageSize (node : Node) (page : UInt8) : ℕ :=
  if page = 0 ∨ page = 128 then compPage0Size node
  else if node.compPage1 ∧ (page = 1 ∨ page = 129) then compPage1Size node
  else if node.compPage2 ∧ (page = 2 ∨ page = 130) then compPage2Size node
  else 0

/-! ## Models metadata page 0 -/

/-- `metadata_model_size`. Its loop ends at an entry whose length is 0. -/
def metadataModelSize (vnd : Bool) (mod : Model) : ℕ :=
  match mod.metadata with
  | none => 0
  | some entries => (if vnd then 4 else 2) + 1 +
      ((entries.takeWhile fun entry => entry.data.length ≠ 0).map (4 + ·.data.length)).sum

/-- `bt_mesh_metadata_page_0_size`. -/
def btMeshMetadataPage0Size (node : Node) : ℕ :=
  (node.comp.elem.map fun elem => 2 + (elem.models.map (metadataModelSize false)).sum +
    (elem.vndModels.map (metadataModelSize true)).sum).sum

/-- An entry in `metadata_add_model`. -/
def metadataAddEntry (buf : Buf) (entry : MetadataEntry) : Option Buf := do
  let buf ← dataBufAddLe16Offset (UInt16.ofNat entry.data.length) buf
  let buf ← dataBufAddLe16Offset entry.id buf
  dataBufAddMemOffset entry.data buf

/-- `metadata_add_model`, for a model with metadata. -/
def metadataAddModel (vnd : Bool) (mod : Model) (entries : List MetadataEntry) (buf : Buf) :
    Option (Buf × Ret) :=
  if buf.offset ≥ metadataModelSize vnd mod then
    some ({ buf with offset := buf.offset - metadataModelSize vnd mod }, .ok)
  else if buf.room < metadataModelSize vnd mod + micShort then some (buf, .e2big)
  else do
    let buf ← compAddModel vnd mod buf
    let countPtr := u8Ptr buf
    let buf ← dataBufAddU8Offset 0 buf
    let buf ← entries.foldlM metadataAddEntry buf
    return (storeU8 countPtr (fun _ => UInt8.ofNat entries.length) buf, .ok)

/-- The loops of `bt_mesh_metadata_get_page_0` over the models of an
element, with the pointer to their count. -/
def metadataAddModels (vnd : Bool) (countPtr : Option ℕ) : List Model → Buf → Option (Buf × Ret)
  | [], buf => some (buf, .ok)
  | mod :: models, buf =>
    match mod.metadata with
    | none => metadataAddModels vnd countPtr models buf
    | some entries => ifOk (metadataAddModel vnd mod entries buf) fun buf =>
      metadataAddModels vnd countPtr models (storeU8 countPtr (· + 1) buf)

/-- What there must be room for besides the MIC where an element begins. -/
def countsRoom (buf : Buf) : ℕ :=
  if buf.offset = 0 then 2 else if buf.offset = 1 then 1 else 0

/-- The loop of `bt_mesh_metadata_get_page_0`. -/
def metadataLoop : List Elem → Buf → Option (Buf × Ret)
  | [], buf => some (buf, .ok)
  | elem :: elems, buf =>
    if buf.room < countsRoom buf + micShort then some (buf, .e2big)
    else do
      let modCountPtr := u8Ptr buf
      let buf ← dataBufAddU8Offset 0 buf
      let vndCountPtr := u8Ptr buf
      let buf ← dataBufAddU8Offset 0 buf
      ifOk (metadataAddModels false modCountPtr elem.models buf) fun buf =>
        ifOk (metadataAddModels true vndCountPtr elem.vndModels buf) (metadataLoop elems)

/-- `bt_mesh_metadata_get_page_0`. -/
def btMeshMetadataGetPage0 (node : Node) (buf : Buf) : Option (Buf × Ret) :=
  metadataLoop node.comp.elem buf

end CompData

end OpenBlue
