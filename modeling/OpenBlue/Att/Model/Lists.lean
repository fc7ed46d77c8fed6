import OpenBlue.Att.Model.Read
/-!
# ATT server — the list responses

The model of the four handlers of `att.c` that answer with a list of
attributes of a range of handles: Find Information, Find By Type Value,
Read By Type and Read By Group Type. Each has a callback that appends an
entry to the PDU or ends the list.
-/

namespace OpenBlue

namespace Att

/-- `BT_UUID_GATT_PRIMARY`, `_SECONDARY`, `_INCLUDE` and `_CHRC`. -/
def uuidPrimary : Gatt.Uuid := .u16 0x2800
def uuidSecondary : Gatt.Uuid := .u16 0x2801
def uuidInclude : Gatt.Uuid := .u16 0x2802
def uuidChrc : Gatt.Uuid := .u16 0x2803

/-- `bt_uuid_create` from bytes of a length. -/
def uuidCreate (data : List UInt8) (len : ℕ) : Option Gatt.Uuid :=
  if len = 2 then some (.u16 (UInt16.ofNat (leNat (data.take 2))))
  else if len = 4 then some (.u32 (UInt32.ofNat (leNat (data.take 4))))
  else if len = 16 then some (.u128 (BitVec.ofNat 128 (leNat (data.take 16))))
  else none

/-- `range_is_valid`: the handle an invalid range is reported with. -/
def rangeErr (start last : UInt16) : Option UInt16 :=
  if start = 0 ∨ last = 0 then some 0 else if last < start then some start else none

namespace Server

variable {σ : Type*}

/-! ## Find Information -/

/-- `BT_ATT_INFO_16` and `BT_ATT_INFO_128`. -/
def info16 : UInt8 := 0x01
def info128 : UInt8 := 0x02

/-- The entry of an attribute, `struct bt_att_info_16` or `_128`; one with
a 32-bit UUID has none. -/
def infoEntry (handle : UInt16) : Gatt.Uuid → List UInt8
  | .u16 v => le16 handle.toNat ++ leBytes 2 v.toNat
  | .u32 _ => []
  | .u128 v => le16 handle.toNat ++ leBytes 16 v.toNat

/-- The format the first entry sets. -/
def infoFormat : Gatt.Uuid → UInt8
  | .u16 _ => info16
  | .u32 _ => info128
  | .u128 _ => info128

/-- `struct find_info_data`: the format, once it is set, and the entries
behind it. -/
structure FindInfoData where
  format : Option UInt8
  entries : List (List UInt8)
  deriving DecidableEq, Repr

/-- The bytes of the PDU: opcode, format and entries. -/
def FindInfoData.len (data : FindInfoData) : ℕ := 2 + data.entries.flatten.length

/-- `find_info_cb`, for a bearer of `mtu`. -/
def findInfoCb (mtu : ℕ) : Gatt.AttrFunc (AttrOps σ) FindInfoData := fun attr handle data =>
  let format := data.format.getD (infoFormat attr.uuid)
  let data := { data with format := some format }
  match attr.uuid with
  | .u32 _ => (.stop, data)
  | uuid =>
    if format ≠ infoFormat uuid then (.stop, data)
    else
      let entry := infoEntry handle uuid
      let data := { data with entries := data.entries ++ [entry] }
      (if entry.length < mtu - data.len then .continue else .stop, data)

/-- `att_find_info_rsp`. -/
def attFindInfoRsp (s : Server σ) (start last : UInt16) : UInt8 × Server σ :=
  match s.createPdu 0 with
  | (false, s) => (Err.insufficientResources, s)
  | (true, s) =>
    match s.db.foreachAttr start last (findInfoCb s.mtu) ⟨none, []⟩ with
    | ⟨none, _⟩ => (0, s.sendErrRsp Op.findInfoReq start Err.attributeNotFound)
    | ⟨some format, entries⟩ =>
      (0, s.sendRsp (Op.findInfoRsp :: format :: entries.flatten))

/-- `att_find_info_req`, on the bytes behind the opcode. -/
def attFindInfoReq (s : Server σ) (buf : List UInt8) : UInt8 × Server σ :=
  let start := UInt16.ofNat (getLe16 buf)
  let last := UInt16.ofNat (getLe16 (buf.drop 2))
  match rangeErr start last with
  | some handle => (0, s.sendErrRsp Op.findInfoReq handle Err.invalidHandle)
  | none => s.attFindInfoRsp start last

/-! ## Find By Type Value -/

/-- `struct find_type_data`: the groups found, whether the last of them
still grows, and the server, whose application is read. -/
structure FindTypeData (σ : Type*) where
  groups : List (UInt16 × UInt16)
  growing : Bool
  err : UInt8
  server : Server σ

/-- The handle is taken into the last group, if that still grows. -/
def growLast {α : Type*} (setEnd : α → UInt16 → α) (getEnd : α → UInt16) (groups : List α)
    (handle : UInt16) : List α :=
  match groups.getLast? with
  | none => groups
  | some group =>
    if getEnd group < handle then groups.dropLast ++ [setEnd group handle] else groups

/-- The value of a service declaration is the one asked for, or the same
UUID in another form. -/
def valueMatches (value read : List UInt8) : Bool :=
  if read.length ≠ value.length then
    match uuidCreate value value.length, uuidCreate read read.length with
    | some recvd, some ref => recvd.same ref
    | _, _ => false
  else read == value

/-- `find_type_cb`, for the value with its `uint8_t` length. -/
def findTypeCb (value : List UInt8) : Gatt.AttrFunc (AttrOps σ) (FindTypeData σ) :=
  fun attr handle data =>
    if attr.uuid.same uuidSecondary then (.continue, { data with growing := false })
    else if ¬ attr.uuid.same uuidPrimary then
      (.continue,
        if data.growing then
          { data with groups := growLast (fun g h => (g.1, h)) Prod.snd data.groups handle }
        else data)
    else if data.server.mtu < 1 + 4 * data.groups.length + 4 then (.stop, data)
    else
      match data.server.callRead attr.data 16 0 with
      | (.bytes read, server) =>
        if valueMatches value read then
          (.continue, ⟨data.groups ++ [(handle, handle)], true, 0, server⟩)
        else (.continue, { data with growing := false, server })
      | (_, server) => (.continue, { data with growing := false, server })

/-- The bytes of a group of handles. -/
def groupEntry (g : UInt16 × UInt16) : List UInt8 := le16 g.1.toNat ++ le16 g.2.toNat

/-- `att_find_type_rsp`. The length of the value comes in as a `uint8_t`. -/
def attFindTypeRsp (s : Server σ) (start last : UInt16) (value : List UInt8) (valueLen : UInt8) :
    UInt8 × Server σ :=
  match s.createPdu 0 with
  | (false, s) => (Err.insufficientResources, s)
  | (true, s) =>
    let data := s.db.foreachAttr start last (findTypeCb (value.take valueLen.toNat))
      ⟨[], false, Err.attributeNotFound, s⟩
    if data.err ≠ 0 then (0, data.server.sendErrRsp Op.findTypeReq start data.err)
    else (0, data.server.sendRsp (Op.findTypeRsp :: data.groups.flatMap groupEntry))

/-- `att_find_type_req`, on the bytes behind the opcode. -/
def attFindTypeReq (s : Server σ) (buf : List UInt8) : UInt8 × Server σ :=
  let start := UInt16.ofNat (getLe16 buf)
  let last := UInt16.ofNat (getLe16 (buf.drop 2))
  let type := UInt16.ofNat (getLe16 (buf.drop 4))
  let value := buf.drop 6
  match rangeErr start last with
  | some handle => (0, s.sendErrRsp Op.findTypeReq handle Err.invalidHandle)
  | none =>
    if ¬ (Gatt.Uuid.u16 type).same uuidPrimary then
      (0, s.sendErrRsp Op.findTypeReq start Err.attributeNotFound)
    else s.attFindTypeRsp start last value (UInt8.ofNat value.length)

/-! ## Read By Type -/

/-- `struct read_type_data`: the length field of the response, the bytes
behind it, and the server. -/
structure ReadTypeData (σ : Type*) where
  len : UInt8
  items : List UInt8
  err : UInt8
  server : Server σ

/-- `attr_read_type_cb`: the first item sets the length, and a later one
keeps to it or is taken back. -/
def attrReadTypeCb (len : UInt8) (read : ℕ) : Option UInt8 :=
  if len = 0 then some (UInt8.ofNat (read + 2))
  else if len.toNat ≠ read + 2 then none
  else some len

/-- `read_type_cb`. -/
def readTypeCb (uuid : Gatt.Uuid) : Gatt.AttrFunc (AttrOps σ) (ReadTypeData σ) :=
  fun attr handle data =>
    if ¬ attr.uuid.same uuid then (.continue, data)
    else
      let err := data.server.checkPerm attr.data permReadMask
      if err ≠ 0 then (.stop, { data with err := if data.len ≠ 0 then 0 else err })
      else if ¬ attr.data.readAuthorize data.server.app then
        (.stop, { data with err := Err.authorization })
      else
        let mtu := data.server.mtu
        let items := data.items ++ le16 handle.toNat
        -- the list goes on where more than an item's room is left; the difference is unsigned
        let more (data : ReadTypeData σ) : Gatt.Iter × ReadTypeData σ :=
          let used := 2 + data.items.length
          (if mtu < used ∨ data.len.toNat < mtu - used then .continue else .stop, data)
        match data.server.attChanRead attr.data (2 + items.length) 0 with
        | (.error code, server) =>
          (.stop, { data with items, err := errToAtt code, server })
        | (.noRoom, server) => more { data with items, err := 0, server }
        | (.bytes value, server) =>
          match attrReadTypeCb data.len value.length with
          | none => (.stop, { data with err := 0, server })
          | some len => more ⟨len, items ++ value, 0, server⟩

/-- `att_read_type_rsp`. -/
def attReadTypeRsp (s : Server σ) (uuid : Gatt.Uuid) (start last : UInt16) : UInt8 × Server σ :=
  match s.createPdu 0 with
  | (false, s) => (Err.insufficientResources, s)
  | (true, s) =>
    let data := s.db.foreachAttr start last (readTypeCb uuid) ⟨0, [], Err.attributeNotFound, s⟩
    if data.err ≠ 0 then (0, data.server.sendErrRsp Op.readTypeReq start data.err)
    else (0, data.server.sendRsp (Op.readTypeRsp :: data.len :: data.items))

/-- A type that a change-unaware client may ask for, or the whole range. -/
def readTypeExempt (uuid : Gatt.Uuid) (start last : UInt16) : Bool :=
  uuid.same uuidInclude || uuid.same uuidChrc || (start == 1 && last == 0xffff)

/-- `att_read_type_req`, on the bytes behind the opcode. -/
def attReadTypeReq (s : Server σ) (buf : List UInt8) : UInt8 × Server σ :=
  let uuidLen := UInt8.ofNat (buf.length - 4)
  if uuidLen ≠ 2 ∧ uuidLen ≠ 16 then (Err.invalidPdu, s)
  else
    let start := UInt16.ofNat (getLe16 buf)
    let last := UInt16.ofNat (getLe16 (buf.drop 2))
    match uuidCreate (buf.drop 4) uuidLen.toNat with
    | none => (Err.unlikely, s)
    | some uuid =>
      match rangeErr start last with
      | some handle => (0, s.sendErrRsp Op.readTypeReq handle Err.invalidHandle)
      | none =>
        match s.changeAware true with
        | (true, s) => s.attReadTypeRsp uuid start last
        | (false, s) =>
          if readTypeExempt uuid start last then s.attReadTypeRsp uuid start last
          else if s.oosSent then (0, s)
          else (Err.dbOutOfSync, { s with oosSent := true })

/-! ## Read By Group Type -/

/-- An entry of the response in the making, `struct bt_att_group_data`. -/
structure GroupData where
  start : UInt16
  last : UInt16
  value : List UInt8
  deriving DecidableEq, Repr

/-- The bytes of an entry. -/
def GroupData.entry (g : GroupData) : List UInt8 := groupEntry (g.start, g.last) ++ g.value

/-- `struct read_group_data`: the length field, the entries, whether the
last of them still grows, and the server. -/
structure ReadGroupData (σ : Type*) where
  len : UInt8
  groups : List GroupData
  growing : Bool
  server : Server σ

/-- The bytes of the PDU: opcode, length field and entries. -/
def ReadGroupData.used (data : ReadGroupData σ) : ℕ :=
  2 + (data.groups.flatMap GroupData.entry).length

/-- `attr_read_group_cb`. -/
def attrReadGroupCb (len : UInt8) (read : ℕ) : Option UInt8 :=
  if len = 0 then some (UInt8.ofNat (read + 4))
  else if len.toNat ≠ read + 4 then none
  else some len

/-- `read_group_cb`. -/
def readGroupCb (uuid : Gatt.Uuid) : Gatt.AttrFunc (AttrOps σ) (ReadGroupData σ) :=
  fun attr handle data =>
    if ¬ attr.uuid.same uuidPrimary ∧ ¬ attr.uuid.same uuidSecondary then
      (.continue,
        if data.growing then
          { data with
            groups := growLast (fun g h => { g with last := h }) GroupData.last data.groups
              handle }
        else data)
    else if ¬ attr.uuid.same uuid then (.continue, { data with growing := false })
    else if data.len ≠ 0 ∧ data.server.mtu - data.used < data.len.toNat then (.stop, data)
    else
      match data.server.attChanRead attr.data (data.used + 4) 0 with
      | (.error _, server) =>
        (.stop,
          { data with groups := data.groups ++ [⟨handle, handle, []⟩], growing := true, server })
      | (.noRoom, server) =>
        (.continue,
          { data with groups := data.groups ++ [⟨handle, handle, []⟩], growing := true, server })
      | (.bytes value, server) =>
        match attrReadGroupCb data.len value.length with
        | none => (.stop, { data with growing := false, server })
        | some len =>
          (.continue, ⟨len, data.groups ++ [⟨handle, handle, value⟩], true, server⟩)

/-- `att_read_group_rsp`. -/
def attReadGroupRsp (s : Server σ) (uuid : Gatt.Uuid) (start last : UInt16) :
    UInt8 × Server σ :=
  match s.createPdu 0 with
  | (false, s) => (Err.insufficientResources, s)
  | (true, s) =>
    let data := s.db.foreachAttr start last (readGroupCb uuid) ⟨0, [], false, s⟩
    if data.len = 0 then
      (0, data.server.sendErrRsp Op.readGroupReq start Err.attributeNotFound)
    else
      (0, data.server.sendRsp
        (Op.readGroupRsp :: data.len :: data.groups.flatMap GroupData.entry))

/-- `att_read_group_req`, on the bytes behind the opcode. -/
def attReadGroupReq (s : Server σ) (buf : List UInt8) : UInt8 × Server σ :=
  let uuidLen := UInt8.ofNat (buf.length - 4)
  if uuidLen ≠ 2 ∧ uuidLen ≠ 16 then (Err.invalidPdu, s)
  else
    let start := UInt16.ofNat (getLe16 buf)
    let last := UInt16.ofNat (getLe16 (buf.drop 2))
    match uuidCreate (buf.drop 4) uuidLen.toNat with
    | none => (Err.unlikely, s)
    | some uuid =>
      match rangeErr start last with
      | some handle => (0, s.sendErrRsp Op.readGroupReq handle Err.invalidHandle)
      | none =>
        if ¬ uuid.same uuidPrimary ∧ ¬ uuid.same uuidSecondary then
          (0, s.sendErrRsp Op.readGroupReq start Err.unsupportedGroupType)
        else s.attReadGroupRsp uuid start last

end Server

end Att

end OpenBlue
