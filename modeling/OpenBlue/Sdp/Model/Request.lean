import OpenBlue.Common.Bytes
import Mathlib.Tactic.Ring
/-!
# SDP — the records and the requests

The model of the record database of `sdp.c` and of what it reads of a
request: data elements, the service search pattern and its match, and the
attribute ID list. A pull beyond the request meets the assertion of
`bt_buf_simple_pull`, and a loop that does not end is one that runs out of
the turns it is given. The numbers of a record are in the memory of a
little-endian host.
-/

namespace OpenBlue

namespace Sdp

abbrev Bytes := List UInt8

/-- A number as two bytes, the highest first. -/
def be16 (n : ℕ) : Bytes := [UInt8.ofNat (n / 256), UInt8.ofNat n]

/-- A number as four bytes, the highest first. -/
def be32 (n : ℕ) : Bytes := be16 (n / 2 ^ 16) ++ be16 n

/-- The number that bytes make, the highest first. -/
def beNat (bs : Bytes) : ℕ := leNat bs.reverse

/-- What ends the program rather than the request. -/
inductive Fault where
  | assertFailed
  | outside
  | endless
  deriving DecidableEq, Repr

/-- What ends the handling of a request. -/
inductive Stop where
  | invalid (err : ℕ)
  | fault (f : Fault)
  deriving DecidableEq, Repr

/-! ## The records -/

/-- `type & BT_SDP_TYPE_DESC_MASK`. -/
def typeDesc (type : ℕ) : ℕ := type / 8 * 8

/-- `type & BT_SDP_SIZE_DESC_MASK`. -/
def sizeDesc (type : ℕ) : ℕ := type % 8

def uintUnspec : ℕ := 0x08
def intUnspec : ℕ := 0x10
def uuidUnspec : ℕ := 0x18
def textStrUnspec : ℕ := 0x20
def boolUnspec : ℕ := 0x28
def seqUnspec : ℕ := 0x30
def altUnspec : ℕ := 0x38
def urlStrUnspec : ℕ := 0x40

/-- The elements whose data is a number. -/
def isNumber (type : ℕ) : Prop :=
  typeDesc type = uintUnspec ∨ typeDesc type = intUnspec ∨ typeDesc type = uuidUnspec

instance (type : ℕ) : Decidable (isNumber type) := inferInstanceAs (Decidable (_ ∨ _ ∨ _))

/-- `struct bt_sdp_data_elem`: `data` points to bytes, or to data elements. -/
inductive DataElem where
  | value (type dataSize totalSize : ℕ) (data : Bytes)
  | list (type dataSize totalSize : ℕ) (data : List DataElem)

namespace DataElem

def type : DataElem → ℕ
  | value type _ _ _ => type
  | list type _ _ _ => type

def dataSize : DataElem → ℕ
  | value _ dataSize _ _ => dataSize
  | list _ dataSize _ _ => dataSize

def totalSize : DataElem → ℕ
  | value _ _ totalSize _ => totalSize
  | list _ _ totalSize _ => totalSize

/-- The bytes at `data`. -/
def bytes : DataElem → Bytes
  | value _ _ _ data => data
  | list _ _ _ _ => []

/-- The data elements at `data`. -/
def elems : DataElem → List DataElem
  | value _ _ _ _ => []
  | list _ _ _ data => data

end DataElem

/-- `SDP_DATA_ELEM_NEST_LEVEL_MAX`. -/
def nestLevelMax : ℕ := 5

/-- The sizes of an element are those that `BT_SDP_TYPE_SIZE` and
`BT_SDP_TYPE_SIZE_VAR` give it. -/
def SizesOk (type dataSize totalSize : ℕ) : Prop :=
  if typeDesc type = uintUnspec ∨ typeDesc type = intUnspec then
    sizeDesc type ≤ 4 ∧ dataSize = 2 ^ sizeDesc type ∧ totalSize = dataSize + 1
  else if typeDesc type = uuidUnspec then
    sizeDesc type ∈ [1, 2, 4] ∧ dataSize = 2 ^ sizeDesc type ∧ totalSize = dataSize + 1
  else if typeDesc type = boolUnspec then
    sizeDesc type = 0 ∧ dataSize = 1 ∧ totalSize = 2
  else
    typeDesc type ∈ [textStrUnspec, seqUnspec, altUnspec, urlStrUnspec] ∧ 5 ≤ sizeDesc type ∧
      dataSize < 256 ^ 2 ^ (sizeDesc type - 5) ∧
      totalSize = dataSize + 2 ^ (sizeDesc type - 5) + 1

/-- An element is well formed and nested at most so deep: its sizes are
those of what is in it, and a sequence is not empty. -/
def DataElem.Ok : ℕ → DataElem → Prop
  | 0, _ => False
  | _ + 1, .value type dataSize totalSize data => SizesOk type dataSize totalSize ∧
      typeDesc type ≠ seqUnspec ∧ typeDesc type ≠ altUnspec ∧ data.length = dataSize
  | levels + 1, .list type dataSize totalSize data => SizesOk type dataSize totalSize ∧
      (typeDesc type = seqUnspec ∨ typeDesc type = altUnspec) ∧ data ≠ [] ∧
      (data.map DataElem.totalSize).sum = dataSize ∧ ∀ elem ∈ data, elem.Ok levels

/-- `struct bt_sdp_attribute`. -/
structure Attribute where
  id : ℕ
  val : DataElem

/-- `struct bt_sdp_record`. -/
structure Record where
  handle : ℕ := 0
  index : ℕ := 0
  attrs : List Attribute

/-- `SDP_SERVICE_HANDLE_BASE`. -/
def serviceHandleBase : ℕ := 0x10000

/-- The index of the next record: one more than that of the last, in a
byte. -/
def nextIndex (db : List Record) : ℕ :=
  match db.getLast? with
  | none => 0
  | some last => (last.index + 1) % 256

/-- `bt_sdp_register_service`, where the attribute that holds the handle
has it already. -/
def registerService (db : List Record) (service : Record) : Option (List Record) :=
  if ∀ last ∈ db.getLast?, last.index ≤ nextIndex db then
    some (db ++ [{ service with
      index := nextIndex db, handle := serviceHandleBase + nextIndex db }])
  else none

/-- A database that services were registered in. -/
inductive Registered : List Record → Prop
  | nil : Registered []
  | register {db db' : List Record} {service : Record} :
      Registered db → registerService db service = some db' → Registered db'

/-- What an application registers: attributes whose values are well formed
within the nesting limit. -/
def Record.Ok (rec : Record) : Prop :=
  ∀ attr ∈ rec.attrs, attr.id < 2 ^ 16 ∧ attr.val.Ok (nestLevelMax - 1)

/-! ## Data elements -/

/-- `BT_SDP_INVALID_RECORD_HANDLE`. -/
def invalidRecordHandle : Stop := .invalid 0x0002

/-- `BT_SDP_INVALID_SYNTAX`. -/
def invalidSyntax : Stop := .invalid 0x0003

/-- `BT_SDP_INVALID_PDU_SIZE`. -/
def invalidPduSize : Stop := .invalid 0x0004

/-- `BT_SDP_INVALID_CSTATE`. -/
def invalidCstate : Stop := .invalid 0x0005

/-- What takes bytes off a request. -/
abbrev Parse := StateT Bytes (Except Stop)

/-- `buf->len`. -/
def remaining : Parse ℕ := fun buf => .ok (buf.length, buf)

/-- `bt_buf_simple_pull_mem`. -/
def pull (n : ℕ) : Parse Bytes := fun buf =>
  if buf.length < n then .error (.fault .assertFailed) else .ok (buf.take n, buf.drop n)

/-- `bt_buf_simple_pull_u8`, `_be16` and `_be32`. -/
def pullBe (n : ℕ) : Parse ℕ := do
  let bs ← pull n
  pure (beNat bs)

/-- The malformed packets that the code looks for. -/
def check (ok : Bool) (stop : Stop) : Parse Unit := fun buf =>
  if ok then .ok ((), buf) else .error stop

/-- `struct bt_sdp_data_elem` of a request: its data is what follows. -/
structure ElemHdr where
  type : ℕ
  dataSize : ℕ
  totalSize : ℕ
  deriving DecidableEq, Repr

/-- The length of the size field. The shift by a negative count leaves no
bit in a byte. -/
def sizeFieldLen (type : ℕ) : ℕ := if sizeDesc type < 5 then 0 else 2 ^ (sizeDesc type - 5)

/-- `parse_data_elem`. -/
def parseDataElem : Parse ElemHdr := do
  check (1 ≤ (← remaining)) invalidSyntax
  let type ← pullBe 1
  let desc := typeDesc type
  if desc = uintUnspec ∨ desc = intUnspec ∨ desc = uuidUnspec ∨ desc = boolUnspec then
    let dataSize := 2 ^ sizeDesc type
    check (dataSize ≤ (← remaining)) invalidSyntax
    pure { type, dataSize, totalSize := dataSize + 1 }
  else if desc = textStrUnspec ∨ desc = seqUnspec ∨ desc = altUnspec ∨ desc = urlStrUnspec then
    let sizeLen := sizeFieldLen type
    check (sizeLen ≤ (← remaining)) invalidSyntax
    check (sizeLen = 1 ∨ sizeLen = 2 ∨ sizeLen = 4) invalidSyntax
    let dataSize ← pullBe sizeLen
    check (dataSize ≤ (← remaining)) invalidSyntax
    pure { type, dataSize, totalSize := dataSize + sizeLen + 1 }
  else throw invalidSyntax

/-! ## The service search pattern -/

/-- `MAX_NUM_SSP_UUID`. -/
def maxNumSspUuid : ℕ := 12

/-- `parse_service_search_pattern` once it has the pattern: its elements
are UUIDs. -/
def checkPattern : ℕ → ℕ → Parse Unit
  | 0, _ => throw (.fault .endless)
  | turns + 1, uuidCount => do
    if (← remaining) = 0 then pure ()
    else
      let elem ← parseDataElem
      check (typeDesc elem.type = uuidUnspec) invalidSyntax
      check (elem.dataSize ≤ (← remaining)) invalidSyntax
      check (elem.dataSize = 2 ∨ elem.dataSize = 4 ∨ elem.dataSize = 16) invalidSyntax
      let _ ← pull elem.dataSize
      check (uuidCount + 1 ≤ maxNumSspUuid) invalidSyntax
      checkPattern turns (uuidCount + 1)

/-- `parse_service_search_pattern`. -/
def parseServiceSearchPattern : Parse Bytes := do
  let elem ← parseDataElem
  check (typeDesc elem.type = seqUnspec ∨ typeDesc elem.type = altUnspec) invalidSyntax
  check (elem.dataSize ≤ (← remaining)) invalidSyntax
  let ssp ← pull elem.dataSize
  match checkPattern (ssp.length + 1) 0 ssp with
  | .ok _ => pure ssp
  | .error stop => throw stop

/-- `BT_UUID_128` of the Bluetooth base UUID. -/
def uuidBase : ℕ := 0x0000000000001000800000805F9B34FB

/-- A UUID of so many bytes, as `bt_uuid_cmp` compares it. -/
def uuid128 (size value : ℕ) : ℕ := if size = 16 then value else uuidBase + value * 2 ^ 96

/-- `u32 - u32`. -/
def sub32 (a b : ℕ) : ℕ := (a + 2 ^ 32 - b % 2 ^ 32) % 2 ^ 32

/-- The loop of `search_uuid` over the elements of a sequence. -/
def searchElems (search : DataElem → Except Stop (Bool × ℕ)) :
    List DataElem → ℕ → Except Stop Bool
  | [], _ => .error (.fault .outside)
  | elem :: elems, seqSize => do
    let (found, size) ← search elem
    if found then pure true
    else if sub32 seqSize size = 0 then pure false
    else searchElems search elems (sub32 seqSize size)

/-- `search_uuid`, so many levels above the deepest it looks at: whether
the UUID is found, and the size of what was searched. -/
def searchUuid (uuid : ℕ) : ℕ → DataElem → Except Stop (Bool × ℕ)
  | 0, _ => .ok (false, 0)
  | levels + 1, elem => do
    if typeDesc elem.type = uuidUnspec then
      if elem.bytes.length < elem.dataSize then throw (.fault .outside)
      if elem.dataSize = 2 ∨ elem.dataSize = 4 ∨ elem.dataSize = 16 then
        pure (uuid128 elem.dataSize (leNat (elem.bytes.take elem.dataSize)) = uuid,
          elem.totalSize)
      else throw (.fault .assertFailed)
    else if typeDesc elem.type = seqUnspec ∨ typeDesc elem.type = altUnspec then
      if ← searchElems (searchUuid uuid levels) elem.elems elem.dataSize then pure (true, 0)
      else pure (false, elem.totalSize)
    else pure (false, elem.totalSize)

/-- The loop over the attributes of a record. -/
def searchAttrs (uuid : ℕ) : List Attribute → Except Stop Bool
  | [] => .ok false
  | attr :: attrs => do
    let (found, _) ← searchUuid uuid (nestLevelMax - 1) attr.val
    if found then pure true else searchAttrs uuid attrs

/-- `service_search_pattern_matched`: one of the UUIDs is found. -/
def patternMatched (record : Record) : ℕ → Bytes → Except Stop Bool
  | 0, _ => .error (.fault .endless)
  | turns + 1, buf =>
    if buf = [] then .ok false
    else
      match parseDataElem buf with
      | .error (.invalid _) => .ok false
      | .error (.fault f) => .error (.fault f)
      | .ok (elem, buf) =>
        if typeDesc elem.type ≠ uuidUnspec ∨ buf.length < elem.dataSize then .ok false
        else if elem.dataSize = 2 ∨ elem.dataSize = 4 ∨ elem.dataSize = 16 then do
          let uuid := uuid128 elem.dataSize (beNat (buf.take elem.dataSize))
          if ← searchAttrs uuid record.attrs then pure true
          else patternMatched record turns (buf.drop elem.dataSize)
        else patternMatched record turns (buf.drop elem.dataSize)

/-- `service_search_pattern_matched` of a pattern. -/
def serviceSearchPatternMatched (ssp : Bytes) (record : Record) : Except Stop Bool :=
  patternMatched record (ssp.length + 1) ssp

/-! ## The attribute ID list -/

/-- `MAX_NUM_ATT_ID_FILTER`. -/
def maxNumAttIdFilter : ℕ := 10

/-- The loop of `get_att_search_list`. -/
def attSearchList : ℕ → ℕ → List ℕ → Parse (List ℕ)
  | 0, _, _ => throw (.fault .endless)
  | turns + 1, size, filter => do
    if size = 0 then pure filter
    else if maxNumAttIdFilter ≤ filter.length then pure filter
    else
      let elem ← parseDataElem
      check (typeDesc elem.type = uintUnspec) invalidSyntax
      check (elem.dataSize ≤ (← remaining)) invalidSyntax
      if elem.dataSize = 2 then
        let id ← pullBe 2
        attSearchList turns (sub32 size elem.totalSize) (filter ++ [0xffff0000 + id])
      else if elem.dataSize = 4 then
        let range ← pullBe 4
        attSearchList turns (sub32 size elem.totalSize) (filter ++ [range])
      else attSearchList turns (sub32 size elem.totalSize) filter

/-- `get_att_search_list`. -/
def getAttSearchList : Parse (List ℕ) := do
  let elem ← parseDataElem
  attSearchList ((← remaining) + 1) elem.dataSize []

end Sdp

end OpenBlue
