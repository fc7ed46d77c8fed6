import Mathlib.Algebra.Order.Ring.Int
import Mathlib.Data.List.Basic
/-!
# GATT — the attribute database

The model of the registered services in `gatt.c`: the static services the
linker collects, the dynamic ones `bt_gatt_service_register` and
`bt_gatt_service_unregister` link and unlink, and the iterator
`bt_gatt_foreach_attr_type` through which every lookup goes. What an
attribute holds besides its UUID and handle is a parameter.
-/

namespace OpenBlue

namespace Gatt

/-- `struct bt_uuid`, with the value of its type. -/
inductive Uuid
  | u16 (val : UInt16)
  | u32 (val : UInt32)
  | u128 (val : BitVec 128)
  deriving DecidableEq, Repr

/-- `uuid128_base`. -/
def uuid128Base : BitVec 128 := 0x0000000000001000800000805F9B34FB#128

/-- `uuid_to_uuid128`: a short value goes into the top four bytes, which
are zero in the base. -/
def Uuid.toUuid128 : Uuid → BitVec 128
  | .u16 v => uuid128Base ||| (v.toBitVec.setWidth 128 <<< 96)
  | .u32 v => uuid128Base ||| (v.toBitVec.setWidth 128 <<< 96)
  | .u128 v => v

/-- `bt_uuid_cmp` finds no difference. -/
def Uuid.same : Uuid → Uuid → Bool
  | .u16 u, .u16 v => u == v
  | .u32 u, .u32 v => u == v
  | .u128 u, .u128 v => u == v
  | u, v => u.toUuid128 == v.toUuid128

/-- `struct bt_gatt_attr`. -/
structure Attr (α : Type*) where
  uuid : Uuid
  handle : UInt16
  autoAssignedHandle : Bool
  data : α
  deriving DecidableEq, Repr

/-- What an attribute callback returns. -/
inductive Iter
  | stop
  | continue
  deriving DecidableEq, Repr

/-- The `bt_gatt_service_static` section, as `STRUCT_SECTION_FOREACH` goes
through it: empty with the definition in `utils.h`. Its attributes take the
handles from 1 on, which have 16 bits. -/
structure Statics (α : Type*) where
  svcs : List (List (Attr α))
  fits : (svcs.map List.length).sum < 2 ^ 16

/-- The address of a `struct bt_gatt_service`. -/
abbrev Svc := ℕ

/-- The static services, the memory of the application's services, and
the list `db` that links the registered ones. -/
structure Db (α : Type*) where
  statics : Statics α
  attrs : Svc → List (Attr α)
  db : List Svc

variable {α β σ : Type*}

/-- `last_static_handle`, as `bt_gatt_service_init` sums it up. -/
def Statics.lastStaticHandle (st : Statics α) : UInt16 :=
  UInt16.ofNat (st.svcs.map List.length).sum

/-! ## The iterator

It filters by UUID and by the pointer `attr_data`, which the `user_data` of
an attribute is compared with: a value of any type with equality, `NULL`
being `none`, and `userData` reads the field. The number of matches left is
a counter of 16 bits that the static and the dynamic half share.
-/

/-- A callback over attributes and their handles, with the data it is
given. -/
abbrev AttrFunc (α σ : Type*) := Attr α → UInt16 → σ → Iter × σ

/-- The attributes of one service with their handles, the first of them
given. -/
def number : UInt16 → List (Attr α) → List (Attr α × UInt16)
  | _, [] => []
  | handle, attr :: rest => (attr, handle) :: number (handle + 1) rest

/-- The attributes of one service with the handles they carry. -/
def carried (attrs : List (Attr α)) : List (Attr α × UInt16) :=
  attrs.map fun attr => (attr, attr.handle)

/-- `svc->attrs[0].handle`; a service has attributes. -/
def firstHandle (attrs : List (Attr α)) : UInt16 := (attrs.head?.map Attr.handle).getD 0

/-- `svc->attrs[svc->attr_count - 1].handle`. -/
def lastHandle (attrs : List (Attr α)) : UInt16 := (attrs.getLast?.map Attr.handle).getD 0

/-- The attributes of the registered services, in the order of the list. -/
def Db.dynamics (d : Db α) : List (List (Attr α)) := d.db.map d.attrs

section Foreach

variable [DecidableEq β] (userData : α → β) (startHandle endHandle : UInt16) (uuid : Option Uuid)
  (attrData : Option β) (func : AttrFunc α σ)

/-- `gatt_foreach_iter`: the callback's verdict, the matches left and the
callback's data. -/
def gattForeachIter (attr : Attr α) (handle numMatches : UInt16) (s : σ) : Iter × UInt16 × σ :=
  if endHandle < handle then (.stop, numMatches, s)
  else if handle < startHandle then (.continue, numMatches, s)
  else if uuid.any (fun u => !u.same attr.uuid) then (.continue, numMatches, s)
  else if attrData.any (fun data => data ≠ userData attr.data) then (.continue, numMatches, s)
  else
    let r := func attr handle s
    (if numMatches - 1 = 0 then .stop else r.1, numMatches - 1, r.2)

/-- The loop over the attributes of one service. -/
def gattForeachAttrs : List (Attr α × UInt16) → UInt16 → σ → Iter × UInt16 × σ
  | [], numMatches, s => (.continue, numMatches, s)
  | (attr, handle) :: rest, numMatches, s =>
    match gattForeachIter userData startHandle endHandle uuid attrData func attr handle numMatches
      s with
    | (.stop, numMatches, s) => (.stop, numMatches, s)
    | (.continue, numMatches, s) => gattForeachAttrs rest numMatches s

/-- The loop over the static services; `handle` is the first handle of
the next. -/
def foreachAttrTypeStatic : List (List (Attr α)) → UInt16 → UInt16 → σ → Iter × UInt16 × σ
  | [], _, numMatches, s => (.continue, numMatches, s)
  | svc :: rest, handle, numMatches, s =>
    if handle.toNat + svc.length < startHandle.toNat then
      foreachAttrTypeStatic rest (handle + UInt16.ofNat svc.length) numMatches s
    else
      match gattForeachAttrs userData startHandle endHandle uuid attrData func (number handle svc)
        numMatches s with
      | (.stop, numMatches, s) => (.stop, numMatches, s)
      | (.continue, numMatches, s) =>
        foreachAttrTypeStatic rest (handle + UInt16.ofNat svc.length) numMatches s

/-- `foreach_attr_type_dyndb`: a service is left out when the next one
starts no later than the range. -/
def foreachAttrTypeDyndb : List (List (Attr α)) → UInt16 → σ → σ
  | [], _, s => s
  | svc :: rest, numMatches, s =>
    if rest.head?.any (fun next => firstHandle next ≤ startHandle) then
      foreachAttrTypeDyndb rest numMatches s
    else
      match gattForeachAttrs userData startHandle endHandle uuid attrData func (carried svc)
        numMatches s with
      | (.stop, _, s) => s
      | (.continue, numMatches, s) => foreachAttrTypeDyndb rest numMatches s

/-- `bt_gatt_foreach_attr_type`. -/
def Db.btGattForeachAttrType (d : Db α) (numMatches : UInt16) (s : σ) : σ :=
  let numMatches := if numMatches = 0 then 0xffff else numMatches
  if startHandle ≤ d.statics.lastStaticHandle then
    match foreachAttrTypeStatic userData startHandle endHandle uuid attrData func d.statics.svcs 1
      numMatches s with
    | (.stop, _, s) => s
    | (.continue, numMatches, s) =>
      foreachAttrTypeDyndb userData startHandle endHandle uuid attrData func d.dynamics numMatches s
  else
    foreachAttrTypeDyndb userData startHandle endHandle uuid attrData func d.dynamics numMatches s

end Foreach

/-- `bt_gatt_foreach_attr_type` with no `attr_data`. -/
def Db.foreachAttrType (startHandle endHandle : UInt16) (uuid : Option Uuid) (func : AttrFunc α σ)
    (d : Db α) (numMatches : UInt16) (s : σ) : σ :=
  d.btGattForeachAttrType (fun _ => ()) startHandle endHandle uuid none func numMatches s

/-- `bt_gatt_foreach_attr`. -/
def Db.foreachAttr (startHandle endHandle : UInt16) (func : AttrFunc α σ) (d : Db α) (s : σ) : σ :=
  d.foreachAttrType startHandle endHandle none func 0 s

/-- `find_attr`, with the callback `found_attr`. -/
def Db.findAttr (d : Db α) (handle : UInt16) : Option (Attr α) :=
  d.foreachAttr handle handle (fun attr _ _ => (.stop, some attr)) none

/-! ## Registration -/

/-- The error codes a registration can return. -/
inductive Errno
  | einval
  | ealready
  | enoent
  deriving DecidableEq, Repr

/-- The memory of one service is written. -/
def Db.put (d : Db α) (svc : Svc) (attrs : List (Attr α)) : Db α :=
  { d with attrs := Function.update d.attrs svc attrs }

/-- The loop of `gatt_register` that populates the handles: `handle` is
the running counter, `done` the attributes already populated. The loop
writes to the service's memory as it goes, also where it fails. -/
def Db.populate (d : Db α) (svc : Svc) :
    UInt16 → List (Attr α) → List (Attr α) → Db α × Option Errno
  | _, done, [] => (d.put svc done, none)
  | handle, done, attr :: rest =>
    let attr := { attr with autoAssignedHandle := false }
    if attr.handle = 0 then
      let attr := { attr with handle := handle + 1, autoAssignedHandle := true }
      d.populate svc (handle + 1) (done ++ [attr]) rest
    else if handle < attr.handle then d.populate svc attr.handle (done ++ [attr]) rest
    else if ((d.put svc (done ++ attr :: rest)).findAttr attr.handle).isSome then
      (d.put svc (done ++ attr :: rest), some .einval)
    else d.populate svc handle (done ++ [attr]) rest

/-- The walk of `gatt_insert` to the first service that starts later than
`svc`. A walk that meets none links `svc` nowhere. -/
def insertBefore (attrs : Svc → List (Attr α)) (svc : Svc) : List Svc → List Svc
  | [] => []
  | tmp :: rest =>
    if firstHandle (attrs svc) < firstHandle (attrs tmp) then svc :: tmp :: rest
    else tmp :: insertBefore attrs svc rest

/-- `gatt_insert`. -/
def Db.insert (d : Db α) (svc : Svc) (lastHandle : UInt16) : Db α :=
  if lastHandle = 0 ∨ lastHandle < firstHandle (d.attrs svc) then { d with db := d.db ++ [svc] }
  else { d with db := insertBefore d.attrs svc d.db }

/-- The last handle of the database, from which `gatt_register` counts
on: that of the last service in the list. -/
def Db.lastDbHandle (d : Db α) : UInt16 :=
  match d.db.getLast? with
  | none => d.statics.lastStaticHandle
  | some last => lastHandle (d.attrs last)

/-- `gatt_register`. -/
def Db.gattRegister (d : Db α) (svc : Svc) : Db α × Option Errno :=
  let last := if d.db = [] then 0 else d.lastDbHandle
  match d.populate svc d.lastDbHandle [] (d.attrs svc) with
  | (d, some err) => (d, some err)
  | (d, none) => (d.insert svc last, none)

/-- `BT_UUID_GAP` and `BT_UUID_GATT`. -/
def uuidGap : Uuid := .u16 0x1800

def uuidGatt : Uuid := .u16 0x1801

/-- What `bt_gatt_service_register` tests of the stack:
`CONFIG_BT_SETTINGS`, `GATT_INITIALIZED` and `SC_LOAD`. -/
structure Stage where
  settings : Bool
  initialized : Bool
  scLoad : Bool
  deriving DecidableEq, Repr

/-- `bt_gatt_service_register`. -/
def Db.register (d : Db α) (stage : Stage) (svc : Svc) : Db α × Option Errno :=
  if stage.settings ∧ stage.initialized ∧ ¬ stage.scLoad then (d, some .einval)
  else if (d.attrs svc).head?.any fun attr =>
      attr.uuid.same uuidGap || attr.uuid.same uuidGatt then
    (d, some .ealready)
  else d.gattRegister svc

/-- `gatt_unregister` of one attribute: a handle the stack assigned is
taken back. -/
def Attr.release (attr : Attr α) : Attr α :=
  if attr.autoAssignedHandle then { attr with handle := 0, autoAssignedHandle := false }
  else attr

/-- `bt_gatt_service_unregister`. -/
def Db.unregister (d : Db α) (svc : Svc) : Db α × Option Errno :=
  if svc ∈ d.db then
    ({ d with db := d.db.erase svc }.put svc ((d.attrs svc).map Attr.release), none)
  else (d, some .enoent)

/-! ## Runs -/

/-- What happens to the database: the application fills in a service it
owns, registers one, unregisters one. -/
inductive Event (α : Type*)
  | fill (svc : Svc) (attrs : List (Attr α))
  | register (stage : Stage) (svc : Svc)
  | unregister (svc : Svc)
  deriving Repr

/-- One event, and what the call returns. -/
def Db.exec (d : Db α) : Event α → Db α × Option Errno
  | .fill svc attrs => (d.put svc attrs, none)
  | .register stage svc => d.register stage svc
  | .unregister svc => d.unregister svc

/-- The database after an event. -/
def Db.step (d : Db α) (e : Event α) : Db α := (d.exec e).1

/-- What the calls return, each with its event. -/
def Db.emit (d : Db α) (e : Event α) : List (Event α × Option Errno) := [(e, (d.exec e).2)]

/-- What the callers keep to: a service in use is not written to, and a
service to register has attributes, which `bt_gatt_service_register`
asserts. -/
def Db.enabled (d : Db α) : Event α → Prop
  | .fill svc _ => svc ∉ d.db
  | .register _ svc => d.attrs svc ≠ []
  | .unregister _ => True

instance (d : Db α) : DecidablePred d.enabled
  | .fill svc _ => inferInstanceAs (Decidable (svc ∉ d.db))
  | .register _ svc => inferInstanceAs (Decidable (d.attrs svc ≠ []))
  | .unregister _ => .isTrue trivial

/-- The database before the first registration. -/
def Db.init (statics : Statics α) : Db α := { statics, attrs := fun _ => [], db := [] }

end Gatt

end OpenBlue
