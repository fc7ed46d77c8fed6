import OpenBlue.Common.Bytes
import OpenBlue.Mesh.Model.Transport
/-!
# Mesh — virtual addresses

The model of `va.c`: the table of Label UUIDs with their reference counts,
how a label is added and deleted, and how the labels of an address are
gone through, with `sdu_try_decrypt`, which does so for a received SDU.
What the crypto module gives `bt_mesh_virtual_addr` is an input of the
call, so that it can fail at every call. A pointer to the UUID of an entry
is the place of the entry; persistent storage is left out, but for the
flag that asks for it.
-/

namespace OpenBlue

namespace Mesh

/-- A Label UUID. -/
abbrev Label := { uuid : Bytes // uuid.length = 16 }

/-- A Label UUID of zeros, as static memory has it. -/
def Label.zero : Label := ⟨List.replicate 16 0, List.length_replicate⟩

/-- `struct bt_mesh_va`. -/
structure Va where
  ref : BitVec 15 := 0
  changed : Bool := false
  addr : ℕ := 0
  uuid : Label := .zero
  deriving DecidableEq, Repr

/-- The codes `bt_mesh_va_add` and `bt_mesh_va_del` answer with. -/
inductive VaStatus
  | success
  | insuffResources
  | unspecified
  | cannotRemove
  deriving DecidableEq, Repr

/-- What a call leaves in `virtual_addrs`, its answer, and the place of
`*entry` where that is written. -/
structure VaCall where
  vas : List Va
  status : VaStatus := .success
  entry : Option ℕ := none

/-- `virtual_addrs` at start, with `CONFIG_BT_MESH_LABEL_COUNT` entries. -/
def vaInit (labelCount : ℕ) : List Va := List.replicate labelCount {}

/-- `bt_mesh_virtual_addr`, from what `bt_mesh_s1_str` and the CMAC give,
`none` where one of them fails. -/
def btMeshVirtualAddr (cmac : Option Label) : Option ℕ :=
  cmac.map fun tmp => (beNat (tmp.val.drop 14) &&& 0x3fff) ||| 0x8000

/-- `va_store`. -/
def vaStore (va : Va) : Va := { va with changed := true }

/-! ## Adding and deleting -/

/-- How the loop of `bt_mesh_va_add` ends: at an entry with the label, or
with what `va` is. -/
inductive VaScan
  | found (i : ℕ) (va : Va)
  | free (i : Option ℕ)
  deriving DecidableEq, Repr

/-- The loop of `bt_mesh_va_add` from entry `i` on. -/
def vaScan (uuid : Label) : ℕ → Option ℕ → List Va → VaScan
  | _, free, [] => .free free
  | i, free, va :: vas =>
    if va.ref = 0 then vaScan uuid (i + 1) (if free = none then some i else free) vas
    else if uuid = va.uuid then .found i va
    else vaScan uuid (i + 1) free vas

/-- `bt_mesh_va_add`. -/
def btMeshVaAdd (cmac : Option Label) (uuid : Label) (vas : List Va) : VaCall :=
  match vaScan uuid 0 none vas with
  | .found i va => { vas := vas.set i (vaStore { va with ref := va.ref + 1 }), entry := some i }
  | .free none => { vas := vas, status := .insuffResources }
  | .free (some i) =>
    let va := { vas.getD i {} with uuid := uuid }
    match btMeshVirtualAddr cmac with
    | none => { vas := vas.set i { va with addr := 0 }, status := .unspecified }
    | some addr => { vas := vas.set i (vaStore { va with addr := addr, ref := 1 }), entry := some i }

/-- `bt_mesh_va_del`; the pointer is `none` where it is to no entry. -/
def btMeshVaDel (uuid : Option ℕ) (vas : List Va) : VaCall :=
  match uuid with
  | none => { vas := vas, status := .cannotRemove }
  | some i =>
    match vas[i]? with
    | none => { vas := vas, status := .cannotRemove }
    | some va =>
      if va.ref = 0 then { vas := vas, status := .cannotRemove }
      else { vas := vas.set i (vaStore { va with ref := va.ref - 1 }) }

/-! ## Going through the labels of an address -/

/-- What `bt_mesh_va_uuid_get` returns a pointer into: the place of the
entry, and the entry, whose address is `*retaddr`. -/
structure VaFound where
  slot : ℕ
  va : Va
  deriving DecidableEq, Repr

/-- The condition of `bt_mesh_va_uuid_get` on an entry. -/
def Va.HasAddr (addr : ℕ) (va : Va) : Prop := va.ref ≠ 0 ∧ (va.addr = addr ∨ addr = 0)

instance (addr : ℕ) : DecidablePred (Va.HasAddr addr) := fun va =>
  inferInstanceAs (Decidable (va.ref ≠ 0 ∧ (va.addr = addr ∨ addr = 0)))

/-- The loop of `bt_mesh_va_uuid_get` from entry `i` on. -/
def vaUuidGetLoop (addr : ℕ) : Option ℕ → ℕ → List Va → Option VaFound
  | _, _, [] => none
  | uuid, i, va :: vas =>
    if va.HasAddr addr then
      match uuid with
      | none => some ⟨i, va⟩
      | some j => vaUuidGetLoop addr (if j = i then none else some j) (i + 1) vas
    else vaUuidGetLoop addr uuid (i + 1) vas

/-- `bt_mesh_va_uuid_get`. -/
def btMeshVaUuidGet (addr : ℕ) (uuid : Option ℕ) (vas : List Va) : Option VaFound :=
  match uuid with
  | none => vaUuidGetLoop addr none 0 vas
  | some i => vaUuidGetLoop addr (some i) i (vas.drop i)

/-- The pointer that `bt_mesh_va_uuid_get` returns. -/
def vaNext (addr : ℕ) (vas : List Va) (uuid : Option ℕ) : Option ℕ :=
  (btMeshVaUuidGet addr uuid vas).map VaFound.slot

/-- The loop of `sdu_try_decrypt`, `none` where the fuel is used up.
`decrypt` is `bt_mesh_app_decrypt` of the SDU with a label as the
additional data; what is returned is the message, with `rx->ctx.uuid`. -/
def sduTryDecrypt {α : Type*} (decrypt : Option Label → Except Err α) (recvDst : ℕ)
    (vas : List Va) : ℕ → Option ℕ → Option (Except Err (α × Option ℕ))
  | 0, _ => none
  | fuel + 1, ad =>
    if isVirtual recvDst then
      match btMeshVaUuidGet recvDst ad vas with
      | none => some (.error .noent)
      | some found =>
        match decrypt (some found.va.uuid) with
        | .ok sdu => some (.ok (sdu, some found.slot))
        | .error _ => sduTryDecrypt decrypt recvDst vas fuel (some found.slot)
    else some ((decrypt none).map (·, none))

/-! ## Runs -/

/-- A call that changes the table. -/
inductive VaEvent
  | add (uuid : Label) (cmac : Option Label)
  | del (uuid : Option ℕ)
  deriving DecidableEq, Repr

/-- The call. -/
def vaCall (vas : List Va) : VaEvent → VaCall
  | .add uuid cmac => btMeshVaAdd cmac uuid vas
  | .del uuid => btMeshVaDel uuid vas

/-- The table after a call. -/
def vaStep (vas : List Va) (e : VaEvent) : List Va := (vaCall vas e).vas

/-- A reference taken to a label, or given back. -/
inductive VaRef
  | added (uuid : Label)
  | deleted (uuid : Label)
  deriving DecidableEq, Repr

/-- What a call that answers with success has done. -/
def vaBooked (vas : List Va) (e : VaEvent) : List VaRef :=
  if (vaCall vas e).status ≠ .success then []
  else
    match e with
    | .add uuid _ => [.added uuid]
    | .del none => []
    | .del (some i) => (vas[i]?.map fun va => VaRef.deleted va.uuid).toList

end Mesh

end OpenBlue
