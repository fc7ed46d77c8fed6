import OpenBlue.Gatt.Model.Ccc
import OpenBlue.Gatt.Model.Db
/-!
# GATT — the values of CCCs in storage

The model of `ccc_save` and `ccc_load` of `gatt.c`, which take what a peer
has in the CCCs of the database to its record and back. An attribute says
with its data whether it is a CCC that the host manages; the entries of a
CCC are those at the handle of its attribute.
-/

namespace OpenBlue

namespace Gatt

open Host (Addr)

/-- `struct ccc_store`. -/
structure CccStore where
  handle : UInt16
  value : ℕ
  deriving DecidableEq

/-- `struct addr_with_id`. -/
structure AddrWithId where
  addr : Addr
  id : ℕ

/-- The entries of the CCCs. -/
abbrev CccMem := UInt16 → List CccCfg

/-- `ccc_find_cfg`. -/
def cccFindCfg (cfg : List CccCfg) (peer : AddrWithId) : Option ℕ :=
  cfg.findIdx? fun e => e.id == peer.id && e.peer == peer.addr

/-- `ccc_save`; at most `CCC_STORE_MAX` values are stored. -/
def cccSave (storeMax : ℕ) (peer : AddrWithId) (mem : CccMem) : AttrFunc Bool (List CccStore) :=
  fun attr handle save =>
    if !attr.data then (.continue, save)
    else
      match cccFindCfg (mem handle) peer with
      | none => (.continue, save)
      | some i =>
        if storeMax ≤ save.length then (.stop, save)
        else (.continue, save ++ [⟨handle, ((mem handle).getD i {}).value⟩])

/-- The record `gatt_store_ccc` stores. -/
def Db.storeCcc (d : Db Bool) (storeMax : ℕ) (peer : AddrWithId) (mem : CccMem) :
    List CccStore :=
  d.foreachAttr 1 0xffff (cccSave storeMax peer mem) []

/-- `struct ccc_load`, and the entries it works on: what is left of the
record, if there is one. -/
structure CccLoad where
  entry : Option (List CccStore)
  mem : CccMem

/-- `ccc_clear`. -/
def cccClear (cfg : List CccCfg) (peer : AddrWithId) : List CccCfg :=
  match cccFindCfg cfg peer with
  | none => cfg
  | some i => cfg.set i {}

/-- The value goes to the entry of the peer, or to a free one. -/
def cccRestore (cfg : List CccCfg) (peer : AddrWithId) (value : ℕ) : List CccCfg :=
  match cccFindCfg cfg peer with
  | some i => cfg.modify i ({ · with value })
  | none =>
    match cccFindCfg cfg ⟨.any, 0⟩ with
    | none => cfg
    | some i => cfg.set i ⟨peer.id, peer.addr, value⟩

/-- `ccc_load`. -/
def cccLoad (peer : AddrWithId) : AttrFunc Bool CccLoad := fun attr handle load =>
  if !attr.data then (.continue, load)
  else
    match load.entry with
    | none => (.continue, { load with
        mem := Function.update load.mem handle (cccClear (load.mem handle) peer) })
    | some [] => (.stop, load)
    | some (e :: rest) =>
      if e.handle ≠ handle ∧ ¬ e.handle < handle then (.continue, load)
      else
        -- an entry that is left behind is stepped over in place of one to restore
        let mem := if e.handle = handle then
            Function.update load.mem handle (cccRestore (load.mem handle) peer e.value)
          else load.mem
        (if rest = [] then .stop else .continue, ⟨some rest, mem⟩)

/-- The entries after `ccc_set` has loaded a record; an empty one is not
in storage. -/
def Db.loadCcc (d : Db Bool) (peer : AddrWithId) (record : List CccStore) (mem : CccMem) :
    CccMem :=
  (d.foreachAttr 1 0xffff (cccLoad peer) ⟨if record = [] then none else some record, mem⟩).mem

end Gatt

end OpenBlue
