import OpenBlue.Mesh.Model.Subnet
/-!
# Mesh — application keys

The model of the table of `app_keys.c`: adding, updating and deleting an
application key, which of its two keys a message is sent with, and what
the module does at the events of a subnet. Persistent storage is left out,
and so are the events of the application keys themselves, which no table
depends on.
-/

namespace OpenBlue

namespace KeyTables

/-- `struct bt_mesh_app_cred`. -/
structure AppCred where
  id : UInt8 := 0
  val : Key := none
  deriving DecidableEq, Repr

/-- `struct app_key`, with `keys[0]` and `keys[1]`. -/
structure AppKey where
  netIdx : ℕ
  appIdx : ℕ
  updated : Bool := false
  old : AppCred := {}
  new : AppCred := {}
  deriving DecidableEq, Repr

/-- The entry is in use. -/
def AppKey.Used (app : AppKey) : Prop := app.appIdx ≠ keyUnused

instance (app : AppKey) : Decidable app.Used :=
  inferInstanceAs (Decidable (app.appIdx ≠ keyUnused))

/-- An entry that is not in use, as at start. -/
def freeApp : AppKey := { netIdx := keyUnused, appIdx := keyUnused }

/-- How the calls of the crypto module go: `bt_mesh_app_id`, the AID it
gives, and `bt_mesh_key_import`. -/
structure AppDerivation where
  idOk : Bool
  aid : UInt8
  importOk : Bool
  deriving DecidableEq, Repr

/-- The table a call leaves, and what it answers. -/
structure AppsCall where
  apps : List AppKey
  status : Status := .success

/-- `app_get`. -/
def appGet (apps : List AppKey) (appIdx : ℕ) : Option ℕ := slotOf AppKey.appIdx appIdx apps

/-- `app_key_alloc`. -/
def appKeyAlloc (apps : List AppKey) (appIdx : ℕ) : Option ℕ :=
  slotFor AppKey.appIdx keyUnused appIdx 0 none apps

/-- `app_key_del`. -/
def AppKey.del (app : AppKey) : AppKey :=
  { app with netIdx := keyUnused, appIdx := keyUnused, old := {}, new := {} }

/-- `app_key_revoke`. -/
def AppKey.revoke (app : AppKey) : AppKey :=
  if app.updated then { app with old := app.new, new := {}, updated := false } else app

/-- `bt_mesh_key_import` into a slot whose AID is set. -/
def AppDerivation.cred (d : AppDerivation) (raw : Bytes) : AppCred where
  id := d.aid
  val := if d.importOk then some raw else none

/-- `bt_mesh_app_key_add`. The entry is in use before its key is
imported. -/
def appKeyAdd (t : List Subnet) (d : AppDerivation) (appIdx netIdx : ℕ) (raw : Bytes)
    (apps : List AppKey) : AppsCall :=
  if subnetGet t netIdx = none then { apps := apps, status := .invalidNetkey }
  else
    match appKeyAlloc apps appIdx with
    | none => { apps := apps, status := .insuffResources }
    | some i =>
      let app := apps.getD i freeApp
      if app.appIdx = appIdx then
        if app.netIdx ≠ netIdx then { apps := apps, status := .invalidNetkey }
        else
          { apps := apps
            status := if keyDiffers raw app.old.val then .idxAlreadyStored else .success }
      else if ¬ d.idOk then { apps := apps, status := .cannotSet }
      else
        { apps := apps.set i
            { app with netIdx := netIdx, appIdx := appIdx, updated := false, old := d.cred raw }
          status := if d.importOk then .success else .cannotSet }

/-- `bt_mesh_app_key_update`. -/
def appKeyUpdate (t : List Subnet) (d : AppDerivation) (appIdx netIdx : ℕ) (raw : Bytes)
    (apps : List AppKey) : AppsCall :=
  match appGet apps appIdx with
  | none => { apps := apps, status := .invalidAppkey }
  | some i =>
    let app := apps.getD i freeApp
    if netIdx ≠ keyUnused ∧ app.netIdx ≠ netIdx then { apps := apps, status := .invalidBinding }
    else
      match subnetGet t app.netIdx with
      | none => { apps := apps, status := .invalidNetkey }
      | some j =>
        if (t.getD j freeSubnet).krPhase ≠ krPhase1 then { apps := apps, status := .cannotUpdate }
        else if app.updated then
          { apps := apps
            status := if keyDiffers raw app.new.val then .idxAlreadyStored else .success }
        else if ¬ d.idOk then { apps := apps, status := .cannotUpdate }
        else
          { apps := apps.set i { app with updated := true, new := d.cred raw }
            status := if d.importOk then .success else .cannotUpdate }

/-- `bt_mesh_app_key_del`. -/
def appKeyDel (t : List Subnet) (appIdx netIdx : ℕ) (apps : List AppKey) : AppsCall :=
  if netIdx ≠ keyUnused ∧ subnetGet t netIdx = none then { apps := apps, status := .invalidNetkey }
  else
    match appGet apps appIdx with
    | none => { apps := apps }
    | some i =>
      let app := apps.getD i freeApp
      if netIdx ≠ keyUnused ∧ netIdx ≠ app.netIdx then { apps := apps, status := .invalidBinding }
      else { apps := apps.set i app.del }

/-- `bt_mesh_keys_resolve` for an application key: the key a message is
sent with. -/
def keysResolve (t : List Subnet) (apps : List AppKey) (appIdx : ℕ) : Option AppCred := do
  let i ← appGet apps appIdx
  let app := apps.getD i freeApp
  let j ← subnetGet t app.netIdx
  if (t.getD j freeSubnet).krPhase = krPhase2 ∧ app.updated then some app.new else some app.old

/-- `subnet_evt` of `app_keys.c`. -/
def appSubnetEvt (netIdx : ℕ) (evt : KeyEvt) (apps : List AppKey) : List AppKey :=
  match evt with
  | .updated | .added | .swapped => apps
  | .deleted => apps.map fun app => if app.Used ∧ app.netIdx = netIdx then app.del else app
  | .revoked => apps.map fun app => if app.Used ∧ app.netIdx = netIdx then app.revoke else app

/-- The calls that change the application keys. -/
inductive AppEvent
  /-- `bt_mesh_app_key_add`. -/
  | add (appIdx netIdx : ℕ) (raw : Bytes) (d : AppDerivation)
  /-- `bt_mesh_app_key_update`. -/
  | update (appIdx netIdx : ℕ) (raw : Bytes) (d : AppDerivation)
  /-- `bt_mesh_app_key_del`. -/
  | del (appIdx netIdx : ℕ)
  deriving DecidableEq, Repr

/-- One call. -/
def appCall (t : List Subnet) (apps : List AppKey) : AppEvent → AppsCall
  | .add appIdx netIdx raw d => appKeyAdd t d appIdx netIdx raw apps
  | .update appIdx netIdx raw d => appKeyUpdate t d appIdx netIdx raw apps
  | .del appIdx netIdx => appKeyDel t appIdx netIdx apps

end KeyTables

end OpenBlue
