import OpenBlue.Common.KeyedTable
/-!
# Mesh — subnets and their key refresh

The model of the subnet table of `subnet.c`: adding, updating and deleting
a subnet, and the key refresh procedure with its two causes, the phase set
by a configuration message and the flags of a beacon. What a subnet's keys
are derived to is a parameter; a derivation that fails does so after some
of its writes. Persistent storage, beacons and the node identity are left
out.
-/

namespace OpenBlue

namespace KeyTables

/-- Bytes. -/
abbrev Bytes := List UInt8

/-- `BT_MESH_KEY_UNUSED`. -/
def keyUnused : ℕ := 0xffff

/-! ## Keys -/

/-- `struct bt_mesh_key`: the key that was imported, where there is one. -/
abbrev Key := Option Bytes

/-- `bt_mesh_key_compare` finds a difference, or cannot read the key. -/
def keyDiffers (raw : Bytes) (key : Key) : Bool := key ≠ some raw

/-- `struct bt_mesh_subnet_keys`. -/
structure SubnetKeys where
  valid : Bool := false
  net : Key := none
  nid : UInt8 := 0
  enc : Key := none
  privacy : Key := none
  netId : Bytes := []
  identity : Key := none
  beacon : Key := none
  privBeacon : Key := none
  deriving DecidableEq, Repr

/-- What `bt_mesh_k2`, `bt_mesh_k3` and the others derive from a network
key. -/
structure Kdf where
  nid : Bytes → UInt8
  enc : Bytes → Bytes
  privacy : Bytes → Bytes
  netId : Bytes → Bytes
  identity : Bytes → Bytes
  beacon : Bytes → Bytes
  privBeacon : Bytes → Bytes

/-- The build options that subnets read. -/
structure KeysCfg where
  /-- `CONFIG_BT_MESH_GATT_PROXY`. -/
  gattProxy : Bool := false
  /-- `CONFIG_BT_MESH_PRIV_BEACONS`. -/
  privBeacons : Bool := false
  kdf : Kdf

/-- One step of a derivation: what it writes, and the field an import that
fails leaves without a key. -/
structure KeyWrite where
  good : SubnetKeys → SubnetKeys
  cleared : SubnetKeys → SubnetKeys

/-- The steps of `net_keys_create`, in order. -/
def keyWrites (cfg : KeysCfg) (raw : Bytes) : List KeyWrite :=
  [⟨fun k => { k with nid := cfg.kdf.nid raw }, id⟩,
   ⟨fun k => { k with enc := some (cfg.kdf.enc raw) }, fun k => { k with enc := none }⟩,
   ⟨fun k => { k with privacy := some (cfg.kdf.privacy raw) },
     fun k => { k with privacy := none }⟩,
   ⟨fun k => { k with net := some raw }, fun k => { k with net := none }⟩,
   ⟨fun k => { k with netId := cfg.kdf.netId raw }, id⟩] ++
  (if cfg.gattProxy then
    [⟨fun k => { k with identity := some (cfg.kdf.identity raw) },
      fun k => { k with identity := none }⟩] else []) ++
  [⟨fun k => { k with beacon := some (cfg.kdf.beacon raw) }, fun k => { k with beacon := none }⟩] ++
  (if cfg.privBeacons then
    [⟨fun k => { k with privBeacon := some (cfg.kdf.privBeacon raw) },
      fun k => { k with privBeacon := none }⟩] else [])

/-- How a derivation goes: it fails after so many steps, if there are as
many, and the step that fails may have cleared what it was to write. -/
structure Derivation where
  steps : ℕ
  cleared : Bool
  deriving DecidableEq, Repr

/-- The steps done until one fails; at the end the slot is marked valid. -/
def runWrites (d : Derivation) : ℕ → List KeyWrite → SubnetKeys → SubnetKeys × Bool
  | _, [], k => ({ k with valid := true }, true)
  | done, w :: ws, k =>
    if done = d.steps then (if d.cleared then w.cleared k else k, false)
    else runWrites d (done + 1) ws (w.good k)

/-- `net_keys_create`, with the import; the answer says whether it
succeeded. -/
def netKeysCreate (cfg : KeysCfg) (d : Derivation) (keys : SubnetKeys) (raw : Bytes) :
    SubnetKeys × Bool := runWrites d 0 (keyWrites cfg raw) keys

/-! ## Subnets -/

/-- `BT_MESH_KR_NORMAL`. -/
def krNormal : ℕ := 0

/-- `BT_MESH_KR_PHASE_1`. -/
def krPhase1 : ℕ := 1

/-- `BT_MESH_KR_PHASE_2`. -/
def krPhase2 : ℕ := 2

/-- `BT_MESH_KR_PHASE_3`. -/
def krPhase3 : ℕ := 3

/-- `struct bt_mesh_subnet`, with `keys[0]` and `keys[1]`. -/
structure Subnet where
  netIdx : ℕ
  krPhase : ℕ := krNormal
  old : SubnetKeys := {}
  new : SubnetKeys := {}
  deriving DecidableEq, Repr

/-- The entry is in use. -/
def Subnet.Used (sub : Subnet) : Prop := sub.netIdx ≠ keyUnused

instance (sub : Subnet) : Decidable sub.Used :=
  inferInstanceAs (Decidable (sub.netIdx ≠ keyUnused))

/-- The slot `SUBNET_KEY_TX_IDX` names. -/
def Subnet.txKeys (sub : Subnet) : SubnetKeys :=
  if sub.krPhase = krPhase2 then sub.new else sub.old

/-- An entry that is not in use: as at start, or after `memset`. -/
def freeSubnet : Subnet := { netIdx := keyUnused }

/-- `enum bt_mesh_key_evt`. -/
inductive KeyEvt
  | added
  | deleted
  | updated
  | swapped
  | revoked
  deriving DecidableEq, Repr

/-- What a call on the tables answers. -/
inductive Status
  | success
  | invalidNetkey
  | invalidAppkey
  | invalidBinding
  | insuffResources
  | idxAlreadyStored
  | cannotUpdate
  | cannotSet
  | unspecified
  deriving DecidableEq, Repr

/-- What a call does to the subnets: the table it leaves, the events it
raises, each with the index of its subnet, and what it answers. -/
structure SubnetsCall where
  subnets : List Subnet
  raised : List (ℕ × KeyEvt) := []
  status : Status := .success

/-- `bt_mesh_subnet_get`: the slot of an index. -/
def subnetGet (t : List Subnet) (netIdx : ℕ) : Option ℕ := slotOf Subnet.netIdx netIdx t

/-- `subnet_alloc`. -/
def subnetAlloc (t : List Subnet) (netIdx : ℕ) : Option ℕ :=
  slotFor Subnet.netIdx keyUnused netIdx 0 none t

/-- Revoking the old keys. -/
def Subnet.revoke (sub : Subnet) : Subnet :=
  { sub with krPhase := krNormal, old := sub.new, new := { sub.new with valid := false } }

/-- `key_refresh`: the subnet it leaves, and the event it raises. -/
def keyRefresh (sub : Subnet) (newPhase : ℕ) : Subnet × List (ℕ × KeyEvt) :=
  if newPhase = krPhase1 then ({ sub with krPhase := krPhase1 }, [(sub.netIdx, .updated)])
  else if newPhase = krPhase2 then ({ sub with krPhase := krPhase2 }, [(sub.netIdx, .swapped)])
  else if newPhase = krPhase3 then
    if sub.krPhase = krNormal then (sub, []) else (sub.revoke, [(sub.netIdx, .revoked)])
  else if newPhase = krNormal then (sub.revoke, [(sub.netIdx, .revoked)])
  else (sub, [])

/-- `bt_mesh_kr_update`, what a beacon says of the subnet it is from. -/
def krUpdate (sub : Subnet) (krFlag newKey : Bool) : Subnet × List (ℕ × KeyEvt) :=
  if ¬ newKey then (sub, [])
  else if sub.krPhase = krPhase1 then
    -- Phase 2 can be skipped by KR = 0 on the new key.
    keyRefresh sub (if krFlag then krPhase2 else krPhase3)
  else if sub.krPhase = krPhase2 ∧ ¬ krFlag then keyRefresh sub krPhase3
  else (sub, [])

/-- `bt_mesh_subnet_add`. -/
def subnetAdd (cfg : KeysCfg) (d : Derivation) (netIdx : ℕ) (raw : Bytes) (t : List Subnet) :
    SubnetsCall :=
  match subnetAlloc t netIdx with
  | none => { subnets := t, status := .insuffResources }
  | some i =>
    let sub := t.getD i freeSubnet
    if sub.netIdx = netIdx then
      { subnets := t
        status := if keyDiffers raw sub.old.net then .idxAlreadyStored else .success }
    else
      let (keys, ok) := netKeysCreate cfg d sub.old raw
      if ok then
        { subnets := t.set i { sub with netIdx := netIdx, krPhase := krNormal, old := keys }
          raised := [(netIdx, .added)] }
      else { subnets := t.set i { sub with old := keys }, status := .unspecified }

/-- `bt_mesh_subnet_update` asks for a derivation: the subnet is in normal
operation and the key is another one. -/
def Subnet.TakesUpdate (sub : Subnet) (raw : Bytes) : Prop :=
  sub.krPhase = krNormal ∧ keyDiffers raw sub.old.net = true

instance (sub : Subnet) (raw : Bytes) : Decidable (sub.TakesUpdate raw) :=
  inferInstanceAs (Decidable (sub.krPhase = krNormal ∧ keyDiffers raw sub.old.net = true))

/-- What `bt_mesh_subnet_update` answers without a derivation. -/
def Subnet.updateStatus (sub : Subnet) (raw : Bytes) : Status :=
  if sub.krPhase = krNormal then .idxAlreadyStored
  else if sub.krPhase = krPhase1 ∧ ¬ keyDiffers raw sub.new.net then .success
  else .cannotUpdate

/-- `bt_mesh_subnet_update`. -/
def subnetUpdate (cfg : KeysCfg) (d : Derivation) (netIdx : ℕ) (raw : Bytes) (t : List Subnet) :
    SubnetsCall :=
  match subnetGet t netIdx with
  | none => { subnets := t, status := .invalidNetkey }
  | some i =>
    let sub := t.getD i freeSubnet
    if sub.TakesUpdate raw then
      let (keys, ok) := netKeysCreate cfg d sub.new raw
      if ok then
        let (sub, raised) := keyRefresh { sub with new := keys } krPhase1
        { subnets := t.set i sub, raised := raised }
      else { subnets := t.set i { sub with new := keys }, status := .cannotUpdate }
    else { subnets := t, status := sub.updateStatus raw }

/-- `bt_mesh_subnet_del`. The event is raised before the entry is cleared;
those it is for read the index only. -/
def subnetDel (netIdx : ℕ) (t : List Subnet) : SubnetsCall :=
  match subnetGet t netIdx with
  | none => { subnets := t, status := .invalidNetkey }
  | some i => { subnets := t.set i freeSubnet, raised := [(netIdx, .deleted)] }

/-- `valid_transitions` of `bt_mesh_subnet_kr_phase_set`, a bit for each
phase a phase may be followed by. -/
def validTransitions : List ℕ := [2 ^ krPhase3, 2 ^ krPhase2 ||| 2 ^ krPhase3, 2 ^ krPhase3]

/-- The transition is in the table. -/
def transitionValid (phase newPhase : ℕ) : Bool :=
  phase < validTransitions.length && (validTransitions.getD phase 0).testBit newPhase

/-- `bt_mesh_subnet_kr_phase_set`; what it puts in `*phase` is the phase of
the subnet after the call, or 0. -/
def krPhaseSet (netIdx phase : ℕ) (t : List Subnet) : SubnetsCall :=
  match subnetGet t netIdx with
  | none => { subnets := t, status := .invalidNetkey }
  | some i =>
    let sub := t.getD i freeSubnet
    if phase = sub.krPhase then { subnets := t }
    else if transitionValid sub.krPhase phase then
      { subnets := t.set i (keyRefresh sub phase).1, raised := (keyRefresh sub phase).2 }
    else { subnets := t, status := .cannotUpdate }

/-- A beacon of a used subnet, by `net_beacon_recv`, or a Friend Update. -/
def subnetBeacon (netIdx : ℕ) (krFlag newKey : Bool) (t : List Subnet) : SubnetsCall :=
  if netIdx = keyUnused then { subnets := t }
  else
    match subnetGet t netIdx with
    | none => { subnets := t }
    | some i =>
      let sub := t.getD i freeSubnet
      { subnets := t.set i (krUpdate sub krFlag newKey).1
        raised := (krUpdate sub krFlag newKey).2 }

/-! ## Calls -/

/-- The calls that change the subnets, with how the key derivation of each
goes. -/
inductive SubnetEvent
  /-- `bt_mesh_subnet_add`. -/
  | add (netIdx : ℕ) (raw : Bytes) (d : Derivation)
  /-- `bt_mesh_subnet_update`. -/
  | update (netIdx : ℕ) (raw : Bytes) (d : Derivation)
  /-- `bt_mesh_subnet_del`. -/
  | del (netIdx : ℕ)
  /-- `bt_mesh_subnet_kr_phase_set`. -/
  | krPhaseSet (netIdx phase : ℕ)
  /-- `bt_mesh_kr_update`. -/
  | beacon (netIdx : ℕ) (krFlag newKey : Bool)
  deriving DecidableEq, Repr

/-- One call. -/
def subnetCall (cfg : KeysCfg) (t : List Subnet) : SubnetEvent → SubnetsCall
  | .add netIdx raw d => subnetAdd cfg d netIdx raw t
  | .update netIdx raw d => subnetUpdate cfg d netIdx raw t
  | .del netIdx => subnetDel netIdx t
  | .krPhaseSet netIdx phase => krPhaseSet netIdx phase t
  | .beacon netIdx krFlag newKey => subnetBeacon netIdx krFlag newKey t

/-- The table one call leaves. -/
def subnetStep (cfg : KeysCfg) (t : List Subnet) (e : SubnetEvent) : List Subnet :=
  (subnetCall cfg t e).subnets

/-- The table at start, with `CONFIG_BT_MESH_SUBNET_COUNT` entries. -/
def subnetsInit (count : ℕ) : List Subnet := List.replicate count freeSubnet

end KeyTables

end OpenBlue
