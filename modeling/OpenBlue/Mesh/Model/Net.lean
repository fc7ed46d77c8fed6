import OpenBlue.Mesh.Model.Rpl
/-!
# Mesh — IV index and sequence number

The part of `net.c` that decides which IV index and which sequence
number a PDU goes out under: the IV Update procedure with its three
transitions (start, return to normal, recovery) and every refusal, the
sequence counter with its re-entrant update, and the hour tick. The
notifications an update sends to other modules (beacons, proxy, friend
queue, configuration database) carry nothing back and are left out.
-/

namespace OpenBlue

namespace Mesh

/-- `BT_MESH_IVU_MIN_HOURS`. -/
def ivuMinHours : Nat := 96

/-- The build options the network layer reads. -/
structure NetCfg where
  /-- `CONFIG_BT_SETTINGS`. -/
  settings : Bool := false
  /-- `CONFIG_BT_MESH_IV_UPDATE_TEST`. -/
  ivUpdateTest : Bool := false
  /-- `CONFIG_BT_MESH_IV_UPDATE_SEQ_LIMIT`. -/
  seqLimit : UInt32 := 0x800000
  /-- `CONFIG_BT_MESH_IVU_DIVIDER`. -/
  ivuDivider : Nat := 4
  deriving Repr

/-- `BT_MESH_IVU_HOURS`, the period of the hour tick. -/
def NetCfg.ivuHours (cfg : NetCfg) : Nat := ivuMinHours / cfg.ivuDivider

/-- `struct bt_mesh_net`, as far as this layer reads it, with the static
`ivi_was_recovered` and the replay list beside it. -/
structure Net where
  ivIndex : UInt32 := 0
  seq : UInt32 := 0
  /-- `BT_MESH_IVU_IN_PROGRESS`. -/
  ivuInProgress : Bool := false
  /-- `BT_MESH_IVU_PENDING`: a return to normal is deferred. -/
  ivuPending : Bool := false
  /-- `BT_MESH_IVU_TEST`. -/
  ivuTest : Bool := false
  /-- Hours in the current state, an 8-bit counter that saturates. -/
  ivuDuration : Nat := 0
  iviWasRecovered : Bool := false
  /-- `BT_MESH_VALID`: the node is provisioned. -/
  provisioned : Bool := true
  /-- Whether `bt_mesh_subnet_get(BT_MESH_KEY_PRIMARY)` finds a subnet. -/
  primary : Bool := true
  rpl : Rpl
  deriving DecidableEq, Repr

/-- `BT_MESH_NET_IVI_TX`, in 32-bit arithmetic. -/
def Net.iviTx (net : Net) : UInt32 :=
  net.ivIndex - (if net.ivuInProgress then 1 else 0)

/-- `BT_MESH_NET_IVI_RX`. -/
def Net.iviRx (net : Net) (oldIv : Bool) : UInt32 :=
  net.ivIndex - (if oldIv then 1 else 0)

/-- What a call of `bt_mesh_net_iv_update` does. -/
inductive IvuAction
  /-- Refused, nothing changes. -/
  | ignore
  /-- Return to normal put off until the segmented transfers end. -/
  | defer
  /-- IV Update in Progress entered. -/
  | start
  /-- Normal operation entered. -/
  | normal
  /-- IV Index Recovery. -/
  | recover
  deriving DecidableEq, Repr

/-- The tests of `bt_mesh_net_iv_update`, in order. `txInProgress` is
the answer of `bt_mesh_tx_in_progress`. -/
def ivuAction (cfg : NetCfg) (txInProgress : Bool) (ivIndex : UInt32) (ivUpdate : Bool)
    (net : Net) : IvuAction :=
  if ivIndex < net.ivIndex ∨ ivIndex > net.ivIndex + 42 then .ignore
  -- Discard [iv, false] --> [iv, true]
  else if ivIndex = net.ivIndex ∧ ivUpdate then .ignore
  else if ivIndex > net.ivIndex + 1 ∨
      (ivIndex = net.ivIndex + 1 ∧ (net.ivuInProgress ∨ !ivUpdate)) then
    if net.iviWasRecovered ∧ net.ivuDuration < 2 * ivuMinHours then .ignore
    else .recover
  else if net.ivuInProgress = ivUpdate then .ignore
  else if ¬(cfg.ivUpdateTest ∧ net.ivuTest) ∧ net.ivuDuration < ivuMinHours then .ignore
  -- Defer change to Normal Operation if there are pending acks
  else if !ivUpdate ∧ txInProgress then .defer
  else if ivUpdate then .start
  else .normal

/-- `bt_mesh_net_iv_update`; the answer says whether the state changed. -/
def netIvUpdate (cfg : NetCfg) (txInProgress : Bool) (ivIndex : UInt32) (ivUpdate : Bool)
    (net : Net) : Net × Bool :=
  match ivuAction cfg txInProgress ivIndex ivUpdate net with
  | .ignore => (net, false)
  | .defer => ({ net with ivuPending := true }, false)
  | .recover =>
    ({ net with
        iviWasRecovered := true
        rpl := rplClear cfg.settings net.rpl
        ivIndex := ivIndex
        seq := 0
        ivuInProgress := ivUpdate
        ivuDuration := 0 }, true)
  | .start =>
    ({ net with
        ivIndex := ivIndex
        rpl := rplReset cfg.settings net.rpl
        iviWasRecovered := false
        ivuInProgress := ivUpdate
        ivuDuration := 0 }, true)
  | .normal => ({ net with seq := 0, ivuInProgress := ivUpdate, ivuDuration := 0 }, true)

/-- Whether `bt_mesh_next_seq` calls for an IV update, the counter
already moved on. -/
def ivuTrigger (cfg : NetCfg) (net : Net) : Bool :=
  !net.ivuInProgress && decide (net.seq > cfg.seqLimit) && net.primary

/-- `bt_mesh_next_seq`. The update it may start is asked for with the
update flag, so pending transfers do not matter to it. -/
def nextSeq (cfg : NetCfg) (net : Net) : Net × UInt32 :=
  let seq := net.seq
  let net := { net with seq := net.seq + 1 }
  if ivuTrigger cfg net then ((netIvUpdate cfg false (net.ivIndex + 1) true net).1, seq)
  else (net, seq)

/-- The hours counted by one tick. -/
def Net.tickHours (cfg : NetCfg) (net : Net) : Net :=
  { net with ivuDuration := min 255 (net.ivuDuration + cfg.ivuHours) }

/-- `ivu_refresh`, the work item of the IV Update timer. -/
def ivuRefresh (cfg : NetCfg) (txInProgress : Bool) (net : Net) : Net :=
  if !net.provisioned then net
  else
    let net := net.tickHours cfg
    if net.ivuDuration < ivuMinHours then net
    else if net.ivuInProgress then
      (netIvUpdate cfg txInProgress net.ivIndex false net).1
    else net

/-- The end of `seg_tx_reset`: a transfer that is done releases the
deferred update. -/
def releasePending (cfg : NetCfg) (txInProgress : Bool) (net : Net) : Net :=
  if net.ivuPending then
    let net := { net with ivuPending := false }
    (netIvUpdate cfg txInProgress net.ivIndex false net).1
  else net

/-- `bt_mesh_iv_update_test`. -/
def ivUpdateTestSet (enable : Bool) (net : Net) : Net :=
  { net with ivuTest := enable, ivuDuration := 0 }

/-- The node `bt_mesh_provision` leaves: `bt_mesh_net_create` on a reset
node, and the sequence number at 0. -/
def provision (crpl : Nat) (ivUpdate : Bool) (ivIndex : UInt32) (primary : Bool) : Net where
  ivIndex := ivIndex
  ivuInProgress := ivUpdate
  ivuDuration := if ivUpdate then ivuMinHours else 0
  primary := primary
  rpl := rplInit crpl

/-! ## Runs -/

/-- What can happen to the network layer. `txInProgress` is what the
segmented transfers would answer at that moment. -/
inductive NetEvent
  /-- A PDU is given its header (`net_header_encode`). -/
  | transmit
  /-- A beacon or a Friend Update asks for an update. -/
  | ivUpdate (ivIndex : UInt32) (ivUpdate txInProgress : Bool)
  /-- The IV Update timer fires. -/
  | ivuRefresh (txInProgress : Bool)
  /-- A segmented transfer ends. -/
  | segTxReset (txInProgress : Bool)
  /-- The IV Update test mode is switched. -/
  | ivUpdateTest (enable : Bool)
  /-- The primary subnet is added or deleted. -/
  | primary (present : Bool)
  deriving DecidableEq, Repr

/-- One step of the network layer. -/
def netStep (cfg : NetCfg) (net : Net) : NetEvent → Net
  | .transmit => (nextSeq cfg net).1
  | .ivUpdate iv flag tx => (netIvUpdate cfg tx iv flag net).1
  | .ivuRefresh tx => ivuRefresh cfg tx net
  | .segTxReset tx => releasePending cfg tx net
  | .ivUpdateTest enable => ivUpdateTestSet enable net
  | .primary present => { net with primary := present }

/-- What a step does to the IV index, by the tests of the update it
calls for. -/
def netAction (cfg : NetCfg) (net : Net) : NetEvent → IvuAction
  | .transmit =>
    let net := { net with seq := net.seq + 1 }
    if ivuTrigger cfg net then ivuAction cfg false (net.ivIndex + 1) true net else .ignore
  | .ivUpdate iv flag tx => ivuAction cfg tx iv flag net
  | .ivuRefresh tx =>
    let net' := net.tickHours cfg
    if net.provisioned && decide (ivuMinHours ≤ net'.ivuDuration) && net.ivuInProgress then
      ivuAction cfg tx net.ivIndex false net'
    else .ignore
  | .segTxReset tx =>
    if net.ivuPending then
      ivuAction cfg tx net.ivIndex false { net with ivuPending := false }
    else .ignore
  | .ivUpdateTest _ => .ignore
  | .primary _ => .ignore

/-- The two places where `bt_mesh.seq` is set back to 0. -/
def IvuAction.ResetsSeq (a : IvuAction) : Prop := a = .normal ∨ a = .recover

instance (a : IvuAction) : Decidable a.ResetsSeq :=
  inferInstanceAs (Decidable (a = .normal ∨ a = .recover))

/-- What a transmission is nonced with: the IV index in use when its
header is written, and the value `bt_mesh_next_seq` returned. -/
def transmitted (cfg : NetCfg) (net : Net) : NetEvent → List (UInt32 × UInt32)
  | .transmit => [((nextSeq cfg net).1.iviTx, (nextSeq cfg net).2)]
  | _ => []

/-- The SEQ field of `net_header_encode` (`bt_buf_simple_push_be24`). -/
def seqField (seq : UInt32) : Nat := seq.toNat % 2 ^ 24

end Mesh

end OpenBlue
