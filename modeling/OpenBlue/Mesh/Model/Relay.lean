import OpenBlue.Mesh.Model.NetPdu
/-!
# Mesh — relaying a network PDU

The model of `bt_mesh_net_relay` and of the subnet that a received PDU is
found to belong to. Which calls `bt_mesh_net_recv` makes of it is left out:
whether a call is for a bridged PDU, and for which subnet, is an input.
-/

namespace OpenBlue

namespace Mesh

/-! ## The subnet of a PDU -/

/-- The credentials that `bt_mesh_net_cred_find` goes through, each with
the subnet that `rx->sub` is at then. -/
def NetNode.subCandidates (cfg : PduCfg) (node : NetNode) : List (Subnet × Candidate) :=
  match node.lpn.filter fun lpn => cfg.lowPower && lpn.waitingUpdate with
  | some lpn =>
    (lpn.friendship.subnet.candidates lpn.friendship.cred true).map (lpn.friendship.subnet, ·)
  | none =>
    (if cfg.friend then
      (node.frnd.filterMap id).flatMap fun f => (f.subnet.candidates f.cred true).map (f.subnet, ·)
    else []) ++
    (node.subnets.filter (·.netIdx ≠ keyUnused)).flatMap fun sub =>
      (sub.candidates (sub.keys.1.msg, sub.keys.2.msg) false).map (sub, ·)

/-- `rx->sub` where a credential is found. -/
def rxSub (crypto : NetCrypto) (cfg : PduCfg) (node : NetNode) (caches : NetCaches)
    (netIf : NetIf) (pdu : Bytes) : Option Subnet :=
  (node.subCandidates cfg).findSome? fun p =>
    (netDecrypt crypto cfg node caches netIf pdu p.2.cred).map fun _ => p.1

/-- The credential of `SUBNET_KEY_TX_IDX`. -/
def Subnet.txCred (sub : Subnet) : NetCred := if sub.krPhase2 then sub.keys.2.msg else sub.keys.1.msg

/-! ## One relay -/

/-- The states and build options that relaying reads. -/
structure RelayState where
  /-- `bt_mesh_relay_get() == BT_MESH_RELAY_ENABLED`. -/
  relay : Bool := false
  /-- `bt_mesh_gatt_proxy_get() == BT_MESH_GATT_PROXY_ENABLED`. -/
  gattProxy : Bool := false
  /-- `bt_mesh_priv_gatt_proxy_get() == BT_MESH_PRIV_GATT_PROXY_ENABLED`. -/
  privGattProxy : Bool := false
  relayRetransmit : UInt8 := 0
  netTransmit : UInt8 := 0
  /-- `CONFIG_BT_MESH_GATT_PROXY`. -/
  cfgGattProxy : Bool := false
  deriving DecidableEq, Repr

/-- One of the two GATT proxy states is enabled. -/
def RelayState.proxies (st : RelayState) : Bool := st.gattProxy || st.privGattProxy

/-- `relay_to_adv`. -/
def relayToAdv (st : RelayState) : NetIf → Bool
  | .adv => st.relay
  | .proxy => st.proxies
  | .loopback | .proxyCfg => false

/-- A PDU that `bt_mesh_net_relay` has built, with its retransmit state and
the bearers it goes to. -/
structure RelayedPdu where
  pdu : Bytes
  transmit : UInt8
  /-- `bt_mesh_proxy_relay`, for this destination. -/
  proxy : Option Nat
  /-- `bt_mesh_adv_send`. -/
  adv : Bool
  deriving DecidableEq, Repr

/-- The TTL of a PDU is replaced, the CTL bit left. -/
def setTtl (ttl : UInt8) (pdu : Bytes) : Bytes := pdu.set 1 ((pdu.getD 1 0 &&& 0x80) ||| ttl)

/-- The NID of a PDU is replaced, the IVI bit left. -/
def setNid (nid : UInt8) (pdu : Bytes) : Bytes := pdu.set 0 ((pdu.getD 0 0 &&& 0x80) ||| nid)

/-- `bt_mesh_net_relay` on a PDU in clear; `adv` says whether there is a
buffer for it. It writes the TTL into `sbuf` too, where a further call
writes the same one. -/
def btMeshNetRelay (crypto : NetCrypto) (cfg : PduCfg) (st : RelayState) (node : NetNode)
    (adv : Bool) (sub : Subnet) (sbuf : Bytes) (rx : Decoded) (bridge : Bool) :
    Option RelayedPdu :=
  if rx.recvTtl ≤ 1 then none
  else if rx.rx.netIf = .adv ∧ !rx.friendCred ∧ !bridge ∧ !st.relay ∧ !st.proxies then none
  else
    let transmit := if rx.rx.netIf = .adv ∧ !rx.friendCred ∧ !bridge then st.relayRetransmit
      else st.netTransmit
    if !adv then none
    else
      let buf := setTtl (rx.recvTtl - 1) sbuf
      let cred := sub.txCred
      -- The NID stays that of the received PDU unless it was received with
      -- friendship credentials or is bridged.
      let buf := if rx.friendCred || bridge then setNid cred.nid buf else buf
      match netEncrypt crypto cfg buf cred (node.iviRx rx.rx.oldIv) .network with
      | none => none
      | some pdu => some
        { pdu := pdu
          transmit := transmit
          proxy := if st.cfgGattProxy && (rx.friendCred || st.proxies) then some rx.rx.recvDst
            else none
          adv := relayToAdv st rx.rx.netIf || rx.friendCred || bridge }

end Mesh

end OpenBlue
