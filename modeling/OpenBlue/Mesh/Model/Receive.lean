import OpenBlue.Common.Run
import OpenBlue.Mesh.Model.Net
/-!
# Mesh — receiving against the replay list

The order in which the transport uses the replay list on a received PDU
(`trans_unseg`): look the source up, hand the PDU to its handler, and
enter it in the slot found only if the handler accepted it. The handler
runs in between, and it may reach the network layer: a Friend Update
calls `bt_mesh_net_iv_update`, and a reply that uses up the sequence
numbers calls it through `bt_mesh_next_seq`.
-/

namespace OpenBlue

namespace Mesh

/-- What can happen to the replay list. -/
inductive RxEvent
  /-- A PDU is received with a match slot; `accepted` is the handler's
  verdict and `handler` what it does to the network layer. -/
  | recv (rx : NetRx) (accepted : Bool) (handler : List NetEvent)
  /-- A PDU is checked with a NULL match (proxy configuration, bridge). -/
  | recvNull (rx : NetRx) (bridge : Bool)
  /-- A step of the network layer on its own. -/
  | net (e : NetEvent)
  deriving DecidableEq, Repr

/-- `trans_unseg` as far as the network state goes. -/
def recvUnseg (cfg : NetCfg) (rx : NetRx) (accepted : Bool) (handler : List NetEvent)
    (net : Net) : Net :=
  match rplCheck net.rpl rx false with
  | .replay => net
  | .exempt => run (netStep cfg) net handler
  | .slot i =>
    let net := run (netStep cfg) net handler
    -- Update rpl only if upper logic accepted incoming data.
    if accepted then { net with rpl := rplUpdate cfg.settings net.rpl i rx } else net

/-- One step of the receiving node. -/
def rxStep (cfg : NetCfg) (net : Net) : RxEvent → Net
  | .recv rx accepted handler => recvUnseg cfg rx accepted handler net
  | .recvNull rx bridge => { net with rpl := (rplCheckNull cfg.settings net.rpl rx bridge).1 }
  | .net e => netStep cfg net e

/-- A message the list let through: its source, the IV index it was
sent under and its SEQ. The index before 0 is kept as -1. -/
structure Accepted where
  src : ℕ
  ivIndex : ℤ
  seq : ℕ
  deriving DecidableEq, Repr

/-- The IV index `BT_MESH_NET_IVI_RX` selects, as an integer. -/
def Net.rxIndex (net : Net) (oldIv : Bool) : ℤ :=
  net.ivIndex.toNat - (if oldIv then 1 else 0)

/-- The message, as accepted in this state. -/
def Net.acceptedAs (net : Net) (rx : NetRx) : Accepted where
  src := rx.addr
  ivIndex := net.rxIndex rx.oldIv
  seq := rx.seq

/-- The messages a step accepts through the list. -/
def rxAccepted (net : Net) : RxEvent → List Accepted
  | .recv rx true _ =>
    match rplCheck net.rpl rx false with
    | .slot _ => [net.acceptedAs rx]
    | _ => []
  | .recv _ false _ => []
  | .recvNull rx bridge =>
    match rplCheck net.rpl rx bridge with
    | .slot _ => [net.acceptedAs rx]
    | _ => []
  | .net _ => []

/-- The messages of one source a step accepts. -/
def rxAcceptedFrom (a : ℕ) (net : Net) (e : RxEvent) : List Accepted :=
  (rxAccepted net e).filter (·.src == a)

end Mesh

end OpenBlue
