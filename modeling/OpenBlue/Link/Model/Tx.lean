import Mathlib.Algebra.Order.Ring.Int
import Mathlib.Data.List.Basic
/-!
# Link — TX contexts and controller buffers

The model of how `conn.c` and `hci_core.c` account for packets sent to the
controller: `send_buf` takes a controller buffer and a context, the
Number Of Completed Packets event gives the buffer back and queues the
context for its callback, and a disconnection reclaims both. Sending a
packet is three steps, as other threads may run in between: no lock is held
from the check of `bt_conn_tx_processor` to the list of `send_buf`, and the
call of the driver may yield. The connections are LE ones, which share the
ACL buffers.
-/

namespace OpenBlue

namespace Link

/-- `struct bt_conn_tx`: its place in the array, and the PDU whose
callback it carries. -/
structure Tx where
  id : ℕ
  cb : Option ℕ := none
  deriving DecidableEq, Repr

/-- The states of a connection that matter here. -/
inductive TxPhase
  /-- The object is not in use. -/
  | unused
  /-- `BT_CONN_CONNECTED`. -/
  | connected
  /-- `BT_CONN_DISCONNECTING`. -/
  | disconnecting
  /-- `BT_CONN_DISCONNECT_COMPLETE`. -/
  | complete
  deriving DecidableEq, Repr

/-- The TX side of `struct bt_conn`. -/
structure TxConn where
  phase : TxPhase := .unused
  handle : ℕ := 0
  /-- `in_ll`. -/
  inLl : ℤ := 0
  /-- `tx_pending`. -/
  pending : List Tx := []
  /-- `tx_complete`. -/
  complete : List Tx := []
  deriving DecidableEq, Repr

/-- The build options and what the controller reported. -/
structure TxCfg where
  /-- `CONFIG_BT_MAX_CONN`. -/
  maxConn : ℕ
  /-- `CONFIG_BT_BUF_ACL_TX_COUNT`, the number of contexts. -/
  contexts : ℕ
  /-- The number of ACL buffers of the controller. -/
  pkts : ℕ

/-- The host. -/
structure TxState where
  /-- `free_tx`. -/
  free : List ℕ
  conns : ℕ → TxConn := fun _ => {}
  /-- The count of `acl_pkts`. -/
  sem : ℕ
  /-- The connection that `bt_conn_tx_processor` found connected and holds a
  reference of, until `send_buf` takes a context. -/
  picked : Option ℕ := none
  /-- The call of the driver under way: the connection and the context. -/
  driver : Option (ℕ × Tx) := none
  /-- The PDUs whose callback was invoked. -/
  called : List ℕ := []
  /-- The number of the next PDU. -/
  nextPdu : ℕ := 0

/-- The connection `k` is replaced. -/
def TxState.setConn (s : TxState) (k : ℕ) (c : TxConn) : TxState :=
  { s with conns := Function.update s.conns k c }

/-- `tx_free` and the callback, if there is one. -/
def TxState.destroy (s : TxState) (tx : Tx) : TxState :=
  { s with free := s.free ++ [tx.id], called := s.called ++ tx.cb.toList }

/-! ## Sending -/

/-- `bt_conn_tx_processor` up to the pull of the data: `get_conn_ready`
picks a connection with a buffer and a context at hand, and the connection
is still connected. The processor is not re-entrant. -/
def sendCheck (cfg : TxCfg) (k : ℕ) (s : TxState) : TxState :=
  if k < cfg.maxConn ∧ s.sem ≠ 0 ∧ s.free ≠ [] ∧ (s.conns k).phase = .connected ∧
      s.picked = none ∧ s.driver = none then
    { s with picked := some k }
  else s

/-- The rest of `bt_conn_tx_processor` up to the call of the driver: nothing
is pulled, or the last fragment of a PDU, whose context carries the
callback, or another one. The state of the connection is not looked at
again. -/
def sendBegin (pulled : Option Bool) (s : TxState) : TxState :=
  match s.picked, pulled with
  | none, _ => s
  | some _, none => { s with picked := none }
  | some k, some last =>
    let cb := if last then some s.nextPdu else none
    let s := { s with picked := none, nextPdu := if last then s.nextPdu + 1 else s.nextPdu }
    match s.sem, s.free with
    | sem + 1, id :: free =>
      let tx : Tx := ⟨id, cb⟩
      let c := s.conns k
      { s.setConn k { c with inLl := c.inLl + 1, pending := c.pending ++ [tx] } with
        free := free, sem := sem, driver := some (k, tx) }
    -- `error_return`
    | _, _ => { s with called := s.called ++ cb.toList }

/-- `send_buf` from the return of the driver on. -/
def sendEnd (err : Bool) (s : TxState) : TxState :=
  match s.driver with
  | none => s
  | some (k, tx) =>
    let s := { s with driver := none }
    if err then
      let c := s.conns k
      let s := s.setConn k { c with inLl := c.inLl - 1, pending := c.pending.erase tx }
      let s := s.destroy tx
      { s with sem := s.sem + 1 }
    else s

/-! ## Completion -/

/-- One packet of connection `k` is completed. -/
def completeOne (k : ℕ) (s : TxState) : TxState :=
  let c := s.conns k
  match c.pending with
  | [] => s
  | tx :: rest =>
    let s := { s with sem := s.sem + 1 }
    s.setConn k { c with pending := rest, complete := c.complete ++ [tx], inLl := c.inLl - 1 }

/-- `bt_conn_is_handle_valid`. -/
def TxPhase.handleValid : TxPhase → Bool
  | .unused => false
  | _ => true

/-- `bt_conn_lookup_handle`. -/
def TxState.lookupHandle (cfg : TxCfg) (s : TxState) (handle : ℕ) : Option ℕ :=
  (List.range cfg.maxConn).find? fun k =>
    (s.conns k).phase.handleValid && (s.conns k).handle == handle

/-- One handle of the Number Of Completed Packets event. The loop stops at
the first packet that is not pending; `completeOne` then changes nothing. -/
def numCompleted (cfg : TxCfg) (handle count : ℕ) (s : TxState) : TxState :=
  match s.lookupHandle cfg handle with
  | none => s
  | some k => Nat.iterate (completeOne k) count s

/-- One turn of `tx_notify_process`. -/
def notifyOne (k : ℕ) (s : TxState) : TxState :=
  let c := s.conns k
  match c.complete with
  | [] => s
  | tx :: rest => (s.setConn k { c with complete := rest }).destroy tx

/-- `tx_notify_process`. -/
def txNotifyProcess (k : ℕ) (s : TxState) : TxState :=
  Nat.iterate (notifyOne k) (s.conns k).complete.length s

/-! ## Disconnection -/

/-- One turn of `process_unack_tx`. -/
def unackOne (k : ℕ) (s : TxState) : TxState :=
  let c := s.conns k
  match c.pending with
  | [] => s
  | tx :: rest =>
    let s := (s.setConn k { c with pending := rest }).destroy tx
    { s with sem := s.sem + 1 }

/-- `process_unack_tx`. -/
def processUnackTx (k : ℕ) (s : TxState) : TxState :=
  Nat.iterate (unackOne k) (s.conns k).pending.length s

/-! ## Runs -/

/-- What can happen. -/
inductive TxEvent
  /-- A connection object is taken (`bt_conn_new`) and connected. -/
  | connect (k handle : ℕ)
  | sendCheck (k : ℕ)
  | sendBegin (pulled : Option Bool)
  | sendEnd (err : Bool)
  /-- The Number Of Completed Packets event. -/
  | numCompleted (handles : List (ℕ × ℕ))
  /-- One turn of the work that invokes the callbacks. -/
  | notify (k : ℕ)
  | disconnecting (k : ℕ)
  /-- The state becomes `BT_CONN_DISCONNECT_COMPLETE`. -/
  | disconnectComplete (k : ℕ)
  /-- The state becomes `BT_CONN_DISCONNECTED`, and the object is released. -/
  | disconnected (k : ℕ)
  deriving DecidableEq, Repr

/-- The phase of connection `k` is replaced. -/
def TxState.setPhase (s : TxState) (k : ℕ) (phase : TxPhase) : TxState :=
  s.setConn k { s.conns k with phase := phase }

/-- `bt_conn_tx_processor` holds no reference of connection `k`. -/
def TxState.Unheld (s : TxState) (k : ℕ) : Prop :=
  s.picked ≠ some k ∧ ∀ d ∈ s.driver, d.1 ≠ k

instance (s : TxState) (k : ℕ) : Decidable (s.Unheld k) :=
  inferInstanceAs (Decidable (_ ∧ ∀ d ∈ s.driver, d.1 ≠ k))

/-- One step of the host. -/
def txStep (cfg : TxCfg) (s : TxState) : TxEvent → TxState
  | .connect k handle =>
    if k < cfg.maxConn ∧ (s.conns k).phase = .unused ∧ s.Unheld k then
      s.setConn k { phase := .connected, handle := handle }
    else s
  | .sendCheck k => sendCheck cfg k s
  | .sendBegin pulled => sendBegin pulled s
  | .sendEnd err => sendEnd err s
  | .numCompleted handles => handles.foldl (fun s h => numCompleted cfg h.1 h.2 s) s
  | .notify k => if k < cfg.maxConn then notifyOne k s else s
  | .disconnecting k =>
    if k < cfg.maxConn ∧ (s.conns k).phase = .connected then s.setPhase k .disconnecting else s
  | .disconnectComplete k =>
    if k < cfg.maxConn ∧ ((s.conns k).phase = .connected ∨ (s.conns k).phase = .disconnecting) then
      processUnackTx k (s.setPhase k .complete)
    else s
  | .disconnected k =>
    if k < cfg.maxConn ∧ (s.conns k).phase = .complete then
      txNotifyProcess k (s.setPhase k .unused)
    else s

/-- The host at boot. -/
def txBoot (cfg : TxCfg) : TxState := { free := List.range cfg.contexts, sem := cfg.pkts }

end Link

end OpenBlue
