import OpenBlue.L2cap.Model.Chan
/-!
# L2CAP — the channels of one LE connection

What `l2cap.c` keeps for one connection: the list of its channels, the
list of those with data (`l2cap_data_ready`), and the channel objects,
which are named by numbers. This file holds the primitives that the
handlers are made of: attaching, removing and deleting a channel, the
ready list, sending and pulling.
-/

namespace OpenBlue

namespace L2cap

/-! ## Channel objects -/

/-- What `l2cap_chan_add` does to the object: its private members and its
status are cleared. An SDU the application kept from an earlier use is no
longer counted. -/
def Chan.add (cid : ℕ) (destroy : Bool) (ch : Chan) : Chan :=
  { ch with
    attached := true
    destroy := destroy
    rx := { ch.rx with cid := cid }
    out := false
    shutdown := false
    encryptPending := false
    sdu := none
    sduLen := 0
    pduRemaining := 0
    held := 0
    added := ch.added + 1
    rxQueue := if cidIsDyn cid then [] else ch.rxQueue
    state := if cidIsDyn cid then .connecting else ch.state }

/-- `l2cap_chan_destroy`. -/
def Chan.destroyed (ch : Chan) : Chan :=
  { ch with
    rxQueue := []
    sdu := none
    sduLen := if ch.sdu.isSome then 0 else ch.sduLen }

/-- What `l2cap_chan_del` does to the object. -/
def Chan.del (ch : Chan) : Chan :=
  let ch : Chan :=
    if ch.attached then
      { ch with attached := false, txQueue := [], deleted := ch.deleted + 1 }
    else ch
  let ch := { ch with state := .disconnected, psm := 0 }
  if ch.destroy then ch.destroyed else ch

/-! ## The connection -/

/-- How far a connection is: `BT_CONN_CONNECTED`; on its way down; and
taken down by `bt_l2cap_disconnected`. -/
inductive Phase
  | connected
  | disconnecting
  | disconnected
  deriving DecidableEq, Repr

/-- The part of `struct bt_conn` that L2CAP uses, with the channel
objects. -/
structure LeConn where
  phase : Phase := .disconnected
  /-- `sec_level`. -/
  secLevel : ℕ := 1
  channels : List ℕ := []
  /-- `l2cap_data_ready`. -/
  ready : List ℕ := []
  chan : ℕ → Chan := fun _ => {}
  /-- The assertions of the receive path that failed. -/
  failed : List Assertion := []

namespace LeConn

/-- A channel object is replaced. -/
def setChan (i : ℕ) (ch : Chan) (c : LeConn) : LeConn :=
  { c with chan := Function.update c.chan i ch }

/-- A channel object is changed. -/
def modify (i : ℕ) (f : Chan → Chan) (c : LeConn) : LeConn := c.setChan i (f (c.chan i))

/-! ## The list of channels -/

/-- `bt_l2cap_le_lookup_tx_cid`. -/
def lookupTxCid (cid : ℕ) (c : LeConn) : Option ℕ :=
  c.channels.find? fun i => (c.chan i).tx.cid = cid

/-- `bt_l2cap_le_lookup_rx_cid`. -/
def lookupRxCid (cid : ℕ) (c : LeConn) : Option ℕ :=
  c.channels.find? fun i => (c.chan i).rx.cid = cid

/-- The channels with an identifier and a pending request. -/
def withIdent (ident : UInt8) (op : ReqOp) (c : LeConn) : List ℕ :=
  c.channels.filter fun i => (c.chan i).ident = ident ∧ (c.chan i).pendingReq = some op

/-- `l2cap_lookup_ident`. -/
def lookupIdent (ident : UInt8) (op : ReqOp) (c : LeConn) : Option ℕ :=
  (c.withIdent ident op).head?

/-- `bt_l2cap_chan_remove`. -/
def chanRemove (i : ℕ) (c : LeConn) : LeConn := { c with channels := c.channels.erase i }

/-! ## The ready list -/

/-- `raise_data_ready`. -/
def raiseReady (i : ℕ) (c : LeConn) : LeConn :=
  if i ∈ c.ready then c else { c with ready := c.ready ++ [i] }

/-- `cancel_data_ready`. -/
def cancelReady (i : ℕ) (c : LeConn) : LeConn := { c with ready := c.ready.erase i }

/-- `l2cap_chan_tx_give_credits`. -/
def giveCredits (n i : ℕ) (c : LeConn) : LeConn :=
  let c' := c.setChan i ((c.chan i).giveCredits n)
  if (c.chan i).out = false ∧ (c.chan i).txQueue ≠ [] then c'.raiseReady i else c'

/-- `get_ready_chan`: channels without data are taken off the list. -/
def dropIdle (c : LeConn) : LeConn :=
  { c with ready := c.ready.dropWhile fun i => (c.chan i).txQueue = [] }

/-- `l2cap_data_pull`. -/
def dataPull (amount : ℕ) (c : LeConn) : LeConn :=
  let c := c.dropIdle
  match c.ready with
  | [] => c
  | i :: rest =>
    let ch := c.chan i
    if ch.pduRemaining = 0 ∧ ¬ ch.hasCredits then { c with ready := rest }
    else
      let ch := ch.startPdu
      let ch' := (ch.pullFrag amount).1
      if ch.pduRemaining ≤ amount then
        let c := { c.setChan i ch' with ready := rest }
        if ch'.txQueue ≠ [] then c.raiseReady i else c
      else c.setChan i ch'

/-! ## Attaching and deleting -/

/-- `l2cap_chan_alloc_cid`: a CID the object has is kept. -/
def allocCid (i : ℕ) (c : LeConn) : Option ℕ :=
  if 0 < (c.chan i).rx.cid then some (c.chan i).rx.cid
  else ((List.range 0x40).map (0x40 + ·)).find? fun cid => (c.lookupRxCid cid).isNone

/-- `l2cap_chan_add`. -/
def chanAdd (destroy : Bool) (i : ℕ) (c : LeConn) : Option LeConn :=
  (c.allocCid i).map fun cid =>
    { c.modify i (Chan.add cid destroy) with channels := c.channels ++ [i] }

/-- `l2cap_chan_del`. -/
def chanDel (i : ℕ) (c : LeConn) : LeConn :=
  (if (c.chan i).attached then c.cancelReady i else c).modify i Chan.del

/-- A channel is removed and deleted. -/
def drop (i : ℕ) (c : LeConn) : LeConn := (c.chanRemove i).chanDel i

/-! ## Sending -/

/-- `bt_l2cap_send_pdu`: whether the PDU was queued. -/
def sendPdu (i : ℕ) (pdu : Bytes) (c : LeConn) : LeConn × Bool :=
  if (c.chan i).attached ∧ c.phase = .connected then
    ((c.modify i fun ch => { ch with txQueue := ch.txQueue ++ [pdu] }).raiseReady i, true)
  else (c, false)

/-- `BT_L2CAP_CID_LE_SIG`. -/
def sigCid : ℕ := 0x0005

/-- `l2cap_send_sig`. -/
def sendSig (pdu : Bytes) (c : LeConn) : LeConn × Bool :=
  match c.lookupTxCid sigCid with
  | none => (c, false)
  | some i => c.sendPdu i pdu

end LeConn

/-! ## Signalling PDUs -/

/-- The codes of signalling PDUs. -/
inductive SigCode
  | cmdReject
  | disconnReq
  | disconnRsp
  | connParamReq
  | connParamRsp
  | leConnReq
  | leConnRsp
  | leCredits
  | ecredConnReq
  | ecredConnRsp
  | ecredReconfReq
  | ecredReconfRsp
  deriving DecidableEq, Repr

/-- The values of the codes. -/
def SigCode.toUInt8 : SigCode → UInt8
  | .cmdReject => 0x01
  | .disconnReq => 0x06
  | .disconnRsp => 0x07
  | .connParamReq => 0x12
  | .connParamRsp => 0x13
  | .leConnReq => 0x14
  | .leConnRsp => 0x15
  | .leCredits => 0x16
  | .ecredConnReq => 0x17
  | .ecredConnRsp => 0x18
  | .ecredReconfReq => 0x19
  | .ecredReconfRsp => 0x1a

/-- A signalling PDU: `struct bt_l2cap_sig_hdr` and the data. -/
def sigPdu (code : SigCode) (ident : UInt8) (data : Bytes) : Bytes :=
  [code.toUInt8, ident] ++ le16 data.length ++ data

/-- The PDU a channel asks for. The identifier of a credit PDU is the next
one. -/
def ChanSig.pdu (counter : UInt8) (ch : Chan) : ChanSig → Bytes
  | .credits n => sigPdu .leCredits (getIdent counter) (le16 ch.rx.cid ++ le16 n)
  | .disconnReq ident => sigPdu .disconnReq ident (le16 ch.tx.cid ++ le16 ch.rx.cid)

namespace LeConn

/-- A call on a channel: what it asks for is sent. -/
def absorb (counter : UInt8) (i : ℕ) (o : Outcome) (c : LeConn) : LeConn :=
  o.sent.foldl (fun c sig => (c.sendSig (sig.pdu counter (c.chan i))).1)
    { c.setChan i o.chan with failed := c.failed ++ o.failed }

/-- `bt_l2cap_chan_disconnect`. -/
def chanDisconnect (buf : Option UInt8) (i : ℕ) (c : LeConn) : LeConn :=
  c.absorb 0 i ((c.chan i).disconnect buf)

/-- `bt_l2cap_chan_send`. -/
def chanSend (cfg : Cfg) (buf : SendBuf) (i : ℕ) (c : LeConn) : LeConn :=
  let ch := c.chan i
  if buf.ref ≠ 1 then c
  else if ¬ (ch.attached ∧ c.phase = .connected) then c
  else if ch.shutdown then c
  else if cidIsDyn ch.tx.cid then
    match ch.dynSend cfg buf with
    | none => c
    | some ch => (c.setChan i ch).raiseReady i
  else if cidIsFixed ch.tx.cid then (c.sendPdu i buf.data).1
  else c

/-- `l2cap_rx_process`, one K-frame. -/
def rxProcess (counter : UInt8) (env : RecvEnv) (i : ℕ) (c : LeConn) : LeConn :=
  c.absorb counter i ((c.chan i).rxProcess env)

/-- `bt_l2cap_chan_recv_complete`. -/
def recvComplete (counter : UInt8) (buf : Bool) (i : ℕ) (c : LeConn) : LeConn :=
  c.absorb counter i ((c.chan i).recvComplete buf)

end LeConn

end L2cap

end OpenBlue
