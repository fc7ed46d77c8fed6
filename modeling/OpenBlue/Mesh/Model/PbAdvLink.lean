import OpenBlue.Mesh.Model.PbAdv
/-!
# Mesh — the links of the advertising bearer

The model of the rest of `pb_adv.c`: how a link is opened and closed, at
either end, the two places for PDUs that are not acknowledged with what is
called when one was sent, and the timers. A step is a reception, a call of
the layer above, a callback of advertising or a timer that fires, each at
any time. Which transaction PDU advertising sends when, and the time a
transaction may take, are left out.
-/

namespace OpenBlue

namespace PbAdv

/-! ## Constants -/

/-- `XACT_ID_MAX`. -/
def xactIdMax : UInt8 := 0x7f

/-- `XACT_ID_NVAL`. -/
def xactIdNval : UInt8 := 0xff

/-- `LINK_OPEN`. -/
def linkOpenOp : ℕ := 0x00

/-- `LINK_ACK`. -/
def linkAckOp : ℕ := 0x01

/-- `LINK_CLOSE`. -/
def linkCloseOp : ℕ := 0x02

/-- `PROV_BEARER_LINK_STATUS_SUCCESS`. -/
def statusSuccess : ℕ := 0

/-- `PROV_BEARER_LINK_STATUS_TIMEOUT`. -/
def statusTimeout : ℕ := 1

/-- `GPC_CTL`. -/
def gpcCtl (op : ℕ) : UInt8 := UInt8.ofNat (4 * op + 3)

/-! ## State -/

/-- What is called when a PDU of `link.tx.unacked` was sent. -/
inductive SentCb
  | none
  | ackComplete
  | bufSent (reason : ℕ)
  deriving DecidableEq, Repr

/-- `struct unacked_adv_ctx`, where it holds a PDU. -/
structure UnackedCtx where
  adv : Bytes
  cb : SentCb
  deriving DecidableEq, Repr

/-- `link`, with the flags and the fields of link management. -/
structure Bearer where
  link : Link
  /-- `ADV_PROVISIONER`. -/
  provisioner : Bool
  /-- `ADV_LINK_ACK_RECVD`. -/
  linkAckRecvd : Bool
  /-- `ADV_LINK_ACK_SENDING`. -/
  linkAckSending : Bool
  /-- `link.tx.unacked`. -/
  unacked : List (Option UnackedCtx)
  /-- `link.tx.last_unacked`. -/
  lastUnacked : ℕ
  deriving DecidableEq, Repr

/-- The bearer at start: all of it is 0. -/
def Bearer.init : Bearer where
  link :=
    { id := 0, cb := false, active := false, invalid := false, closing := false,
      ackPending := false, rx := ⟨0, 0, 0, 0, List.replicate rxBufferMax 0, 0⟩, tx := ⟨0, [], 0⟩ }
  provisioner := false
  linkAckRecvd := false
  linkAckSending := false
  unacked := [none, none]
  lastUnacked := 0

/-- What a step makes the bearer do. -/
inductive LinkOut
  /-- What a transaction does. -/
  | xact (out : Out)
  /-- `link.cb->link_opened`. -/
  | opened
  /-- `link.cb->link_closed`. -/
  | closed (reason : ℕ)
  /-- A PDU of `link.tx.unacked` is handed to `bt_mesh_adv_send`. -/
  | air (pdu : Bytes)
  deriving DecidableEq, Repr

/-- What other modules answer during one step. -/
structure LinkEnv where
  /-- `bt_mesh_adv_create` returns a buffer. -/
  adv : Bool := true
  /-- `bt_mesh_is_provisioned`. -/
  provisioned : Bool := false
  /-- What `link.tx.adv` is after `link.cb->recv`. -/
  reply : List Bytes := []
  deriving DecidableEq, Repr

/-! ## Closing -/

/-- `reset_adv_link`. -/
def resetAdvLink (provisioned : Bool) (b : Bearer) : Bearer :=
  let l := provClearTx b.link
  if b.provisioner then
    -- everything but the timers and what comes after them in the structure
    { b with
      link := { id := 0, cb := false, active := false, invalid := false, closing := false,
                ackPending := false, rx := ⟨xactIdNval, 0, 0, 0, l.rx.data, 0⟩,
                tx := ⟨0, [], xactIdNval⟩ }
      provisioner := false, linkAckRecvd := false, linkAckSending := false }
  else
    { b with
      link := { id := 0, cb := l.cb && !provisioned, active := false, invalid := false,
                closing := false, ackPending := false,
                rx := { l.rx with id := xactIdMax, len := 0 },
                tx := { l.tx with id := xactIdNval, pendingAck := xactIdNval } }
      provisioner := false, linkAckRecvd := false, linkAckSending := false }

/-- `close_link`. -/
def closeLink (provisioned : Bool) (reason : ℕ) (b : Bearer) : Bearer × List LinkOut :=
  (resetAdvLink provisioned b, [.closed reason])

/-! ## Sending what is not acknowledged -/

/-- `send_unacked`: the first free place takes the PDU. -/
def sendUnacked (ctx : UnackedCtx) : List (Option UnackedCtx) → Option (List (Option UnackedCtx))
  | [] => none
  | none :: places => some (some ctx :: places)
  | some c :: places => (sendUnacked ctx places).map (some c :: ·)

/-- `ctl_adv_create`. -/
def ctlPdu (op : ℕ) (data : Bytes) (l : Link) : Bytes :=
  beBytes 4 l.id ++ [0x00, gpcCtl op] ++ data

/-- `bearer_ctl_send_unacked`, and whether it returns no error. -/
def bearerCtlSendUnacked (adv : Bool) (pdu : Bytes) (reason : ℕ) (b : Bearer) :
    Bearer × Bool :=
  if adv then
    let b := { b with link := provClearTx b.link }
    match sendUnacked ⟨pdu, .bufSent reason⟩ b.unacked with
    | some unacked => ({ b with unacked := unacked }, true)
    | none => (b, false)
  else (b, false)

/-- `prov_link_close`. -/
def provLinkClose (env : LinkEnv) (status : ℕ) (b : Bearer) : Bearer × List LinkOut :=
  if b.link.closing then (b, [])
  else
    let b := { b with link := { b.link with closing := true } }
    match bearerCtlSendUnacked env.adv (ctlPdu linkCloseOp [UInt8.ofNat status] b.link) status b with
    | (b, true) => (b, [])
    | (b, false) => closeLink env.provisioned status b

/-- `buf_sent`. -/
def bufSent (provisioned : Bool) (reason : ℕ) (b : Bearer) : Bearer × List LinkOut :=
  let b := { b with linkAckSending := false }
  if b.link.closing then
    closeLink provisioned reason { b with link := { b.link with closing := false } }
  else (b, [])

/-- `delayed_adv_send_end`. -/
def delayedAdvSendEnd (provisioned unacked : Bool) (b : Bearer) : Bearer × List LinkOut :=
  match b.unacked.getD b.lastUnacked none with
  | some ctx =>
    if unacked then
      let (b', outs) := match ctx.cb with
        | .none => (b, [])
        | .ackComplete => ({ b with link := ackComplete b.link }, [])
        | .bufSent reason => bufSent provisioned reason b
      ({ b' with unacked := b'.unacked.set b'.lastUnacked none }, outs)
    else (b, [])
  | none => (b, [])

/-- `tx_work_handler`, for the PDUs of `link.tx.unacked`. -/
def txWorkHandler (b : Bearer) : Bearer × List LinkOut :=
  let idxs := (List.range 2).map fun i => (i + b.lastUnacked) % 2
  match idxs.findSome? fun idx => (b.unacked.getD idx none).map fun ctx => (idx, ctx) with
  | some (idx, ctx) => ({ b with lastUnacked := idx }, [.air ctx.adv])
  | none => (b, [])

/-! ## Receiving -/

/-- `link_open`. -/
def linkOpen (uuid : Bytes) (env : LinkEnv) (linkId : ℕ) (buf : Bytes) (b : Bearer) :
    Bearer × List LinkOut :=
  if buf.length < 16 then (b, [])
  else if b.link.active then
    if b.link.id ≠ linkId then (b, [])
    else if b.linkAckSending then (b, [])
    else
      let b := { b with linkAckSending := true }
      ((bearerCtlSendUnacked env.adv (ctlPdu linkAckOp [] b.link) statusSuccess b).1, [])
  else if buf.take 16 ≠ uuid then (b, [])
  else
    let b := { b with
      link := { b.link with id := linkId, active := true, rx := { b.link.rx with len := 0 } }
      linkAckSending := true }
    match bearerCtlSendUnacked env.adv (ctlPdu linkAckOp [] b.link) statusSuccess b with
    | (b, true) => (b, [.opened])
    | (b, false) => (resetAdvLink env.provisioned b, [])

/-- `link_ack`. -/
def linkAck (b : Bearer) : Bearer × List LinkOut :=
  if b.provisioner then
    if b.linkAckRecvd then (b, [])
    else ({ b with linkAckRecvd := true, link := provClearTx b.link }, [.opened])
  else (b, [])

/-- `link_close`. -/
def linkClose (env : LinkEnv) (buf : Bytes) (b : Bearer) : Bearer × List LinkOut :=
  match buf with
  | [reason] => closeLink env.provisioned reason.toNat b
  | _ => (b, [])

/-- `gen_prov_ctl`. -/
def genProvCtl (uuid : Bytes) (env : LinkEnv) (linkId : ℕ) (gpc : UInt8) (buf : Bytes)
    (b : Bearer) : Bearer × List LinkOut :=
  if gpc.toNat / 4 = linkOpenOp then linkOpen uuid env linkId buf b
  else if gpc.toNat / 4 = linkAckOp then if b.link.active then linkAck b else (b, [])
  else if gpc.toNat / 4 = linkCloseOp then if b.link.active then linkClose env buf b else (b, [])
  else (b, [])

/-- The answers that a transaction gets. -/
def xactEnv (env : LinkEnv) (b : Bearer) : Env where
  adv := env.adv
  unacked := b.unacked.any Option.isNone
  reply := env.reply

/-- The Transaction Acknowledgments that `gen_prov_ack_send` made take their
places; `pending` is `ADV_ACK_PENDING` as it was before. -/
def placeAcks (pending : Bool) (outs : List Out) (unacked : List (Option UnackedCtx)) :
    List (Option UnackedCtx) :=
  outs.foldl (fun unacked out =>
    match out with
    | .ack pdu => (sendUnacked ⟨pdu, if pending then .none else .ackComplete⟩ unacked).getD unacked
    | _ => unacked) unacked

/-- What a transaction makes of the bearer. -/
def Bearer.ofXact (b : Bearer) (r : Link × List Out) : Bearer × List LinkOut :=
  ({ b with link := r.1, unacked := placeAcks b.link.ackPending r.2 b.unacked },
    r.2.map .xact)

/-- `bt_mesh_pb_adv_recv`. -/
def Bearer.recv (uuid : Bytes) (env : LinkEnv) (pdu : Bytes) (b : Bearer) :
    Bearer × List LinkOut :=
  if ¬ b.link.cb then (b, [])
  else if pdu.length < 6 then (b, [])
  else if b.link.active ∧ b.link.id ≠ beNat (pdu.take 4) then (b, [])
  else if ((pdu.drop 5).headD 0).toNat % 4 = 3 then
    genProvCtl uuid env (beNat (pdu.take 4)) ((pdu.drop 5).headD 0) (pdu.drop 6) b
  else b.ofXact (genProvRecv (xactEnv env b) ((pdu.drop 4).headD 0) ((pdu.drop 5).headD 0)
    (pdu.drop 6) b.link)

/-! ## Calls and timers -/

/-- `prov_link_open`; `enabled` is `bt_mesh_adv_enable`, and `id` the link ID
that `bt_rand` gives. -/
def provLinkOpen (enabled : Bool) (env : LinkEnv) (id : ℕ) (uuid : Bytes) (b : Bearer) : Bearer :=
  if ¬ enabled ∨ b.link.active then b
  else
    let b := { b with
      link := { b.link with
        active := true, id := id, cb := true,
        tx := { b.link.tx with id := xactIdMax },
        rx := { b.link.rx with id := xactIdNval, len := 0 } }
      provisioner := true }
    if env.adv then
      { b with link := { b.link with tx := { b.link.tx with adv := [ctlPdu linkOpenOp uuid b.link] } } }
    else b

/-- `prov_link_accept`. -/
def provLinkAccept (enabled : Bool) (b : Bearer) : Bearer :=
  if ¬ enabled ∨ b.link.active then b
  else
    { b with link := { b.link with
        cb := true, tx := { b.link.tx with id := xactIdNval },
        rx := { b.link.rx with id := xactIdMax } } }

/-- `protocol_timeout`. -/
def protocolTimeout (env : LinkEnv) (b : Bearer) : Bearer × List LinkOut :=
  if b.link.active then
    provLinkClose env statusTimeout
      { b with link := { b.link with rx := { b.link.rx with seg := 0 } } }
  else (b, [])

/-- `prov_retransmit`; `late` says that the transaction took too long. -/
def provRetransmit (env : LinkEnv) (late : Bool) (b : Bearer) : Bearer × List LinkOut :=
  if b.link.active ∧ late then provLinkClose env statusTimeout b else (b, [])

/-- What the bearer meets. -/
inductive LinkEvent
  /-- `bt_mesh_pb_adv_recv`. -/
  | recv (env : LinkEnv) (pdu : Bytes)
  /-- `tx_work_handler`. -/
  | txWork
  /-- `delayed_adv_send_end`. -/
  | sendEnd (provisioned unacked : Bool)
  /-- `protocol_timeout`. -/
  | protTimer (env : LinkEnv)
  /-- `prov_retransmit`. -/
  | retransmit (env : LinkEnv) (late : Bool)
  /-- `prov_link_open`. -/
  | linkOpen (enabled : Bool) (env : LinkEnv) (id : ℕ) (uuid : Bytes)
  /-- `prov_link_accept`. -/
  | linkAccept (enabled : Bool)
  /-- `prov_link_close`. -/
  | linkClose (env : LinkEnv) (status : ℕ)
  /-- `prov_send_adv`, with the segments advertising has a buffer for. -/
  | send (adv : ℕ → Bool) (msg : Bytes)
  /-- `prov_clear_tx`. -/
  | clearTx
  /-- `bt_mesh_pb_adv_reset`. -/
  | reset (provisioned : Bool)

/-- One step, with what the bearer does. -/
def Bearer.step (uuid : Bytes) (b : Bearer) : LinkEvent → Bearer × List LinkOut
  | .recv env pdu => b.recv uuid env pdu
  | .txWork => txWorkHandler b
  | .sendEnd provisioned unacked => delayedAdvSendEnd provisioned unacked b
  | .protTimer env => protocolTimeout env b
  | .retransmit env late => provRetransmit env late b
  | .linkOpen enabled env id uuid => (provLinkOpen enabled env id uuid b, [])
  | .linkAccept enabled => (provLinkAccept enabled b, [])
  | .linkClose env status => provLinkClose env status b
  | .send adv msg => ({ b with link := (provSendAdv adv msg b.link).1 }, [])
  | .clearTx => ({ b with link := provClearTx b.link }, [])
  | .reset provisioned => (resetAdvLink provisioned b, [])

end PbAdv

end OpenBlue
