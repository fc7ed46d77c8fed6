import Mathlib.Data.Int.Basic
import OpenBlue.Common.Bytes
/-!
# Mesh — the advertising bearer of provisioning

The model of the transactions of `pb_adv.c`: `prov_send_adv`, which cuts a
provisioning PDU into a Transaction Start and its Continuations, and
`gen_prov_start`, `gen_prov_cont` and `gen_prov_ack`, which take them in.
What advertising has room for, and what the layer above begins to send
when it is given a message, are inputs of a reception. Timers and the
retransmission of what was sent are left out.
-/

namespace OpenBlue

namespace PbAdv

/-- The bytes of a PDU. -/
abbrev Bytes := List UInt8

/-! ## Constants -/

/-- `START_PAYLOAD_MAX`. -/
def startPayloadMax : ℕ := 20

/-- `CONT_PAYLOAD_MAX`. -/
def contPayloadMax : ℕ := 23

/-- `RX_BUFFER_MAX`. -/
def rxBufferMax : ℕ := 65

/-- `ARRAY_SIZE(link.tx.adv)`. -/
def txAdvMax : ℕ := 3

/-- `SEG_NVAL`. -/
def segNval : ℕ := 0xff

/-- `PROV_ERR_NVAL_FMT`. -/
def provErrNvalFmt : ℕ := 0x02

/-- `PROV_ERR_UNEXP_PDU`. -/
def provErrUnexpPdu : ℕ := 0x03

/-- `crc_table`. -/
def crcTable : Array UInt8 := #[
  0x00, 0x91, 0xe3, 0x72, 0x07, 0x96, 0xe4, 0x75,
  0x0e, 0x9f, 0xed, 0x7c, 0x09, 0x98, 0xea, 0x7b,
  0x1c, 0x8d, 0xff, 0x6e, 0x1b, 0x8a, 0xf8, 0x69,
  0x12, 0x83, 0xf1, 0x60, 0x15, 0x84, 0xf6, 0x67,
  0x38, 0xa9, 0xdb, 0x4a, 0x3f, 0xae, 0xdc, 0x4d,
  0x36, 0xa7, 0xd5, 0x44, 0x31, 0xa0, 0xd2, 0x43,
  0x24, 0xb5, 0xc7, 0x56, 0x23, 0xb2, 0xc0, 0x51,
  0x2a, 0xbb, 0xc9, 0x58, 0x2d, 0xbc, 0xce, 0x5f,
  0x70, 0xe1, 0x93, 0x02, 0x77, 0xe6, 0x94, 0x05,
  0x7e, 0xef, 0x9d, 0x0c, 0x79, 0xe8, 0x9a, 0x0b,
  0x6c, 0xfd, 0x8f, 0x1e, 0x6b, 0xfa, 0x88, 0x19,
  0x62, 0xf3, 0x81, 0x10, 0x65, 0xf4, 0x86, 0x17,
  0x48, 0xd9, 0xab, 0x3a, 0x4f, 0xde, 0xac, 0x3d,
  0x46, 0xd7, 0xa5, 0x34, 0x41, 0xd0, 0xa2, 0x33,
  0x54, 0xc5, 0xb7, 0x26, 0x53, 0xc2, 0xb0, 0x21,
  0x5a, 0xcb, 0xb9, 0x28, 0x5d, 0xcc, 0xbe, 0x2f,
  0xe0, 0x71, 0x03, 0x92, 0xe7, 0x76, 0x04, 0x95,
  0xee, 0x7f, 0x0d, 0x9c, 0xe9, 0x78, 0x0a, 0x9b,
  0xfc, 0x6d, 0x1f, 0x8e, 0xfb, 0x6a, 0x18, 0x89,
  0xf2, 0x63, 0x11, 0x80, 0xf5, 0x64, 0x16, 0x87,
  0xd8, 0x49, 0x3b, 0xaa, 0xdf, 0x4e, 0x3c, 0xad,
  0xd6, 0x47, 0x35, 0xa4, 0xd1, 0x40, 0x32, 0xa3,
  0xc4, 0x55, 0x27, 0xb6, 0xc3, 0x52, 0x20, 0xb1,
  0xca, 0x5b, 0x29, 0xb8, 0xcd, 0x5c, 0x2e, 0xbf,
  0x90, 0x01, 0x73, 0xe2, 0x97, 0x06, 0x74, 0xe5,
  0x9e, 0x0f, 0x7d, 0xec, 0x99, 0x08, 0x7a, 0xeb,
  0x8c, 0x1d, 0x6f, 0xfe, 0x8b, 0x1a, 0x68, 0xf9,
  0x82, 0x13, 0x61, 0xf0, 0x85, 0x14, 0x66, 0xf7,
  0xa8, 0x39, 0x4b, 0xda, 0xaf, 0x3e, 0x4c, 0xdd,
  0xa6, 0x37, 0x45, 0xd4, 0xa1, 0x30, 0x42, 0xd3,
  0xb4, 0x25, 0x57, 0xc6, 0xb3, 0x22, 0x50, 0xc1,
  0xba, 0x2b, 0x59, 0xc8, 0xbd, 0x2c, 0x5e, 0xcf]

/-- One byte of the frame check sequence. -/
def crcByte (fcs b : UInt8) : UInt8 := crcTable.getD (fcs ^^^ b).toNat 0

/-- `bt_mesh_fcs_calc`. -/
def fcsCalc (data : Bytes) : UInt8 := 0xff - data.foldl crcByte 0xff

/-- `bt_mesh_fcs_check`. -/
def fcsCheck (data : Bytes) (received : UInt8) : Bool :=
  crcByte (data.foldl crcByte 0xff) received == 0xcf

/-- `find_msb_set`: the place of the highest bit set, from 1, or 0. -/
def findMsbSet (op : ℕ) : ℕ := if op = 0 then 0 else op.log2 + 1

/-! ## State -/

/-- `link.rx`, with the storage of its buffer and the length the buffer
has. -/
structure Rx where
  /-- The most recent transaction. -/
  id : UInt8
  /-- The segments not received yet, a bit each. -/
  seg : BitVec 8
  lastSeg : ℕ
  fcs : UInt8
  data : Bytes
  len : ℕ
  deriving DecidableEq, Repr

/-- `link.tx`: the PDUs of the transaction being sent, and which Transaction
Acknowledgment is on its way. -/
structure Tx where
  id : UInt8
  adv : List Bytes
  pendingAck : UInt8
  deriving DecidableEq, Repr

/-- `struct pb_adv`. -/
structure Link where
  id : ℕ
  /-- `link.cb` is set. -/
  cb : Bool
  /-- `ADV_LINK_ACTIVE`. -/
  active : Bool
  /-- `ADV_LINK_INVALID`. -/
  invalid : Bool
  /-- `ADV_LINK_CLOSING`. -/
  closing : Bool
  /-- `ADV_ACK_PENDING`. -/
  ackPending : Bool
  rx : Rx
  tx : Tx
  deriving DecidableEq, Repr

/-- What a reception makes the bearer do. -/
inductive Out
  /-- A Transaction Acknowledgment is handed to advertising. -/
  | ack (pdu : Bytes)
  /-- `link.cb->recv`. -/
  | recv (msg : Bytes)
  /-- `link.cb->error`. -/
  | error (err : ℕ)
  /-- `link.tx.cb`: the transaction sent is complete. -/
  | sent
  deriving DecidableEq, Repr

/-- What other modules answer during one reception. -/
structure Env where
  /-- `bt_mesh_adv_create` returns a buffer. -/
  adv : Bool := true
  /-- A place of `link.tx.unacked` is free. -/
  unacked : Bool := true
  /-- What `link.tx.adv` is after `link.cb->recv`. -/
  reply : List Bytes := []
  /-- `gen_prov_ctl`: Link Open, Link Ack and Link Close. -/
  ctl : UInt8 → Bytes → Link → Link × List Out := fun _ _ l => (l, [])

/-! ## Transactions -/

/-- `last_seg`. -/
def lastSeg (len : ℕ) : ℕ :=
  if len ≤ startPayloadMax then 0 else (1 + (len - startPayloadMax) / contPayloadMax) % 2 ^ 8

/-- `next_transaction_id`. -/
def nextTransactionId (id : UInt8) : UInt8 := ((id + 1) &&& 0x7f) ||| (id &&& 0x80)

/-- `GPC_START`. -/
def gpcStart (last : ℕ) : UInt8 := UInt8.ofNat (4 * last)

/-- `GPC_ACK`. -/
def gpcAck : UInt8 := 0x01

/-- `GPC_CONT`. -/
def gpcCont (seg : ℕ) : UInt8 := UInt8.ofNat (4 * seg + 2)

/-- `XACT_SEG_OFFSET`. -/
def xactSegOffset (seg : ℕ) : ℕ := 20 + (seg - 1) * 23

/-- `XACT_SEG_RECV`. -/
def xactSegRecv (missing : BitVec 8) (seg : ℕ) : BitVec 8 := missing &&& ~~~(1#8 <<< seg)

/-- `memcpy` into the storage of a buffer. -/
def memcpy (data : Bytes) (offset : ℕ) (src : Bytes) : Bytes :=
  data.take offset ++ src ++ data.drop (offset + src.length)

/-! ## Sending -/

/-- `prov_clear_tx`. -/
def provClearTx (l : Link) : Link := { l with tx := { l.tx with adv := [] } }

/-- What a send returns, other than 0. -/
inductive Err
  | enobufs
  | e2big
  deriving DecidableEq, Repr

/-- The Continuations of `prov_send_adv` from segment `segId` on, where
`link.tx.adv` has `room` places left. -/
def sendConts (adv : ℕ → Bool) (hdr : Bytes) : ℕ → ℕ → Bytes → Except Err (List Bytes)
  | _, _, [] => .ok []
  | _, 0, _ :: _ => .error .e2big
  | segId, room + 1, b :: msg =>
    if adv segId then do
      let rest ← sendConts adv hdr (segId + 1) room ((b :: msg).drop contPayloadMax)
      return (hdr ++ [gpcCont segId] ++ (b :: msg).take contPayloadMax) :: rest
    else .error .enobufs

/-- `prov_send_adv`, where `adv_create` has a buffer for the segments `adv`
says. -/
def provSendAdv (adv : ℕ → Bool) (msg : Bytes) (l : Link) : Link × Option Err :=
  let l := provClearTx l
  if adv 0 then
    let l := { l with tx := { l.tx with id := nextTransactionId l.tx.id } }
    let hdr := beBytes 4 l.id ++ [l.tx.id]
    let start := hdr ++ [gpcStart (lastSeg msg.length)] ++ beBytes 2 msg.length ++ [fcsCalc msg] ++
      msg.take startPayloadMax
    match sendConts adv hdr 1 (txAdvMax - 1) (msg.drop startPayloadMax) with
    | .ok conts => ({ l with tx := { l.tx with adv := start :: conts } }, none)
    | .error e => (l, some e)
  else (l, some .enobufs)

/-! ## Receiving -/

/-- `gen_prov_ack_send`. -/
def genProvAckSend (env : Env) (xactId : UInt8) (l : Link) : Link × List Out :=
  if l.ackPending ∧ l.tx.pendingAck = xactId then (l, [])
  else if env.adv then
    let l' := if l.ackPending then l else { l with tx := { l.tx with pendingAck := xactId } }
    if env.unacked then
      ({ l' with ackPending := true }, [.ack (beBytes 4 l.id ++ [xactId, gpcAck])])
    else ({ l' with ackPending := false }, [])
  else ({ l with ackPending := false }, [])

/-- The acknowledgment of a transaction already received is sent again,
unless another is on its way. -/
def resendAck (env : Env) (xactId : UInt8) (l : Link) : Link × List Out :=
  if l.ackPending then (l, []) else genProvAckSend env xactId l

/-- `prov_failed`. -/
def provFailed (err : ℕ) (l : Link) : Link × List Out :=
  ({ l with invalid := true }, [.error err])

/-- `prov_msg_recv`. -/
def provMsgRecv (env : Env) (l : Link) : Link × List Out :=
  let msg := l.rx.data.take l.rx.len
  if fcsCheck msg l.rx.fcs then
    let (l, acks) := genProvAckSend env l.rx.id l
    if l.invalid then
      let (l, errors) := provFailed provErrUnexpPdu l
      (l, acks ++ errors)
    else ({ l with tx := { l.tx with adv := env.reply } }, acks ++ [.recv msg])
  else (l, [])

/-- The Start of a new transaction is lost: its Continuations are kept
until the number of segments is known. -/
def startLost (xactId : UInt8) (l : Link) : Link :=
  provClearTx { l with rx := { l.rx with
    id := xactId, len := 0, seg := BitVec.ofNat 8 segNval, lastSeg := segNval } }

/-- `gen_prov_cont`, once the transaction is the one being received. -/
def contStore (env : Env) (seg : ℕ) (buf : Bytes) (l : Link) : Link × List Out :=
  if seg > l.rx.lastSeg ∨ seg = 0 then provFailed provErrNvalFmt l
  else if ¬ l.rx.seg.getLsbD seg then (l, [])
  else if xactSegOffset seg + buf.length > rxBufferMax then (l, [])
  else
    let l := { l with rx := { l.rx with
      data := memcpy l.rx.data (xactSegOffset seg) buf, seg := xactSegRecv l.rx.seg seg } }
    if seg = l.rx.lastSeg ∧ ¬ l.rx.seg.getLsbD 0 ∧
        ((l.rx.len : Int) - 20 - ((l.rx.lastSeg : Int) - 1) * 23) % 2 ^ 8 ≠ buf.length then
      provFailed provErrNvalFmt l
    else if l.rx.seg = 0 then provMsgRecv env l
    else (l, [])

/-- `gen_prov_cont`. -/
def genProvCont (env : Env) (xactId gpc : UInt8) (buf : Bytes) (l : Link) : Link × List Out :=
  let seg := gpc.toNat / 4
  if l.rx.seg = 0 ∧ l.rx.id = xactId then resendAck env xactId l
  else if l.tx.adv ≠ [] then (l, [])
  else if l.rx.seg = 0 ∧ nextTransactionId l.rx.id = xactId then
    contStore env seg buf (startLost xactId l)
  else if xactId ≠ l.rx.id then (l, [])
  else contStore env seg buf l

/-- `gen_prov_ack`. -/
def genProvAck (xactId : UInt8) (l : Link) : Link × List Out :=
  if l.tx.adv = [] then (l, [])
  else if xactId = l.tx.id then (if l.closing then l else provClearTx l, [.sent])
  else (l, [])

/-- Whether a Continuation received before the Start is beyond the last
segment the Start names. -/
def pastLast (seg : BitVec 8) (last : ℕ) : Bool :=
  seg.getLsbD 0 && seg.toNat ≠ segNval && findMsbSet (~~~seg).toNat - 1 > last

/-- `gen_prov_start`, once its length and segment number are accepted. -/
def startStore (env : Env) (last : ℕ) (buf : Bytes) (l : Link) : Link × List Out :=
  let l := provClearTx { l with rx := { l.rx with lastSeg := last } }
  if pastLast l.rx.seg last then provFailed provErrNvalFmt l
  else
    let seg := if l.rx.seg ≠ 0 then l.rx.seg else BitVec.ofNat 8 segNval
    let l := { l with rx := { l.rx with
      seg := xactSegRecv (seg &&& BitVec.ofNat 8 (2 ^ (last + 1) - 1)) 0,
      data := memcpy l.rx.data 0 buf } }
    if l.rx.seg = 0 then provMsgRecv env l else (l, [])

/-- `gen_prov_start`. -/
def genProvStart (env : Env) (xactId gpc : UInt8) (buf : Bytes) (l : Link) : Link × List Out :=
  let last := gpc.toNat / 4
  if xactId = l.rx.id ∧ l.rx.seg = 0 then resendAck env xactId l
  else if l.tx.adv ≠ [] then (l, [])
  else if xactId = l.rx.id ∧ ¬ l.rx.seg.getLsbD 0 then (l, [])
  else if xactId ≠ l.rx.id ∧ xactId ≠ nextTransactionId l.rx.id then (l, [])
  else
    let l := { l with rx := { l.rx with
      len := beNat (buf.take 2), id := xactId, fcs := (buf.drop 2).headD 0 } }
    let buf := buf.drop 3
    if l.rx.len < 1 then provFailed provErrNvalFmt l
    else if l.rx.len > rxBufferMax then provFailed provErrNvalFmt l
    else if l.rx.len < buf.length then provFailed provErrNvalFmt l
    else if last > 0 ∧ l.rx.len ≤ 20 then provFailed provErrNvalFmt l
    else if last ≠ lastSeg l.rx.len then provFailed provErrNvalFmt l
    else startStore env last buf l

/-- `gen_prov_recv`. -/
def genProvRecv (env : Env) (xactId gpc : UInt8) (buf : Bytes) (l : Link) : Link × List Out :=
  match gpc.toNat % 4 with
  | 0 =>
    if buf.length < 3 then (l, [])
    else if l.active then genProvStart env xactId gpc buf l else (l, [])
  | 1 => if l.active then genProvAck xactId l else (l, [])
  | 2 => if l.active then genProvCont env xactId gpc buf l else (l, [])
  | _ => env.ctl gpc buf l

/-- `bt_mesh_pb_adv_recv`. -/
def btMeshPbAdvRecv (env : Env) (pdu : Bytes) (l : Link) : Link × List Out :=
  if ¬ l.cb then (l, [])
  else if pdu.length < 6 then (l, [])
  else if l.active ∧ l.id ≠ beNat (pdu.take 4) then (l, [])
  else genProvRecv env ((pdu.drop 4).headD 0) ((pdu.drop 5).headD 0) (pdu.drop 6) l

/-- `ack_complete`: the acknowledgment on its way was sent. -/
def ackComplete (l : Link) : Link := { l with ackPending := false }

/-- What a link hears of one transaction: a PDU, or that advertising sent
its acknowledgment. -/
inductive Event
  | recv (env : Env) (pdu : Bytes)
  | ackComplete

/-- One event. -/
def Link.step (l : Link) : Event → Link × List Out
  | .recv env pdu => btMeshPbAdvRecv env pdu l
  | .ackComplete => (PbAdv.ackComplete l, [])

/-- A run of events, with all the bearer does. -/
def Link.run (l : Link) : List Event → Link × List Out
  | [] => (l, [])
  | e :: es => (((l.step e).1.run es).1, (l.step e).2 ++ ((l.step e).1.run es).2)

end PbAdv

end OpenBlue
