import OpenBlue.Common.Bytes
import Mathlib.Algebra.Order.Floor.Div
/-!
# L2CAP — one credit-based channel

The model of `struct bt_l2cap_le_chan` and of what `l2cap.c` does to one
channel: an SDU queued by `bt_l2cap_dyn_chan_send`, cut into K-frames and
fragments by `l2cap_data_pull`, and put together again by
`l2cap_chan_le_recv`. What a channel asks the signalling channel to send,
the SDUs it delivers, the faults it disconnects for and the assertions
that fail are collected in an `Outcome`. The `seg_recv` API is compiled
out, as it is by default.
-/

namespace OpenBlue

namespace L2cap

/-- The bytes of a buffer. -/
abbrev Bytes := List UInt8

/-- The build options: `BT_L2CAP_RX_MTU`, which Kconfig keeps at 23 or
more, and `BT_L2CAP_SDU_CHAN_SEND_RESERVE`; both are sizes of buffers. -/
structure Cfg where
  rxMtu : ℕ
  sendReserve : ℕ
  rxMtu_ge : 23 ≤ rxMtu
  rxMtu_lt : rxMtu < 2 ^ 16
  sendReserve_lt : sendReserve + 1 < 2 ^ 16

/-- `L2CAP_LE_CID_IS_FIXED`. -/
def cidIsFixed (cid : ℕ) : Prop := 0x0001 ≤ cid ∧ cid ≤ 0x003f

/-- `L2CAP_LE_CID_IS_DYN`. -/
def cidIsDyn (cid : ℕ) : Prop := 0x0040 ≤ cid ∧ cid ≤ 0x007f

/-- `L2CAP_LE_PSM_IS_DYN`. -/
def psmIsDyn (psm : ℕ) : Prop := 0x0080 ≤ psm ∧ psm ≤ 0x00ff

instance : DecidablePred cidIsFixed := fun _ => inferInstanceAs (Decidable (_ ∧ _))

instance : DecidablePred cidIsDyn := fun _ => inferInstanceAs (Decidable (_ ∧ _))

instance : DecidablePred psmIsDyn := fun _ => inferInstanceAs (Decidable (_ ∧ _))

/-- `get_ident`. The counter is one for all connections, so its value is
an input; 0 is not a valid identifier. -/
def getIdent (counter : UInt8) : UInt8 := if counter + 1 = 0 then 1 else counter + 1

/-- `bt_l2cap_chan_state_t`, without the BR/EDR state. -/
inductive ChanState
  | disconnected
  | connecting
  | connected
  | disconnecting
  deriving DecidableEq, Repr

/-- The opcodes `pending_req` can hold. -/
inductive ReqOp
  | leConn
  | ecredConn
  | ecredReconf
  | disconn
  deriving DecidableEq, Repr

/-- `struct bt_l2cap_le_endpoint`. -/
structure Endpoint where
  cid : ℕ := 0
  mtu : ℕ := 0
  mps : ℕ := 0
  credits : ℕ := 0
  deriving DecidableEq, Repr

/-- One fragment of a buffer: its bytes and its tailroom. -/
structure Frag where
  data : Bytes := []
  room : ℕ
  deriving DecidableEq, Repr

/-- `_sdu`: the fragments behind the head are in reverse order, the last
one first. -/
structure SduBuf where
  head : Frag
  chained : List Frag := []
  deriving DecidableEq, Repr

/-- `struct bt_l2cap_le_chan`. -/
structure Chan where
  /-- `chan.conn` is the connection. -/
  attached : Bool := false
  /-- `chan.destroy` is `l2cap_chan_destroy`: not a fixed channel. -/
  destroy : Bool := false
  state : ChanState := .disconnected
  rx : Endpoint := {}
  tx : Endpoint := {}
  pendingRxMtu : ℕ := 0
  psm : ℕ := 0
  ident : UInt8 := 0
  pendingReq : Option ReqOp := none
  requiredSec : ℕ := 0
  /-- `BT_L2CAP_STATUS_OUT`. -/
  out : Bool := false
  /-- `BT_L2CAP_STATUS_SHUTDOWN`. -/
  shutdown : Bool := false
  /-- `BT_L2CAP_STATUS_ENCRYPT_PENDING`. -/
  encryptPending : Bool := false
  txQueue : List Bytes := []
  /-- `_pdu_remaining`. -/
  pduRemaining : ℕ := 0
  /-- `_sdu`. -/
  sdu : Option SduBuf := none
  /-- `_sdu_len`. -/
  sduLen : ℕ := 0
  rxQueue : List Bytes := []
  /-- `ops->alloc_buf` is set. -/
  allocBuf : Bool := true
  /-- SDUs the application keeps until `bt_l2cap_chan_recv_complete`. -/
  held : ℕ := 0
  /-- How often the channel was attached. -/
  added : ℕ := 0
  /-- How often its `disconnected` path was run. -/
  deleted : ℕ := 0
  deriving DecidableEq, Repr

/-! ## Outcomes -/

/-- What a channel asks the signalling channel to send. -/
inductive ChanSig
  /-- `struct bt_l2cap_le_credits`. -/
  | credits (n : ℕ)
  /-- `struct bt_l2cap_disconn_req`, with its identifier. -/
  | disconnReq (ident : UInt8)
  deriving DecidableEq, Repr

/-- Why a channel is disconnected, by what the code logs there. -/
inductive Fault
  /-- "No credits to receive packet". -/
  | noCredits
  /-- "PDU size > MPS". -/
  | pduTooLong
  /-- "Too short data packet". -/
  | tooShort
  /-- "Invalid SDU length". -/
  | sduTooLong
  /-- "Unable to allocate buffer for SDU". -/
  | noBuffer
  /-- "SDU length mismatch". -/
  | sduMismatch
  /-- "Unable to store SDU". -/
  | notStored
  /-- The error of the `recv` callback. -/
  | recvError
  /-- "Credits overflow". -/
  | creditsOverflow
  deriving DecidableEq, Repr

/-- The conditions that the receive path takes for granted. -/
inductive Assertion
  /-- The channel is connected. -/
  | state
  /-- The peer has used all its credits. -/
  | credits
  /-- There is an SDU to add a segment to. -/
  | sdu
  deriving DecidableEq, Repr

/-- What a call did to a channel. -/
structure Outcome where
  chan : Chan
  sent : List ChanSig := []
  delivered : List Bytes := []
  faults : List Fault := []
  failed : List Assertion := []
  deriving DecidableEq, Repr

/-- One call after another. -/
def Outcome.andThen (o : Outcome) (f : Chan → Outcome) : Outcome :=
  let o' := f o.chan
  { chan := o'.chan
    sent := o.sent ++ o'.sent
    delivered := o.delivered ++ o'.delivered
    faults := o.faults ++ o'.faults
    failed := o.failed ++ o'.failed }

/-! ## Setting up -/

/-- `l2cap_chan_tx_init`. -/
def Chan.txInit (ch : Chan) : Chan := { ch with tx := {}, txQueue := [] }

/-- `l2cap_chan_rx_init`. -/
def Chan.rxInit (cfg : Cfg) (ch : Chan) : Chan :=
  let mtu := if ch.rx.mtu = 0 then cfg.rxMtu - 2 else ch.rx.mtu
  let mps := min (mtu + 2) cfg.rxMtu
  let mtu := if ¬ ch.allocBuf ∧ mps < mtu + 2 then mps - 2 else mtu
  { ch with rx := { ch.rx with mtu := mtu, mps := mps, credits := 1 } }

/-! ## Sending -/

/-- A buffer that the application hands to `bt_l2cap_chan_send`; its
length field has sixteen bits. -/
structure SendBuf where
  data : Bytes
  headroom : ℕ
  ref : ℕ := 1
  fits : headroom + data.length < 2 ^ 16
  deriving DecidableEq, Repr

/-- `bt_l2cap_dyn_chan_send` up to the queue, or `none` where the buffer
is refused. -/
def Chan.dynSend (cfg : Cfg) (buf : SendBuf) (ch : Chan) : Option Chan :=
  if ch.tx.mtu < buf.data.length then none
  else if buf.ref ≠ 1 then none
  else if buf.headroom < cfg.sendReserve then none
  else some { ch with txQueue := ch.txQueue ++ [le16 buf.data.length ++ buf.data] }

/-- `chan_has_credits`. -/
def Chan.hasCredits (ch : Chan) : Prop := cidIsDyn ch.tx.cid → 1 ≤ ch.tx.credits

instance (ch : Chan) : Decidable ch.hasCredits := inferInstanceAs (Decidable (_ → _))

/-- `chan_take_credit`. -/
def Chan.takeCredit (ch : Chan) : Chan :=
  if cidIsDyn ch.tx.cid then
    { ch with
      tx := { ch.tx with credits := ch.tx.credits - 1 }
      out := ch.out && decide (ch.tx.credits - 1 ≠ 0) }
  else ch

/-- `get_pdu_len`. -/
def Chan.pduLen (ch : Chan) (pdu : Bytes) : ℕ :=
  if cidIsDyn ch.tx.cid then min pdu.length ch.tx.mps else pdu.length

/-- The header of `l2cap_data_pull`, pushed in front of the buffer when no
PDU is under way. -/
def Chan.startPdu (ch : Chan) : Chan :=
  match ch.txQueue with
  | [] => ch
  | pdu :: rest =>
    if ch.pduRemaining = 0 then
      let pduLen := ch.pduLen pdu
      { ch with
        txQueue := (le16 pduLen ++ le16 ch.tx.cid ++ pdu) :: rest
        pduRemaining := pduLen + 4 }.takeCredit
    else ch

/-- One fragment of `l2cap_data_pull`. The buffer leaves the queue with
the last fragment of its last segment. -/
def Chan.pullFrag (amount : ℕ) (ch : Chan) : Chan × Bytes :=
  match ch.txQueue with
  | [] => (ch, [])
  | pdu :: rest =>
    let n := min amount ch.pduRemaining
    let lastFrag := ch.pduRemaining ≤ amount
    let lastSeg := ch.pduRemaining = pdu.length
    ({ ch with
        txQueue := if lastFrag ∧ lastSeg then rest else pdu.drop n :: rest
        pduRemaining := ch.pduRemaining - amount },
      pdu.take n)

/-- `l2cap_chan_tx_give_credits` up to the ready list. -/
def Chan.giveCredits (n : ℕ) (ch : Chan) : Chan :=
  { ch with tx := { ch.tx with credits := ch.tx.credits + n }, out := true }

/-! ## Disconnecting -/

/-- `bt_l2cap_chan_disconnect`: `buf` is the counter of `get_ident`, or
`none` where there is no buffer for the request. -/
def Chan.disconnect (buf : Option UInt8) (ch : Chan) : Outcome :=
  match buf with
  | none => { chan := ch }
  | some counter =>
    if ch.attached then
      let ident := getIdent counter
      { chan := { ch with ident := ident, pendingReq := some .disconn, state := .disconnecting }
        sent := [.disconnReq ident] }
    else { chan := ch }

/-- A disconnection for a fault. -/
def Chan.disconnectFor (fault : Fault) (buf : Option UInt8) (ch : Chan) : Outcome :=
  { ch.disconnect buf with faults := [fault] }

/-- `l2cap_chan_shutdown`. -/
def Chan.shutDown (ch : Chan) : Chan :=
  { ch with
    shutdown := true
    sdu := none
    sduLen := if ch.sdu.isSome then 0 else ch.sduLen
    txQueue := []
    rxQueue := [] }

/-! ## Receiving -/

/-- What the `recv` callback returns. -/
inductive RecvRet
  | ok
  /-- `-EINPROGRESS`: the application keeps the SDU. -/
  | inProgress
  | error
  deriving DecidableEq, Repr

/-- What the environment answers while one K-frame is processed. -/
structure RecvEnv where
  /-- The tailroom of the buffer from `alloc_buf`. -/
  alloc : Option ℕ := none
  /-- The tailroom of the fragments it hands out after that. -/
  frags : List ℕ := []
  recv : RecvRet := .ok
  /-- The `recv` callback calls `bt_l2cap_chan_disconnect` first. -/
  closes : Bool := false
  closeBuf : Option UInt8 := none
  /-- There is a buffer for the credits of a first segment. -/
  segCredits : Bool := true
  /-- There is a buffer for a single credit. -/
  credits : Bool := true
  /-- The buffer for a disconnection request. -/
  disc : Option UInt8 := none
  deriving DecidableEq, Repr

/-- The bytes of an SDU. -/
def SduBuf.data (s : SduBuf) : Bytes :=
  s.head.data ++ s.chained.reverse.flatMap Frag.data

/-- The bytes that fit are added to a fragment. -/
def Frag.add (f : Frag) (bytes : Bytes) : Frag :=
  { data := f.data ++ bytes.take f.room, room := f.room - bytes.length }

/-- The room of the last fragment. -/
def SduBuf.room (s : SduBuf) : ℕ :=
  match s.chained with
  | [] => s.head.room
  | f :: _ => f.room

/-- Bytes are added to the last fragment. -/
def SduBuf.add (s : SduBuf) (bytes : Bytes) : SduBuf :=
  match s.chained with
  | [] => { s with head := s.head.add bytes }
  | f :: fs => { s with chained := f.add bytes :: fs }

/-- `bt_buf_append_bytes`: whether all bytes were added. A new fragment is
taken for what does not fit. -/
def SduBuf.append : List ℕ → Bytes → SduBuf → SduBuf × Bool
  | frags, bytes, s =>
    let rest := bytes.drop s.room
    let s := s.add bytes
    if rest = [] then (s, true)
    else
      match frags with
      | [] => (s, false)
      | room :: frags => SduBuf.append frags rest { s with chained := { room := room } :: s.chained }

/-- `l2cap_chan_send_credits`. -/
def Chan.sendCredits (buf : Bool) (n : ℕ) (ch : Chan) : Outcome :=
  let state := if ch.state = .connected then [] else [Assertion.state]
  if buf then
    { chan := { ch with rx := { ch.rx with credits := n } }
      sent := [.credits n]
      failed := state ++ if ch.rx.credits = 0 then [] else [.credits] }
  else { chan := ch.shutDown, failed := state }

/-- The `recv` callback and what follows from its result. -/
def Chan.recvCallback (env : RecvEnv) (sdu : Bytes) (ch : Chan) : Outcome :=
  let o : Outcome := if env.closes then ch.disconnect env.closeBuf else { chan := ch }
  { o with delivered := [sdu] : Outcome }.andThen fun (ch : Chan) =>
    match env.recv with
    | .error => ch.disconnectFor .recvError env.disc
    | .inProgress => { chan := { ch with held := ch.held + 1 } }
    | .ok => if ch.state = .connected then ch.sendCredits env.credits 1 else { chan := ch }

/-- `l2cap_chan_le_recv_sdu`. -/
def Chan.recvSdu (env : RecvEnv) (sdu : Bytes) (ch : Chan) : Outcome :=
  let state := if ch.state = .connected then [] else [Assertion.state]
  let credits := if ch.rx.credits = 0 then [] else [Assertion.credits]
  { chan := ch, failed := state ++ credits : Outcome }.andThen (Chan.recvCallback env sdu)

/-- `l2cap_chan_le_recv_seg`. The lengths compared are those of the head
of the SDU's fragments. -/
def Chan.recvSeg (env : RecvEnv) (buf : Bytes) (ch : Chan) : Outcome :=
  match ch.sdu with
  | none => { chan := ch, failed := [.sdu] }
  | some sdu =>
    if ch.sduLen < sdu.head.data.length + buf.length then
      ch.disconnectFor .sduMismatch env.disc
    else
      let r := sdu.append env.frags buf
      let ch := { ch with sdu := some r.1 }
      if r.2 = false then ch.disconnectFor .notStored env.disc
      else if r.1.head.data.length < ch.sduLen then
        if ch.rx.credits = 0 then ch.sendCredits env.credits 1 else { chan := ch }
      else { ch with sdu := none, sduLen := 0 }.recvSdu env r.1.data

/-- The credits for the rest of an SDU: `sdu_len - buf->len` is an `int`
that is compared as an unsigned number. -/
def extraCredits (sduLen len room mps : ℕ) : ℕ :=
  (if len ≤ sduLen then min (sduLen - len) room else room) ⌈/⌉ mps

/-- The first segment of an SDU in `l2cap_chan_le_recv`, behind its
length. -/
def Chan.recvFirst (env : RecvEnv) (sduLen : ℕ) (buf : Bytes) (ch : Chan) : Outcome :=
  if ch.allocBuf then
    match env.alloc with
    | none => ch.disconnectFor .noBuffer env.disc
    | some room =>
      let ch := { ch with sdu := some ⟨⟨[], room⟩, []⟩, sduLen := sduLen }
      let credits := extraCredits sduLen buf.length room ch.rx.mps
      let o : Outcome :=
        if credits = 0 then { chan := ch } else ch.sendCredits env.segCredits credits
      o.andThen (Chan.recvSeg env buf)
  else ch.recvCallback env buf

/-- `l2cap_chan_le_recv`. -/
def Chan.leRecv (env : RecvEnv) (buf : Bytes) (ch : Chan) : Outcome :=
  if ch.rx.credits = 0 then ch.disconnectFor .noCredits env.disc
  else
    let ch := { ch with rx := { ch.rx with credits := ch.rx.credits - 1 } }
    if ch.rx.mps < buf.length then ch.disconnectFor .pduTooLong env.disc
    else if ch.sdu.isSome then ch.recvSeg env buf
    else if buf.length < 2 then ch.disconnectFor .tooShort env.disc
    else if ch.rx.mtu < getLe16 buf then ch.disconnectFor .sduTooLong env.disc
    else ch.recvFirst env (getLe16 buf) (buf.drop 2)

/-- `l2cap_chan_recv_queue`. -/
def Chan.recvQueue (env : RecvEnv) (buf : Bytes) (ch : Chan) : Outcome :=
  if ch.state = .disconnecting then { chan := ch }
  else if ch.shutdown then { chan := ch }
  else if ¬ psmIsDyn ch.psm then ch.leRecv env buf
  else { chan := { ch with rxQueue := ch.rxQueue ++ [buf] } }

/-- One turn of the loop of `l2cap_rx_process`. -/
def Chan.rxProcess (env : RecvEnv) (ch : Chan) : Outcome :=
  match ch.rxQueue with
  | [] => { chan := ch }
  | buf :: rest => { ch with rxQueue := rest }.leRecv env buf

/-- `bt_l2cap_chan_recv_complete`, for an SDU that the application keeps. -/
def Chan.recvComplete (buf : Bool) (ch : Chan) : Outcome :=
  let ch := { ch with held := ch.held - 1 }
  if ch.attached ∧ ch.state = .connected then ch.sendCredits buf 1 else { chan := ch }

end L2cap

end OpenBlue
