import OpenBlue.Mesh.Model.Net
/-!
# Mesh — lower transport, sending side

The model of the sending half of `transport.c`: unsegmented and
segmented sends, the segment contexts `seg_tx` with their blocking,
retransmission and acknowledgement, and the SeqAuth each message is
given. What other modules answer during a call (advertising buffers,
segment buffers, the Friend queue, the cryptography) is an input of the
call, so that every failure can happen at every call.
-/

namespace OpenBlue

namespace Mesh

/-! ## Constants -/

/-- The bytes of a PDU. -/
abbrev Bytes := List UInt8

/-- `BT_MESH_SDU_UNSEG_MAX`. -/
def sduUnsegMax : Nat := 11

/-- `BT_MESH_MIC_SHORT` and `BT_MESH_MIC_LONG`. -/
def appMicLen (aszmic : Bool) : Nat := if aszmic then 8 else 4

/-- `seg_len`: `BT_MESH_CTL_SEG_SDU_MAX` or `BT_MESH_APP_SEG_SDU_MAX`. -/
def segLen (ctl : Bool) : Nat := if ctl then 8 else 12

/-- `BT_MESH_TX_SDU_MAX` and `BT_MESH_RX_SDU_MAX`, from the number of
segments: a segmented SDU, or an unsegmented one of 15 bytes. -/
def sduMax (segMax : Nat) : Nat := max (segMax * segLen false) 15

/-- `BT_MESH_ADDR_IS_UNICAST`. -/
def isUnicast (addr : Nat) : Bool := decide (0 < addr) && decide (addr < 0x8000)

/-- `BT_MESH_ADDR_IS_VIRTUAL`. -/
def isVirtual (addr : Nat) : Bool := decide (0x8000 ≤ addr) && decide (addr < 0xc000)

/-- `SEQ_AUTH`, a 64-bit value. -/
def seqAuth (ivIndex seq : Nat) : Nat := (ivIndex <<< 24 ||| seq) % 2 ^ 64

/-- `TRANS_SEQ_ZERO_MASK` applied. -/
def seqZero (auth : Nat) : Nat := auth &&& 0x1fff

/-- `TRANS_CTL_HDR`. -/
def transCtlHdr (op : Nat) (seg : Bool) : Nat := (op &&& 0x7f) ||| (if seg then 0x80 else 0)

/-- `UNSEG_HDR`. -/
def unsegHdr (akf : Bool) (aid : Nat) : Nat := (if akf then 0x40 else 0) ||| (aid &&& 0x3f)

/-- `SEG_HDR`. -/
def segHdr (akf : Bool) (aid : Nat) : Nat := unsegHdr akf aid ||| 0x80

/-- The error codes the transport returns. -/
inductive Err
  | inval
  | msgsize
  | nobufs
  | busy
  | badmsg
  | nomem
  | already
  | noent
  /-- An error of another module, passed on. -/
  | passed
  deriving DecidableEq, Repr

/-! ## State -/

/-- One transmit context (`struct seg_tx`). The callback, its timestamps
and the transmit parameters handed on to the network layer are left out. -/
structure SegTx where
  /-- The segment buffers; `none` where none is held. -/
  seg : List (Option Bytes)
  seqAuth : Nat := 0
  src : Nat := 0
  dst : Nat := 0
  ackSrc : Nat := 0
  len : Nat := 0
  hdr : Nat := 0
  segN : Nat := 0
  segO : Nat := 0
  nackCount : Nat := 0
  attemptsLeft : Nat := 0
  attemptsLeftWithoutProgress : Nat := 0
  blocked : Bool := false
  ctl : Bool := false
  aszmic : Bool := false
  segSendStarted : Bool := false
  ackReceived : Bool := false
  /-- The retransmit work item is scheduled. -/
  timer : Bool := false
  deriving DecidableEq, Repr, Inhabited

/-- The build options and the SAR transmitter state. -/
structure TransCfg where
  net : NetCfg := {}
  /-- `CONFIG_BT_MESH_TX_SEG_MAX`, at most 32. -/
  txSegMax : Nat := 3
  /-- `CONFIG_BT_MESH_RX_SEG_MAX`, at most 32. -/
  rxSegMax : Nat := 3
  /-- `CONFIG_BT_MESH_FRIEND`. -/
  friend : Bool := false
  unicastRetransCount : Nat := 4
  unicastRetransWithoutProgCount : Nat := 2
  multicastRetransCount : Nat := 2
  /-- `BT_MESH_SAR_RX_ACK_RETRANS_COUNT`. -/
  rxAckRetransCount : Nat := 0
  /-- `BT_MESH_SAR_RX_SEG_THRESHOLD`. -/
  rxSegThreshold : Nat := 3
  defaultTtl : Nat := 7

/-- The sending node: the network layer and the contexts `seg_tx`. -/
structure Trans where
  net : Net
  segTx : List SegTx
  deriving DecidableEq, Repr

/-- A node with free contexts. -/
def transInit (cfg : TransCfg) (net : Net) (contexts : Nat) : Trans where
  net := net
  segTx := List.replicate contexts { seg := List.replicate cfg.txSegMax none }

/-- The transmit parameters (`struct bt_mesh_net_tx` and its context). -/
structure NetTx where
  src : Nat
  /-- `ctx->addr`. -/
  addr : Nat
  sendTtl : Nat := 0xff
  sendRel : Bool := false
  /-- `BT_MESH_IS_DEV_KEY(ctx->app_idx)`. -/
  devKey : Bool := false
  aid : Nat := 0
  aszmic : Bool := false
  deriving DecidableEq, Repr

/-- What the application nonce is made of (`bt_mesh_app_crypto_ctx`). -/
structure AppCrypto where
  devKey : Bool
  aszmic : Bool
  src : Nat
  dst : Nat
  seqNum : UInt32
  ivIndex : UInt32
  deriving DecidableEq, Repr

/-- How `bt_mesh_net_send` ends. -/
inductive NetSend
  /-- `net_header_encode` refuses: no sequence number is used. -/
  | header
  /-- The loopback, the TTL or the encryption fails, behind the header. -/
  | failed
  | sent
  deriving DecidableEq, Repr

/-- What other modules answer during one call. -/
structure SendEnv where
  /-- `bt_mesh_keys_resolve`: the AID, or an error. -/
  keys : Option Nat := some 0
  /-- `bt_mesh_app_encrypt`. -/
  encrypt : AppCrypto → Bytes → Option Bytes
  /-- `bt_mesh_adv_create`. -/
  adv : Bool := true
  netSend : NetSend := .sent
  /-- `bt_mem_pool_alloc(&segs)`, for each segment in turn. -/
  segAlloc : Nat → Bool := fun _ => true
  /-- `bt_mesh_friend_queue_has_space`. -/
  friendSpace : Bool := true
  /-- `bt_mesh_friend_enqueue_tx`: some LPN takes this segment. -/
  friendTakes : Nat → Bool := fun _ => false

/-- The state a call leaves, the error it returns (`none` for 0), and
the PDU it handed to the bearers, with its message's SeqAuth. -/
structure TxRet where
  s : Trans
  err : Option Err := none
  onAir : List (Nat × Bytes) := []

/-! ## Contexts -/

/-- `bt_mesh_tx_in_progress`. -/
def txInProgress (segTx : List SegTx) : Bool := segTx.any fun tx => tx.nackCount != 0

/-- The loop of `seg_tx_reset`: the first `nack` buffers held in the
first `k` places are freed. -/
def dropSegs : Nat → Nat → List (Option Bytes) → List (Option Bytes)
  | 0, _, l => l
  | _, 0, l => l
  | _, _, [] => []
  | nack + 1, k + 1, none :: l => none :: dropSegs (nack + 1) k l
  | nack + 1, k + 1, some _ :: l => none :: dropSegs nack k l

/-- `seg_tx_reset` on the context itself. -/
def SegTx.reset (tx : SegTx) : SegTx :=
  { tx with
    seqAuth := 0, src := 0, dst := 0, ackSrc := 0, blocked := false
    seg := dropSegs tx.nackCount (tx.segN + 1) tx.seg
    nackCount := 0, segSendStarted := false, ackReceived := false, timer := false }

/-- `seg_tx_reset`, which ends by releasing a deferred IV update. -/
def segTxReset (cfg : TransCfg) (i : Nat) (s : Trans) : Trans :=
  let segTx := s.segTx.modify i SegTx.reset
  { s with segTx := segTx, net := releasePending cfg.net (txInProgress segTx) s.net }

/-- `seg_tx_blocks`. -/
def SegTx.blocks (tx : SegTx) (src dst : Nat) : Bool := tx.src == src && tx.dst == dst

/-- The loop of `seg_tx_unblock_check`: of the blocked contexts to the
same peer, the one with the least SeqAuth. -/
def findBlocked (i : Nat) (tx : SegTx) : Nat → Option (Nat × Nat) → List SegTx → Option Nat
  | _, best, [] => best.map (·.1)
  | j, best, t :: ts =>
    if j ≠ i ∧ t.blocked ∧ tx.blocks t.src t.dst ∧ best.all (fun b => t.seqAuth < b.2) then
      findBlocked i tx (j + 1) (some (j, t.seqAuth)) ts
    else findBlocked i tx (j + 1) best ts

/-- `seg_tx_unblock_check`. -/
def segTxUnblockCheck (i : Nat) (s : Trans) : Trans :=
  match s.segTx[i]? with
  | none => s
  | some tx =>
    match findBlocked i tx 0 none s.segTx with
    | none => s
    | some j =>
      { s with segTx := s.segTx.modify j fun t => { t with blocked := false, timer := true } }

/-- `seg_tx_complete`. -/
def segTxComplete (cfg : TransCfg) (i : Nat) (s : Trans) : Trans :=
  segTxReset cfg i (segTxUnblockCheck i s)

/-- `seg_tx_buf_build`: the segmentation header and the segment. -/
def segTxBufBuild (tx : SegTx) (segO : Nat) : Bytes :=
  let sz := seqZero tx.seqAuth
  let len := min (segLen tx.ctl) (tx.len - segLen tx.ctl * segO)
  [UInt8.ofNat tx.hdr,
    UInt8.ofNat ((if tx.aszmic then 0x80 else 0) ||| sz >>> 6),
    UInt8.ofNat ((sz &&& 0x3f) <<< 2 ||| segO >>> 3),
    UInt8.ofNat ((segO &&& 0x07) <<< 5 ||| tx.segN)] ++
  ((tx.seg.getD segO none).getD []).take len

/-! ## Transmission -/

/-- `bt_mesh_net_send` on a PDU of the message with this SeqAuth. -/
def netSend (cfg : TransCfg) (env : SendEnv) (auth : Nat) (pdu : Bytes) (s : Trans) : TxRet :=
  match env.netSend with
  | .header => { s := s, err := some .inval }
  | .failed => { s := { s with net := (nextSeq cfg.net s.net).1 }, err := some .passed }
  | .sent => { s := { s with net := (nextSeq cfg.net s.net).1 }, onAir := [(auth, pdu)] }

/-- The first segment from `segO` on that is still held. -/
def nextSeg (tx : SegTx) : Option Nat :=
  (List.range' tx.segO (tx.segN + 1 - tx.segO)).find? fun o => (tx.seg.getD o none).isSome

/-- The label `end` of `seg_tx_send_unacked`: the timer is set. -/
def SegTx.rearm (tx : SegTx) : SegTx := { tx with ackReceived := false, timer := true }

/-- All segments have been sent: one attempt is used up. -/
def SegTx.passDone (tx : SegTx) : SegTx :=
  { tx with
    segO := 0
    attemptsLeft := tx.attemptsLeft - 1
    attemptsLeftWithoutProgress :=
      if isUnicast tx.dst && !tx.ackReceived then tx.attemptsLeftWithoutProgress - 1
      else tx.attemptsLeftWithoutProgress }

/-- The state with context `i` replaced. -/
def Trans.put (s : Trans) (i : Nat) (tx : SegTx) : Trans := { s with segTx := s.segTx.set i tx }

/-- The body of the loop of `seg_tx_send_unacked`, at a segment that is
still held. -/
def sendSegment (cfg : TransCfg) (env : SendEnv) (i : Nat) (tx : SegTx) (o : Nat) (s : Trans) :
    TxRet :=
  let tx := { tx with segO := o }
  if !env.adv then { s := s.put i tx.rearm }
  else
    let ret := netSend cfg env tx.seqAuth (segTxBufBuild tx o) s
    if ret.err.isSome then { s := ret.s.put i tx.rearm }
    else { s := ret.s.put i { tx with segO := o + 1, ackReceived := false }, onAir := ret.onAir }

/-- `seg_tx_send_unacked`. -/
def segTxSendUnacked (cfg : TransCfg) (env : SendEnv) (i : Nat) (s : Trans) : TxRet :=
  match s.segTx[i]? with
  | none => { s := s }
  | some tx =>
    if tx.nackCount = 0 then { s := s }
    else if isUnicast tx.dst && tx.attemptsLeftWithoutProgress == 0 then
      { s := segTxComplete cfg i s }
    else if tx.attemptsLeft = 0 then { s := segTxComplete cfg i s }
    else
      match nextSeg tx with
      | none => { s := s.put i tx.passDone.rearm }
      | some o => sendSegment cfg env i tx o s

/-- The scan of `send_seg`: whether a transfer to the peer is under way,
and the first context that is free. -/
def segTxScan (src dst : Nat) : Nat → Bool × Option Nat → List SegTx → Bool × Option Nat
  | _, acc, [] => acc
  | i, (blocked, free), t :: ts =>
    if t.nackCount ≠ 0 then segTxScan src dst (i + 1) (blocked || t.blocks src dst, free) ts
    else segTxScan src dst (i + 1) (blocked, free <|> some i) ts

/-- Whether a transfer to the same peer is under way. -/
def Trans.blocked (s : Trans) (tx : NetTx) : Bool :=
  (segTxScan tx.src tx.addr 0 (false, none) s.segTx).1

/-- The header of a segmented message. -/
def NetTx.segHdr (tx : NetTx) (ctlOp : Option Nat) : Nat :=
  match ctlOp with
  | some op => transCtlHdr op true
  | none => if tx.devKey then Mesh.segHdr false 0 else Mesh.segHdr true tx.aid

/-- The header of an unsegmented message. -/
def NetTx.unsegHdr (tx : NetTx) (ctlOp : Option Nat) : Nat :=
  match ctlOp with
  | some op => transCtlHdr op false
  | none => if tx.devKey then Mesh.unsegHdr false 0 else Mesh.unsegHdr true tx.aid

/-- The context `send_seg` sets up, before it has any segment. `seg_n` and
`nack_count` have eight bits: control SDUs of over 2040 bytes are left
out. -/
def segTxSetup (cfg : TransCfg) (tx : NetTx) (sdu : Bytes) (ctlOp : Option Nat) (blocked : Bool)
    (net : Net) (t : SegTx) : SegTx :=
  let segN := (sdu.length - 1) / segLen ctlOp.isSome
  { t with
    hdr := tx.segHdr ctlOp
    src := tx.src
    dst := tx.addr
    segN := segN
    segO := 0
    len := sdu.length
    nackCount := segN + 1
    seqAuth := seqAuth net.iviTx.toNat net.seq.toNat
    attemptsLeft :=
      (if isUnicast tx.addr then cfg.unicastRetransCount else cfg.multicastRetransCount) + 1
    attemptsLeftWithoutProgress := cfg.unicastRetransWithoutProgCount + 1
    aszmic := tx.aszmic
    blocked := blocked
    segSendStarted := false
    ctl := ctlOp.isSome }

/-- Whether the Friend queue keeps segment `o` to itself. -/
def friendOnly (cfg : TransCfg) (env : SendEnv) (tx : NetTx) (o : Nat) : Bool :=
  cfg.friend && env.friendTakes o && isUnicast tx.addr

/-- The segmentation loop of `send_seg`, from segment `o` on with this
much of the SDU left. A segment past the array is dropped here, where
the source would write past `tx->seg`. -/
def cutSegs (cfg : TransCfg) (env : SendEnv) (tx : NetTx) (ctl : Bool) :
    Nat → Nat → Bytes → List (Option Bytes) → List (Option Bytes) × Bool
  | 0, _, _, segs => (segs, true)
  | fuel + 1, o, sdu, segs =>
    if sdu.isEmpty then (segs, true)
    else if !env.segAlloc o then (segs, false)
    else
      let part := sdu.take (segLen ctl)
      let kept := if friendOnly cfg env tx o then none else some part
      cutSegs cfg env tx ctl fuel (o + 1) (sdu.drop (segLen ctl)) (segs.set o kept)

/-- The context with its segments, and whether all got a buffer. -/
def SegTx.cut (t : SegTx) (cfg : TransCfg) (env : SendEnv) (tx : NetTx) (sdu : Bytes) :
    SegTx × Bool :=
  let r := cutSegs cfg env tx t.ctl sdu.length 0 sdu t.seg
  ({ t with seg := r.1 }, r.2)

/-- `send_seg`. -/
def sendSeg (cfg : TransCfg) (env : SendEnv) (tx : NetTx) (sdu : Bytes) (ctlOp : Option Nat)
    (s : Trans) : TxRet :=
  match segTxScan tx.src tx.addr 0 (false, none) s.segTx with
  | (_, none) => { s := s, err := some .busy }
  | (blocked, some i) =>
    let t := segTxSetup cfg tx sdu ctlOp blocked s.net (s.segTx.getD i default)
    if cfg.friend && !env.friendSpace && isUnicast tx.addr then
      { s := segTxReset cfg i (s.put i t), err := some .nobufs }
    else
      let cut := t.cut cfg env tx sdu
      let s := s.put i cut.1
      if !cut.2 then { s := segTxReset cfg i s, err := some .nobufs }
      -- This can happen if segments only went into the Friend Queue
      else if cfg.friend && (cut.1.seg.getD 0 none).isNone then { s := segTxReset cfg i s }
      -- Move the sequence number, so we don't end up creating another
      -- segmented transmission with the same SeqZero
      else if blocked then { s := { s with net := (nextSeq cfg.net s.net).1 } }
      else segTxSendUnacked cfg env i s

/-- `send_unseg`. -/
def sendUnseg (cfg : TransCfg) (env : SendEnv) (tx : NetTx) (sdu : Bytes) (ctlOp : Option Nat)
    (s : Trans) : TxRet :=
  let auth := seqAuth s.net.iviTx.toNat s.net.seq.toNat
  if !env.adv then { s := s, err := some .nobufs }
  else if cfg.friend && !env.friendSpace && isUnicast tx.addr then
    { s := s, err := some .nobufs }
  -- PDUs for a specific Friend should only go out through the Friend Queue.
  else if env.friendSpace && friendOnly cfg env tx 0 then { s := s }
  else netSend cfg env auth (UInt8.ofNat (tx.unsegHdr ctlOp) :: sdu) s

/-- The TTL a send uses, unless it is too large. -/
def TransCfg.ttl (cfg : TransCfg) (sendTtl : Nat) : Option Nat :=
  if sendTtl = 0xff then some cfg.defaultTtl else if sendTtl > 0x7f then none else some sendTtl

/-- The nonce fields of `trans_encrypt`. -/
def transEncrypt (net : Net) (tx : NetTx) : AppCrypto where
  devKey := tx.devKey
  aszmic := tx.aszmic
  src := tx.src
  dst := tx.addr
  seqNum := net.seq
  ivIndex := net.iviTx

/-- The checks and the encryption of `bt_mesh_trans_send`, on a message
with this much tailroom: the parameters and the SDU it then sends. -/
def sendPlan (cfg : TransCfg) (env : SendEnv) (tx : NetTx) (msg : Bytes) (tailroom : Nat)
    (net : Net) : Except Err (NetTx × Bytes) :=
  if msg.length < 1 then .error .inval
  else if msg.length > sduMax cfg.txSegMax - appMicLen false then .error .msgsize
  else if tailroom < appMicLen false then .error .inval
  else
    match cfg.ttl tx.sendTtl with
    | none => .error .inval
    | some ttl =>
      let sendRel := tx.sendRel || decide (msg.length > sduUnsegMax)
      if tx.addr = 0 ∨ (!isUnicast tx.addr && tx.devKey) then .error .inval
      else
        match env.keys with
        | none => .error .passed
        | some aid =>
          let tx := { tx with
            sendTtl := ttl, sendRel := sendRel, aid := aid
            aszmic := sendRel && decide (tailroom ≥ 8) }
          match env.encrypt (transEncrypt net tx) msg with
          | none => .error .passed
          | some sdu => .ok (tx, sdu)

/-- The checks of `bt_mesh_ctl_send`. -/
def ctlPlan (cfg : TransCfg) (tx : NetTx) (data : Bytes) : Except Err NetTx :=
  match cfg.ttl tx.sendTtl with
  | none => .error .inval
  | some ttl =>
    if tx.addr = 0 ∨ isVirtual tx.addr then .error .inval
    else .ok { tx with
      sendTtl := ttl, sendRel := tx.sendRel || decide (data.length > sduUnsegMax) }

/-- The end of both send functions. -/
def sendSdu (cfg : TransCfg) (env : SendEnv) (tx : NetTx) (sdu : Bytes) (ctlOp : Option Nat)
    (s : Trans) : TxRet :=
  if tx.sendRel then sendSeg cfg env tx sdu ctlOp s else sendUnseg cfg env tx sdu ctlOp s

/-- `bt_mesh_trans_send`. -/
def transSend (cfg : TransCfg) (env : SendEnv) (tx : NetTx) (msg : Bytes) (tailroom : Nat)
    (s : Trans) : TxRet :=
  match sendPlan cfg env tx msg tailroom s.net with
  | .error err => { s := s, err := some err }
  | .ok (tx, sdu) => sendSdu cfg env tx sdu none s

/-- `bt_mesh_ctl_send`. -/
def ctlSend (cfg : TransCfg) (env : SendEnv) (tx : NetTx) (ctlOp : Nat) (data : Bytes)
    (s : Trans) : TxRet :=
  match ctlPlan cfg tx data with
  | .error err => { s := s, err := some err }
  | .ok tx => sendSdu cfg env tx data (some ctlOp) s

/-! ## Acknowledgements -/

/-- `seg_tx_lookup`, from context `i` on; the flag says the ack came from
a Friend, whose address is then kept. -/
def segTxLookup (sz : Nat) (obo : Bool) (addr : Nat) : Nat → List SegTx → Option (Nat × Bool)
  | _, [] => none
  | i, tx :: txs =>
    if seqZero tx.seqAuth ≠ sz then segTxLookup sz obo addr (i + 1) txs
    else if tx.dst = addr then some (i, false)
    else if obo ∧ (tx.nackCount = tx.segN + 1 ∨ tx.ackSrc = addr) then some (i, true)
    else segTxLookup sz obo addr (i + 1) txs

/-- The segments of the ack bitmap are done (`seg_tx_done` each). -/
def SegTx.acked (tx : SegTx) (ack : Nat) : SegTx :=
  let done := fun o => ack.testBit o && (tx.seg.getD o none).isSome
  let count := ((List.range 32).filter done).length
  { tx with
    seg := tx.seg.mapIdx fun o b => if ack.testBit o then none else b
    nackCount := tx.nackCount - count }

/-- The rest of `trans_ack`, on the context the ack is for. -/
def ackContext (cfg : TransCfg) (i ack : Nat) (s : Trans) : Trans × Option Err :=
  let tx := s.segTx.getD i default
  if !isUnicast tx.dst then (s, some .inval)
  else if ack = 0 then (segTxComplete cfg i s, none)
  else if ack.log2 > tx.segN then (s, some .inval)
  else
    let progress := (List.range 32).any fun o => ack.testBit o && (tx.seg.getD o none).isSome
    let tx := tx.acked ack
    let tx := if progress then
        { tx with attemptsLeftWithoutProgress := cfg.unicastRetransWithoutProgCount + 1 }
      else tx
    if tx.nackCount ≠ 0 then
      let tx := if tx.segO = 0 then { tx with timer := true } else { tx with ackReceived := true }
      ({ s with segTx := s.segTx.set i tx }, none)
    else (segTxComplete cfg i { s with segTx := s.segTx.set i tx }, none)

/-- `trans_ack` on a well-formed ack for this node: SeqZero `sz`, the OBO
bit and the block bitmap `ack`. -/
def transAck (cfg : TransCfg) (addr : Nat) (obo : Bool) (sz ack : Nat) (s : Trans) :
    Trans × Option Err :=
  match segTxLookup sz obo addr 0 s.segTx with
  | none => (s, some .noent)
  | some (i, false) => ackContext cfg i ack s
  | some (i, true) =>
    ackContext cfg i ack
      { s with segTx := s.segTx.modify i fun t => { t with ackSrc := addr } }

/-! ## Runs -/

/-- What can happen to the sending node. -/
inductive TransEvent
  /-- `bt_mesh_trans_send`. -/
  | send (env : SendEnv) (tx : NetTx) (msg : Bytes) (tailroom : Nat)
  /-- `bt_mesh_ctl_send`. -/
  | ctl (env : SendEnv) (tx : NetTx) (ctlOp : Nat) (data : Bytes)
  /-- The retransmit timer of a context fires (`seg_retransmit`). -/
  | retransmit (env : SendEnv) (i : Nat)
  /-- The advertiser is done with a segment (`seg_sent`). -/
  | segSent (i : Nat)
  /-- A Segment Acknowledgment arrives. -/
  | ack (addr : Nat) (obo : Bool) (sz ack : Nat)
  /-- A beacon or a Friend Update. -/
  | ivUpdate (ivIndex : UInt32) (ivUpdate : Bool)
  /-- The IV Update timer fires. -/
  | ivuRefresh
  /-- Any other PDU is given its header (relayed friend PDUs, beacons). -/
  | transmit

/-- The pair a message sent now is given. -/
def Trans.pair (s : Trans) : UInt32 × UInt32 := (s.net.iviTx, s.net.seq)

/-- One event of the sending node: what it returns and puts on air. -/
def transRet (cfg : TransCfg) (s : Trans) : TransEvent → TxRet
  | .send env tx msg tailroom => transSend cfg env tx msg tailroom s
  | .ctl env tx op data => ctlSend cfg env tx op data s
  | .retransmit env i =>
    segTxSendUnacked cfg env i { s with segTx := s.segTx.modify i ({ · with timer := false }) }
  | .segSent i =>
    { s := { s with
        segTx := s.segTx.modify i fun t => if t.nackCount ≠ 0 then { t with timer := true } else t } }
  | .ack addr obo sz ack => { s := (transAck cfg addr obo sz ack s).1 }
  | .ivUpdate iv flag =>
    { s := { s with net := (netIvUpdate cfg.net (txInProgress s.segTx) iv flag s.net).1 } }
  | .ivuRefresh => { s := { s with net := ivuRefresh cfg.net (txInProgress s.segTx) s.net } }
  | .transmit => { s := { s with net := (nextSeq cfg.net s.net).1 } }

/-- One step of the sending node. -/
def transStep (cfg : TransCfg) (s : Trans) (e : TransEvent) : Trans := (transRet cfg s e).s

/-- The pair given to the message a step accepts: a send function
returned 0. -/
def transAccepted (cfg : TransCfg) (s : Trans) (e : TransEvent) : List (UInt32 × UInt32) :=
  match e with
  | .send _ _ _ _ | .ctl _ _ _ _ => if (transRet cfg s e).err.isNone then [s.pair] else []
  | _ => []

/-- What a step puts on air. -/
def transOnAir (cfg : TransCfg) (s : Trans) (e : TransEvent) : List (Nat × Bytes) :=
  (transRet cfg s e).onAir

end Mesh

end OpenBlue
