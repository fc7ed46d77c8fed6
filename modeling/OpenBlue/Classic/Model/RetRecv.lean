import OpenBlue.Classic.Model.Conf
/-!
# BR/EDR L2CAP — receiving in a retransmission mode

The model of `bt_l2cap_br_ret_fc_recv` and of what it calls: S-frames,
I-frames and their sequence numbers, and the SDUs put together from
segments. The `seg_recv` API is compiled out, as it is by default.
-/

namespace OpenBlue

namespace Classic

/-- What the application and the buffer pools answer while a frame is
received. -/
structure RecvEnv where
  /-- The buffer of `br_tx_pool` that an S-frame may need. -/
  id : Option ℕ := none
  /-- `ops->alloc_buf` returns a buffer. -/
  alloc : Bool := true
  /-- `bt_buf_append_bytes` stores the whole segment. -/
  stored : Bool := true
  /-- `ops->recv` succeeds, or takes the buffer. -/
  taken : Bool := true
  deriving DecidableEq, Repr

namespace Chan

/-- `bt_l2cap_br_check_tx_seq_out_of_sequence`. -/
def txSeqOutOfSequence (c : Chan) (txSeq : ℕ) : Bool :=
  let outstandingFrames :=
    sub16 (c.bufferSeq + c.rx.maxWindow) c.expectedTxSeq % c.tx.layout.seqMax
  let txFrames := sub16 txSeq c.expectedTxSeq % c.tx.layout.seqMax
  txFrames ≠ 0 && decide (txFrames < outstandingFrames)

/-- `bt_l2cap_br_check_tx_seq_duplicated`. -/
def txSeqDuplicated (c : Chan) (txSeq : ℕ) : Bool :=
  let outstandingFrames := sub16 (sub16 c.expectedTxSeq c.bufferSeq) 1 % c.tx.layout.seqMax
  let txFrames := sub16 txSeq c.bufferSeq % c.tx.layout.seqMax
  txFrames ≤ outstandingFrames

/-- `bt_l2cap_br_update_srej`. -/
def updateSrej (c : Chan) (reqSeq : ℕ) : List Out × Chan :=
  let o := c.assertSeq
  let c :=
    if c.reqSeqValid reqSeq then
      match c.outstanding.find? fun w => (c.win w).txSeq = reqSeq with
      | some w => { c with win := Function.update c.win w { c.win w with srej := true } }
      | none => c
    else c.disconnect
  (o, if c.hasData then c.raiseDataReady else c)

/-- `bt_l2cap_br_update_r`. -/
def updateR (c : Chan) (r : Bool) (id : Option ℕ) : Chan :=
  if c.rx.mode ≠ .ret then c
  else if !r then
    if !c.flags.recvFrameR then c
    else
      let c := c.setFlags { c.flags with recvFrameR := false, recvFrameRChanged := true }
      (if c.outstandingCount ≠ 0 then c.startRetTimer
        else c.startMonitorTimer).sendSFrameOrDisconnect id
  else if c.flags.recvFrameR then c
  else
    (c.setFlags { c.flags with
      recvFrameR := true, recvFrameRChanged := true }).startMonitorTimer.sendSFrameOrDisconnect id

/-- `bt_l2cap_br_update_f`: whether the F bit answers a poll. -/
def updateF (c : Chan) (f : Bool) : Bool × Chan :=
  if c.rx.mode = .stream then (true, c)
  else if !f then (true, c)
  else if !c.flags.sendFramePChanged && !c.flags.sendFrameP then (false, c)
  else
    let c :=
      if c.flags.sendFramePChanged then c
      else
        let c := c.setFlags { c.flags with sendFrameP := false }
        if c.outstandingCount ≠ 0 then c.startRetTimer else c.startMonitorTimer
    (true, if c.hasData then c.raiseDataReady else c)

/-- What an F bit asks for where no rejection has been acted on. -/
def retransmitOnF (c : Chan) (f : Bool) : Chan :=
  if f then
    if c.flags.rejActioned then c.setFlags { c.flags with rejActioned := false }
    else c.setFlags { c.flags with retIFrame := true, reqSeqUpdated := true }
  else c

/-- The case `BT_L2CAP_CONTROL_S_RR` of `bt_l2cap_br_ret_fc_s_recv`. -/
def recvRr (c : Chan) (ctl : SControl) (id : Option ℕ) : List Out × Chan :=
  let c :=
    if ctl.p then c.setFlags { c.flags with recvFrameP := true }
    else if !c.flags.sendFrameRej || ctl.f then c.setFlags { c.flags with newIFrame := true }
    else c
  let (_, o, c) := c.updateReqSeq ctl.reqSeq false
  let remoteBusy := c.flags.remoteBusy
  let c := (c.setFlags { c.flags with remoteBusy := false }).retransmitOnF ctl.f
  if ctl.p then
    let c := (c.setFlags { c.flags with newIFrame := true }).sendSFrameOrDisconnect id
    (o, if remoteBusy && c.outstandingCount ≠ 0 then c.startRetTimer else c)
  else (o, c)

/-- The case `BT_L2CAP_CONTROL_S_REJ`. -/
def recvRej (c : Chan) (ctl : SControl) : List Out × Chan :=
  if c.rx.mode = .fc then ([], c)
  else
    let c := c.setFlags { c.flags with remoteBusy := false, newIFrame := true }
    let c := if !ctl.f && c.flags.sendFrameP then c.setFlags { c.flags with rejActioned := true } else c
    let c :=
      if !ctl.f && c.flags.sendFrameRej then
        c.setFlags { c.flags with retIFrame := true, reqSeqUpdated := true }
      else c
    ((c.retransmitOnF ctl.f).updateReqSeq ctl.reqSeq true).2

/-- The case `BT_L2CAP_CONTROL_S_RNR`. -/
def recvRnr (c : Chan) (ctl : SControl) (id : Option ℕ) : List Out × Chan :=
  if c.rx.mode ≠ .eret then ([], c)
  else
    let c := if ctl.p then c.setFlags { c.flags with recvFrameP := true } else c
    let (_, o, c) := (c.setFlags { c.flags with remoteBusy := true }).updateReqSeq ctl.reqSeq false
    let c := if !ctl.p then c.startMonitorTimer else c
    let c :=
      if !c.flags.sendFrameRej then
        c.startMonitorTimer.setFlags { c.startMonitorTimer.flags with retIFrame := false }
      else c
    (o, if ctl.p || c.flags.sendFrameRej then c.sendSFrameOrDisconnect id else c)

/-- The case `BT_L2CAP_CONTROL_S_SREJ`. -/
def recvSrej (c : Chan) (ctl : SControl) : List Out × Chan :=
  if c.rx.mode ≠ .eret then ([], c)
  else
    let (o, c) := c.updateSrej ctl.reqSeq
    let c :=
      if ctl.p then c.setFlags { c.flags with recvFrameP := true, newIFrame := true } else c
    let c := c.setFlags { c.flags with remoteBusy := false }
    let c :=
      if ctl.f then
        let actioned := c.flags.srejActioned
        let c := c.setFlags { c.flags with srejActioned := false }
        if actioned && c.srejSaveReqSeq = ctl.reqSeq then c
        else c.setFlags { c.flags with retReqIFrame := true }
      else
        let c := c.setFlags { c.flags with retReqIFrame := true }
        if c.flags.sendFrameP then
          { c with srejSaveReqSeq := ctl.reqSeq }.setFlags { c.flags with srejActioned := true }
        else c
    if ctl.p then
      let (_, o', c) := c.updateReqSeq ctl.reqSeq false
      (o ++ o', c)
    else (o, c)

/-- The R bit of the standard format and the F bit of the others. -/
def updateBits (c : Chan) (f r : Bool) (id : Option ℕ) : Bool × Chan :=
  match c.rx.mode with
  | .eret | .stream => c.updateF f
  | _ => (true, c.updateR r id)

/-- `bt_l2cap_br_ret_fc_s_recv`. -/
def retFcSRecv (c : Chan) (ctl : SControl) (id : Option ℕ) : List Out × Chan :=
  if c.rx.mode = .stream then ([], c)
  else
    match c.updateBits ctl.f ctl.r id with
    | (false, c) => ([], c)
    | (true, c) =>
      match ctl.s with
      | .rr => c.recvRr ctl id
      | .rej => c.recvRej ctl
      | .rnr => c.recvRnr ctl id
      | .srej => c.recvSrej ctl

/-- `bt_l2cap_br_update_expected_tx_seq`. -/
def updateExpectedTxSeq (c : Chan) (seq : ℕ) (id : Option ℕ) : Chan :=
  if c.rx.mode = .stream then c
  else
    let c := { c with
      bufferSeq := c.expectedTxSeq
      expectedTxSeq := seq % 2 ^ 16 % c.rx.layout.seqMax }
    if c.hasData then c.raiseDataReady else c.sendSFrameOrDisconnect id

/-- `bt_l2cap_br_rej_exception`. -/
def rejException (c : Chan) (id : Option ℕ) : Chan :=
  if c.flags.sendFrameRej then c
  else
    (c.setFlags { c.flags with
      sendFrameRej := true, sendFrameRejChanged := true }).sendSFrameOrDisconnect id

/-- A failure of `bt_l2cap_br_recv_seg`: the SDU is dropped. -/
def dropSdu (c : Chan) : Chan := { c with sdu := none }.disconnect

/-- The rest of `bt_l2cap_br_recv_seg`, of a segment without its SDU
length. The first component says whether it is `-ENOBUFS`. The source
compares the length of the first buffer of `_sdu`, which is that of the SDU
where the buffers of the application hold a whole one. -/
def storeSeg (c : Chan) (sar : Sar) (seg : Bytes) (env : RecvEnv) : Bool × List Out × Chan :=
  match c.sdu with
  | none =>
    if c.rx.mode = .fc ∨ c.rx.mode = .stream then (true, [], c) else (false, [], c.disconnect)
  | some sdu =>
    if c.sduLen < sdu.length + seg.length then (false, [], c.dropSdu)
    else if !env.stored then (false, [], c.dropSdu)
    else if sar = .unseg ∨ sar = .fin then
      if (sdu ++ seg).length < c.sduLen then (false, [], c.dropSdu)
      else
        let c := { c with sdu := none, sduLen := 0 }
        (false, [.delivered (sdu ++ seg)], if env.taken then c else c.disconnect)
    else (false, [], { c with sdu := some (sdu ++ seg) })

/-- `bt_l2cap_br_recv_seg`. -/
def recvSeg (c : Chan) (sar : Sar) (seg : Bytes) (env : RecvEnv) : Bool × List Out × Chan :=
  if sar = .unseg ∨ sar = .start then
    if c.sdu.isSome then (false, [], c.dropSdu)
    else if !env.alloc then (true, [], c)
    else if sar = .unseg then
      { c with sdu := some [], sduLen := seg.length }.storeSeg sar seg env
    else { c with sdu := some [], sduLen := getLe16 seg }.storeSeg sar (seg.drop 2) env
  else c.storeSeg sar seg env

/-- The code from `valid_frame` on. `expected` says that the frame is the
next one. -/
def validFrame (c : Chan) (ctl : IControl) (info : Bytes) (expected : Bool) (env : RecvEnv) :
    List Out × Chan :=
  if ctl.sar = .start ∧ info.length < 2 then ([], c.disconnect)
  else
    let (expected, o, c) : Bool × List Out × Chan :=
      if c.allocBuf then
        match c.recvSeg ctl.sar info env with
        | (false, o, c) => (expected, o, c)
        | (true, o, c) =>
          (expected && c.rx.mode ≠ .ret && c.rx.mode ≠ .eret, o,
            if c.rx.mode = .eret ∧ !c.flags.localBusy then
              (c.setFlags { c.flags with
                localBusy := true, localBusyChanged := true }).sendSFrameOrDisconnect env.id
            else c)
      else (expected, [.delivered info], if env.taken then c else c.disconnect)
    (o, if expected then c.updateExpectedTxSeq (ctl.txSeq + 1) env.id else c)

/-- What `bt_l2cap_br_ret_fc_i_recv` finds a sequence number to be. -/
inductive SeqKind
  /-- The frame is taken. -/
  | expected
  /-- The frame is discarded, what it acknowledges is not. -/
  | discard
  /-- The frame is ignored. -/
  | invalid
  deriving DecidableEq, Repr

/-- The comparison of `tx_seq` with what is expected. -/
def checkTxSeq (c : Chan) (txSeq : ℕ) (id : Option ℕ) : SeqKind × Chan :=
  if c.expectedTxSeq = txSeq then (.expected, c)
  else if c.txSeqDuplicated txSeq then (.discard, c)
  else if c.txSeqOutOfSequence txSeq then
    if c.rx.mode = .fc then (.expected, c) else (.discard, c.rejException id)
  else (.invalid, c)

/-- `bt_l2cap_br_ret_fc_i_recv`. -/
def retFcIRecv (c : Chan) (ctl : IControl) (info : Bytes) (env : RecvEnv) : List Out × Chan :=
  match c.updateBits ctl.f ctl.r env.id with
  | (false, c) => ([], c)
  | (true, c) =>
    if c.rx.mode = .stream then
      (c.updateExpectedTxSeq (ctl.txSeq + 1) env.id).validFrame ctl info false env
    else
      let c := if c.reqSeq = ctl.txSeq then c.setFlags { c.flags with sendFrameRej := false } else c
      match c.checkTxSeq ctl.txSeq env.id with
      | (.invalid, c) => ([], c)
      | (kind, c) =>
        match c.updateReqSeq ctl.reqSeq false with
        | (false, o, c) => (o, c)
        | (true, o, c) =>
          if kind = .discard then (o, c)
          else
            let c :=
              if c.rx.mode = .eret ∧ ctl.f then
                if c.flags.rejActioned then c.setFlags { c.flags with rejActioned := false }
                else c.setFlags { c.flags with
                  newIFrame := true, retIFrame := true, reqSeqUpdated := true }
              else c
            let (o', c) := c.validFrame ctl info true env
            (o ++ o', c)

/-- `bt_l2cap_br_ret_fc_recv`. -/
def retFcRecv (c : Chan) (buf : Bytes) (env : RecvEnv) : List Out × Chan :=
  match c.rx.parse buf with
  | .disconnect => ([], c.disconnect)
  | .discard => ([], c)
  | .frame (.s ctl) => c.retFcSRecv ctl env.id
  | .frame (.i ctl info) => c.retFcIRecv ctl info env

/-- `bt_l2cap_br_chan_recv_complete`. -/
def recvComplete (c : Chan) (id : Option ℕ) : Chan :=
  if c.rx.mode = .eret ∧ c.flags.localBusy then
    let c := c.setFlags { c.flags with localBusy := false }
    if !c.flags.localBusyChanged && !c.flags.sendFrameP then
      let c := ({ c with retryCount := 1 }.setFlags { c.flags with
        sendFrameP := true }).startMonitorTimer
      (c.setFlags { c.flags with sendFramePChanged := true }).sendSFrameOrDisconnect id
    else if c.flags.localBusyChanged then c.setFlags { c.flags with localBusyChanged := false }
    else c
  else c

end Chan

/-! ## Runs -/

/-- What happens to a channel. -/
inductive Event
  /-- An SDU is queued, in a buffer with this headroom. -/
  | send (id : ℕ) (head sdu : Bytes) (cb : Bool)
  /-- The link asks for at most `amount` bytes. -/
  | pull (amount : ℕ) (alloc : Bool)
  /-- A frame arrives. -/
  | recv (buf : Bytes) (env : RecvEnv)
  | retTimeout (id : Option ℕ)
  | monitorTimeout (id : Option ℕ)
  | recvComplete (id : Option ℕ)
  /-- A Configuration Request arrives. -/
  | confReq (f : ConfFeats) (opts : Bytes)
  /-- A Configuration Response arrives that carries the identifier of the
  Disconnection Request. It may ask for whatever parameters. A connected
  channel waits for no response. -/
  | confRsp (tx rx : Endpoint)
  deriving DecidableEq

/-- One event. A channel in basic mode sends and receives elsewhere. -/
def Chan.react (c : Chan) : Event → List Out × Chan
  | .send id head sdu cb => ([], c.send id head sdu cb)
  | .pull amount alloc => if c.tx.mode = .basic then ([], c) else c.dataPull amount alloc
  | .recv buf env => if c.rx.mode = .basic then ([], c) else c.retFcRecv buf env
  | .retTimeout id => c.retTimeout id
  | .monitorTimeout id => ([], c.monitorTimeout id)
  | .recvComplete id => ([], c.recvComplete id)
  | .confReq f opts => ([], c.confReq f opts)
  | .confRsp tx rx => ([], if c.state = .disconnecting then { c with tx, rx } else c)

/-- The channel after an event. -/
def Chan.step (c : Chan) (e : Event) : Chan := (c.react e).2

/-- What an event puts out. -/
def Chan.emit (c : Chan) (e : Event) : List Out := (c.react e).1

end Classic

end OpenBlue
