import OpenBlue.Classic.Model.Frame
/-!
# BR/EDR L2CAP — one channel in a retransmission mode

The model of the part of `struct bt_l2cap_br_chan` that
`CONFIG_BT_L2CAP_RET_FC` adds and of what `l2cap_br.c` does to it: the
transmit windows, `l2cap_br_ret_fc_data_pull` and what queues frames for
it, the acknowledgements and the two timers. Timers may expire whenever
they are looked at, and whether a buffer can be allocated is an input.
-/

namespace OpenBlue

namespace Classic

open Function

/-- The flags of `br_chan->flags` that the retransmission modes use. -/
structure Flags where
  retTimer : Bool := false
  pduRetrans : Bool := false
  recvFrameP : Bool := false
  recvFrameR : Bool := false
  recvFrameRChanged : Bool := false
  sendFrameRej : Bool := false
  sendFrameRejChanged : Bool := false
  sendFrameP : Bool := false
  sendFramePChanged : Bool := false
  sendSFrame : Bool := false
  remoteBusy : Bool := false
  localBusy : Bool := false
  localBusyChanged : Bool := false
  rejActioned : Bool := false
  srejActioned : Bool := false
  retIFrame : Bool := false
  newIFrame : Bool := false
  retReqIFrame : Bool := false
  reqSeqUpdated : Bool := false
  deriving DecidableEq, Repr

/-- What `closure_data` of a queued buffer says. -/
inductive UserData
  /-- An SDU of the application, with or without a callback. -/
  | app (cb : Bool)
  /-- `L2CAP_BR_ZL_I_FRAME_UD_FLAG`. -/
  | zeroLen
  /-- `L2CAP_BR_S_FRAME_UD_FLAG_SET`. -/
  | sFrame (s : SType)
  deriving DecidableEq, Repr

/-- `struct bt_buf_simple_state`. -/
structure BufState where
  offset : ℕ := 0
  len : ℕ := 0
  deriving DecidableEq, Repr

/-- A buffer of `_pdu_tx_queue`: its memory and the part of it that is
data. The pointer to it is its `id`. -/
structure Buf where
  id : ℕ
  ud : UserData
  mem : Bytes := []
  view : BufState := {}
  deriving DecidableEq, Repr

/-- `struct bt_l2cap_br_window`. The pointer `data` is an offset into the
memory of the SDU, and there is no SDU where `sdu` is `NULL`. -/
structure Window where
  txSeq : ℕ := 0
  len : ℕ := 0
  data : ℕ := 0
  transmitCounter : ℕ := 0
  sar : Sar := .unseg
  srej : Bool := false
  sduState : BufState := {}
  sdu : Option ℕ := none
  sduTotalLen : ℕ := 0
  deriving DecidableEq, Repr

/-- `bt_l2cap_chan_state_t`, of a channel that has been connected. -/
inductive ChanState
  | connected
  | disconnecting
  deriving DecidableEq, Repr

/-- `struct bt_l2cap_br_chan`. -/
structure Chan where
  tx : Endpoint
  rx : Endpoint
  state : ChanState := .connected
  flags : Flags := {}
  /-- `tx_win`, an array of `CONFIG_BT_L2CAP_MAX_WINDOW_SIZE` entries. -/
  win : ℕ → Window := fun _ => {}
  windows : ℕ
  /-- `CONFIG_BT_L2CAP_MPS`, what fits a buffer of `br_tx_pool`. -/
  room : ℕ
  /-- `_free_tx_win`. -/
  free : List ℕ
  /-- `_pdu_outstanding`. -/
  outstanding : List ℕ := []
  /-- `_pdu_tx_queue`. -/
  txQueue : List Buf := []
  /-- `_pdu_ready_lock`: the channel is in `l2cap_data_ready`. -/
  ready : Bool := false
  /-- `_pdu_remaining`; `_pdu_buf` is set exactly where it is not 0. -/
  pduRemaining : ℕ := 0
  sduTotalLen : ℕ := 0
  txSeq : ℕ := 0
  nextTxSeq : ℕ := 0
  expectedAckSeq : ℕ := 0
  reqSeq : ℕ := 0
  expectedTxSeq : ℕ := 0
  bufferSeq : ℕ := 0
  srejSaveReqSeq : ℕ := 0
  retryCount : ℕ := 0
  /-- `_sdu`, what has been stored in it. -/
  sdu : Option Bytes := none
  /-- `_sdu_len`. -/
  sduLen : ℕ := 0
  /-- `ops->alloc_buf` is set. -/
  allocBuf : Bool := true
  /-- `rx.optional`. -/
  optional : Bool := false

/-- What happens to a frame or an SDU. -/
inductive Out
  /-- A frame is handed to the link, with its bytes. -/
  | frame (f : Frame) (bytes : Bytes)
  /-- `l2cap_br_sdu_is_done` reports success. -/
  | done (id : ℕ)
  /-- `ops->recv` is called. -/
  | delivered (sdu : Bytes)
  /-- The assertion of `bt_l2cap_br_check_req_seq_valid` fails. -/
  | assertFailed
  deriving DecidableEq, Repr

/-- `bt_buf_push_le16` of the length of the buffer. -/
def Buf.pushLen (b : Buf) : Buf :=
  { b with
    mem := b.mem.take (b.view.offset - 2) ++ le16 b.view.len ++ b.mem.drop b.view.offset
    view := ⟨b.view.offset - 2, b.view.len + 2⟩ }

/-- `bt_buf_pull`. -/
def Buf.pull (b : Buf) (n : ℕ) : Buf :=
  { b with view := ⟨b.view.offset + n, b.view.len - n⟩ }

/-- What `len` bytes at a place in the buffer are. -/
def Buf.read (b : Buf) (data len : ℕ) : Bytes := (b.mem.drop data).take len

/-- A buffer that `l2cap_br_get_next_sdu` does not skip. -/
def Buf.pending (b : Buf) : Bool :=
  b.view.len ≠ 0 || match b.ud with
    | .app _ => false
    | .zeroLen => true
    | .sFrame _ => true

/-- `pdu && !pdu->len && L2CAP_BR_IS_S_FRAME(…)`: the S bits of a queued
S-frame. -/
def Buf.sBits (b : Buf) : Option SType :=
  match b.ud with
  | .sFrame s => if b.view.len = 0 then some s else none
  | _ => none

/-- The difference of two sequence numbers: the variables have sixteen
bits. -/
def sub16 (a b : ℕ) : ℕ := (a + 2 ^ 16 - b) % 2 ^ 16

namespace Chan

/-- Setting and clearing flags. -/
def setFlags (c : Chan) (flags : Flags) : Chan := { c with flags }

/-- `chan_has_data`. -/
def hasData (c : Chan) : Bool := !c.txQueue.isEmpty

/-- `raise_data_ready`. -/
def raiseDataReady (c : Chan) : Chan := { c with ready := true }

/-- `lower_data_ready`. -/
def lowerDataReady (c : Chan) : Chan := { c with ready := false }

/-- `bt_l2cap_br_chan_disconnect`. -/
def disconnect (c : Chan) : Chan := { c with state := .disconnecting }

/-- `l2cap_br_start_timer` of the retransmission timer. -/
def startRetTimer (c : Chan) : Chan := c.setFlags { c.flags with retTimer := true }

/-- `l2cap_br_start_timer` of the monitor timer. -/
def startMonitorTimer (c : Chan) : Chan := c.setFlags { c.flags with retTimer := false }

/-! ## Windows -/

/-- `bt_l2cap_br_get_outstanding_count`. -/
def outstandingCount (c : Chan) : ℕ := c.outstanding.length

/-- What is left of a list when a `memset` of one of its nodes has made
the node its last. -/
def cutAfter (w : ℕ) (l : List ℕ) : List ℕ :=
  if w ∈ l then l.takeWhile (· ≠ w) ++ [w] else l

/-- The `memset` of a window. The node that chains it in a list is a field
of the window. -/
def clearWindow (c : Chan) (w : ℕ) : Chan :=
  { c with
    win := update c.win w {}
    free := cutAfter w c.free
    outstanding := cutAfter w c.outstanding }

/-- `l2cap_br_find_window`. -/
def findWindow (c : Chan) : Option ℕ × Chan :=
  if c.tx.maxWindow ≤ c.outstandingCount then (none, c)
  else match c.free with
    | [] => (none, c)
    | w :: rest => (some w, { c with free := rest }.clearWindow w)

/-- `l2cap_br_free_window`. -/
def freeWindow (c : Chan) (w : ℕ) : Chan :=
  let c := c.clearWindow w
  { c with free := c.free ++ [w] }

/-- `bt_l2cap_br_update_seq`. -/
def updateSeq (c : Chan) (seq : ℕ) : ℕ := seq % 2 ^ 16 % c.tx.layout.seqMax

/-- `l2cap_br_find_srej`. -/
def findSrej (c : Chan) : Option ℕ := c.outstanding.find? fun w => (c.win w).srej

/-- The `__ASSERT_MSG` of `bt_l2cap_br_check_req_seq_valid`. -/
def windowMatchesSeq (c : Chan) : Prop :=
  c.outstandingCount = sub16 c.nextTxSeq c.expectedAckSeq % c.tx.layout.seqMax

instance (c : Chan) : Decidable c.windowMatchesSeq := inferInstanceAs (Decidable (_ = _))

/-- What is seen of the assertion. -/
def assertSeq (c : Chan) : List Out := if c.windowMatchesSeq then [] else [.assertFailed]

/-- `bt_l2cap_br_check_req_seq_valid`. -/
def reqSeqValid (c : Chan) (reqSeq : ℕ) : Bool :=
  sub16 reqSeq c.expectedAckSeq % c.tx.layout.seqMax ≤
    sub16 c.nextTxSeq c.expectedAckSeq % c.tx.layout.seqMax

/-! ## Buffers -/

/-- The buffer that a pointer is to. -/
def buf (c : Chan) (id : ℕ) : Option Buf := c.txQueue.find? (·.id = id)

/-- A change of the buffer that a pointer is to. -/
def modifyBuf (c : Chan) (id : ℕ) (f : Buf → Buf) : Chan :=
  { c with txQueue := c.txQueue.map fun b => if b.id = id then f b else b }

/-- `bt_buf_simple_restore`. -/
def restore (c : Chan) (id : ℕ) (s : BufState) : Chan :=
  c.modifyBuf id fun b => { b with view := s }

/-- `l2cap_br_sdu_is_done` without an error. -/
def sduIsDone (c : Chan) (id : ℕ) : List Out × Chan :=
  let c := { c with txQueue := c.txQueue.filter (·.id ≠ id) }
  ([.done id], if c.hasData then c.raiseDataReady else c)

/-- `l2cap_br_get_next_sdu`, where no frame is under way. -/
def nextSdu (c : Chan) : Option Buf := c.txQueue.find? Buf.pending

/-! ## Queueing frames -/

/-- `bt_l2cap_br_send_cb` of a buffer. -/
def sendCb (c : Chan) (b : Buf) : Chan := { c with txQueue := c.txQueue ++ [b] }.raiseDataReady

/-- `l2cap_br_send_s_frame`; a buffer for it may be missing, and is `id`
otherwise. -/
def sendSFrame (c : Chan) (s : SType) (id : Option ℕ) : Bool × Chan :=
  let c := c.setFlags { c.flags with sendSFrame := true }
  if c.hasData then (true, c.raiseDataReady)
  else match id with
    | none => (false, c)
    | some id => (true, c.sendCb { id, ud := .sFrame s })

/-- `l2cap_br_send_s_frame` where a failure disconnects the channel. -/
def sendSFrameOrDisconnect (c : Chan) (id : Option ℕ) : Chan :=
  match c.sendSFrame .rr id with
  | (true, c) => c
  | (false, c) => c.disconnect

/-- `bt_l2cap_br_chan_send_cb` of an SDU: `head` is the headroom of its
buffer. It is refused where it is longer than the MTU of the peer; an
empty SDU without a callback and without user data is marked. -/
def send (c : Chan) (id : ℕ) (head sdu : Bytes) (cb : Bool) : Chan :=
  if c.tx.mtu < sdu.length then c
  else c.sendCb
    { id
      ud := if sdu.length = 0 ∧ cb = false then .zeroLen else .app cb
      mem := head ++ sdu
      view := ⟨head.length, sdu.length⟩ }

/-! ## Acknowledgements -/

/-- `bt_slist_get` of the first window, and `l2cap_br_free_window`. -/
def popWindow (c : Chan) (w : ℕ) : Chan :=
  { c with outstanding := c.outstanding.tail }.freeWindow w

/-- One turn of the first loop of `bt_l2cap_br_update_req_seq_direct`: the
first window is acknowledged, and with the last one of an SDU the SDU. -/
def ackTurn (c : Chan) (w : ℕ) : List Out × Chan :=
  let (o, c) : List Out × Chan :=
    match (c.win w).sdu with
    | some id =>
      if (c.win w).sar = .unseg ∨ (c.win w).sar = .fin then c.sduIsDone id else ([], c)
    | none => ([], c)
  (o, c.popWindow w)

/-- The first loop: the windows before `reqSeq` are freed. There are no
more turns than windows. -/
def ackLoop (reqSeq : ℕ) : ℕ → Chan → List Out × Chan
  | 0, c => ([], c)
  | n + 1, c =>
    match c.outstanding with
    | [] => ([], c)
    | w :: _ =>
      if (c.win w).txSeq = reqSeq then ([], c)
      else
        let (o, c) := c.ackTurn w
        let (o', c) := ackLoop reqSeq n c
        (o ++ o', c)

/-- The SDU of a window is put back to where the window starts. -/
def restoreSdu (c : Chan) (w : ℕ) : Chan :=
  match (c.win w).sdu with
  | some id => c.restore id (c.win w).sduState
  | none => c

/-- Whether a window has the start of its SDU. -/
def Window.starts (win : Window) : Bool := win.sar = .unseg || win.sar = .start

/-- One turn of the second loop of `bt_l2cap_br_update_req_seq_direct`: the
first window is freed, and the SDU of the next one is restored if the
window is its first. -/
def rewindTurn (c : Chan) (w : ℕ) : Chan :=
  let c := c.popWindow w
  match c.outstanding with
  | [] => c
  | v :: _ => if Window.starts (c.win v) then c.restoreSdu v else c

/-- The second loop, from the first window on. -/
def rewindLoop : ℕ → Chan → Chan
  | 0, c => c
  | n + 1, c =>
    match c.outstanding with
    | [] => c
    | w :: _ => rewindLoop n (c.rewindTurn w)

/-- The part of `bt_l2cap_br_update_req_seq_direct` that a rejection adds:
transmission starts again at the first window. -/
def rewind (c : Chan) : Chan :=
  match c.outstanding with
  | [] => c
  | w :: _ =>
    let win := c.win w
    rewindLoop c.outstanding.length { c.restoreSdu w with
      sduTotalLen := if Window.starts win then 0 else win.sduTotalLen
      nextTxSeq := win.txSeq }

/-- `bt_l2cap_br_update_req_seq_direct`. -/
def updateReqSeqDirect (c : Chan) (reqSeq : ℕ) (rej : Bool) : List Out × Chan :=
  let (o, c) := ackLoop reqSeq c.outstanding.length c
  let c := { c with expectedAckSeq := reqSeq }
  let c := if rej then c.rewind else c
  let c :=
    if c.flags.recvFrameR then c
    else if c.outstandingCount ≠ 0 then c.startRetTimer else c.startMonitorTimer
  (o, if c.hasData then c.raiseDataReady else c)

/-- `bt_l2cap_br_update_req_seq`: whether it succeeds, and what it does. -/
def updateReqSeq (c : Chan) (reqSeq : ℕ) (rej : Bool) : Bool × List Out × Chan :=
  if c.reqSeqValid reqSeq then
    let (o, c') := c.updateReqSeqDirect reqSeq rej
    (true, c.assertSeq ++ o, c')
  else (false, c.assertSeq, c.disconnect)

/-! ## Headers -/

/-- The first choices of `bt_l2cap_br_pack_s_frame_header`: the S bits
where a rejection is due. -/
def packRej (c : Chan) (s : SType) : SType × Chan :=
  if s = .rr then
    let due := c.flags.sendFrameRejChanged && c.flags.sendFrameRej
    (if due then .rej else .rr, c.setFlags { c.flags with sendFrameRejChanged := false })
  else (s, c)

/-- The next choices, of a frame that is still RR: the F bit, the P bit or
the busy state. -/
def packRr (c : Chan) : SType × Bool × Bool × Chan :=
  if c.flags.recvFrameP then
    (if c.flags.localBusy then .rnr else .rr, true, false,
      c.setFlags { c.flags with recvFrameP := false })
  else
    let p := c.flags.sendFramePChanged && c.flags.sendFrameP
    let c := c.setFlags { c.flags with sendFramePChanged := false }
    let c := if p then c else c.setFlags { c.flags with localBusyChanged := false }
    (if c.flags.localBusy then .rnr else .rr, false, p, c)

/-- The R bit of a header. -/
def packR (c : Chan) : Bool × Chan :=
  (c.flags.recvFrameRChanged && c.flags.recvFrameR,
    c.setFlags { c.flags with recvFrameRChanged := false })

/-- `br_chan->req_seq = br_chan->expected_tx_seq`, but 0 in streaming
mode. -/
def packReqSeq (c : Chan) : Chan :=
  { c with reqSeq := if c.tx.mode ≠ .stream then c.expectedTxSeq else 0 }

/-- `bt_l2cap_br_pack_s_frame_header`: the fields of the frame, or none
where the channel is busy and the frame would not say so. -/
def packSFrameHeader (c : Chan) (s : SType) : Option SControl × Chan :=
  let (s, c) := c.packRej s
  let (s, f, p, c) := if s = .rr then c.packRr else (s, false, false, c)
  if c.flags.localBusy && s ≠ .rnr then (none, c)
  else
    let (r, c) := c.packR
    let c := c.packReqSeq
    (some ({ reqSeq := c.reqSeq, s, p, f, r : SControl }.on c.tx.layout), c)

/-- `bt_l2cap_br_pack_i_frame_header`: the fields of the frame. -/
def packIFrameHeader (c : Chan) (sar : Sar) (txSeq : ℕ) : IControl × Chan :=
  let f := c.flags.recvFrameP
  let c := c.setFlags { c.flags with recvFrameP := false }
  let (r, c) := c.packR
  let c := c.packReqSeq
  ({ txSeq, reqSeq := c.reqSeq, sar, f, r : IControl }.on c.tx.layout, c)

/-! ## Pulling a frame -/

/-- `l2cap_br_send_i_frame`: whether an I-frame would be sent. -/
def sendsIFrame (c : Chan) (pdu : Option Buf) : Bool :=
  if c.flags.recvFrameR then false
  else if c.flags.retReqIFrame && c.findSrej.isSome then true
  else if c.flags.retIFrame && (c.flags.pduRetrans || c.flags.reqSeqUpdated) then true
  else if c.flags.sendFrameP then false
  else if c.flags.remoteBusy then false
  else if !c.flags.newIFrame then false
  else if pdu.isNone then false
  else if c.tx.maxWindow ≤ c.outstandingCount then false
  else !c.free.isEmpty

/-- The changes that an S-frame has to report. -/
def sFrameDue (c : Chan) : Bool :=
  (c.flags.recvFrameR && c.flags.recvFrameRChanged) ||
    (c.flags.sendFrameRej && c.flags.sendFrameRejChanged) ||
    (c.flags.sendFrameP && c.flags.sendFramePChanged) ||
    (c.flags.localBusy && c.flags.localBusyChanged) || c.flags.sendSFrame

/-- The end of `l2cap_br_ret_fc_data_pull`: one fragment of at most
`amount` bytes leaves. `empty` says that `pdu` is set and has no bytes
left. -/
def fragment (c : Chan) (amount : ℕ) (empty : Bool) : Chan :=
  if amount < c.pduRemaining then { c with pduRemaining := c.pduRemaining - amount }
  else
    let c := { c with
      pduRemaining := 0
      sduTotalLen := if empty then 0 else c.sduTotalLen }.lowerDataReady
    if c.hasData then c.raiseDataReady else c

/-- A frame is put into a buffer and its first fragment leaves. -/
def hand (c : Chan) (f : Frame) (bytes : Bytes) (amount : ℕ) (empty : Bool) : List Out × Chan :=
  ([.frame f bytes], { c with pduRemaining := bytes.length }.fragment amount empty)

/-- An S-frame is sent for `pdu`, or for what has changed. -/
def pullSFrame (c : Chan) (pdu : Option Buf) (amount : ℕ) (alloc : Bool) : List Out × Chan :=
  if !alloc then ([], c)
  else
    let s := pdu.bind Buf.sBits
    match c.packSFrameHeader (s.getD .rr) with
    | (none, c) => ([], c)
    | (some ctl, c) =>
      let c := c.setFlags { c.flags with sendSFrame := false }
      let (o, c) : List Out × Chan :=
        match pdu with
        | some b => if s.isSome then c.sduIsDone b.id else ([], c)
        | none => ([], c)
      let (o', c) := c.hand (.s ctl) (c.tx.sFrame ctl) amount (pdu.any (·.view.len = 0))
      (o ++ o', c)

/-- The I-frame of a window, whose payload is `info`. -/
def handIFrame (c : Chan) (w : ℕ) (info : Bytes) : IControl × Bytes × Chan :=
  let (ctl, c) := c.packIFrameHeader (c.win w).sar (c.win w).txSeq
  (ctl, c.tx.iFrame ctl info, c)

/-- The payload of the window `w`, in the memory of its SDU. -/
def winInfo (c : Chan) (w : ℕ) : Bytes :=
  match (c.win w).sdu.bind c.buf with
  | some b => b.read (c.win w).data (c.win w).len
  | none => []

/-- One more transmission of the window `w` is counted. -/
def countTransmit (c : Chan) (w : ℕ) : Chan :=
  { c with
    win := update c.win w { c.win w with
      transmitCounter := ((c.win w).transmitCounter + 1) % 2 ^ 8
      srej := false } }

/-- A window is sent once more. -/
def pullAgain (c : Chan) (w : ℕ) (pdu : Option Buf) (amount : ℕ) (alloc : Bool) :
    List Out × Chan :=
  if !alloc then ([], c.freeWindow w)
  else
    let c := c.countTransmit w
    if (c.tx.mode ≠ .eret ∨ c.tx.maxTransmit ≠ 0) ∧
        c.tx.maxTransmit < (c.win w).transmitCounter then
      ([], c.disconnect)
    else
      let info := c.winInfo w
      let (ctl, bytes, c) := c.handIFrame w info
      c.startRetTimer.hand (.i ctl info) bytes amount (pdu.any (·.view.len = 0))

/-- `get_pdu_len`. -/
def getPduLen (c : Chan) (len : ℕ) (startSeg : Bool) : ℕ :=
  let actualMps := (c.tx.mps + 2 ^ 16 + 2 - c.tx.hdrSize - c.tx.tailSize) % 2 ^ 16
  if len ≤ actualMps then len
  else if startSeg then (actualMps + 2 ^ 16 - 2) % 2 ^ 16
  else actualMps

/-- Whether the next segment of `pdu` is taken for its first, and
`_sdu_total_len` from then on. -/
def startSeg (c : Chan) (pdu : Buf) : Bool × ℕ :=
  if c.sduTotalLen = 0 then (true, pdu.view.len)
  else (decide (c.sduTotalLen ≤ pdu.view.len), c.sduTotalLen)

/-- A segment that `l2cap_br_ret_fc_data_pull` takes from an SDU: the SDU
with the SDU length in front, where the segment is a first one, and how
many bytes of it the segment has. -/
structure Segment where
  sar : Sar
  total : ℕ
  pdu : Buf
  len : ℕ
  deriving DecidableEq, Repr

/-- The payload of a segment. -/
def Segment.info (s : Segment) : Bytes := Buf.read s.pdu s.pdu.view.offset s.len

/-- The SDU behind a segment; the mark of an empty SDU is taken off. -/
def Segment.rest (s : Segment) : Buf :=
  Buf.pull { s.pdu with ud := if s.pdu.ud = .zeroLen then .app false else s.pdu.ud } s.len

/-- The next segment of `pdu`. -/
def nextSegment (c : Chan) (pdu : Buf) : Segment :=
  let (start, total) := c.startSeg pdu
  let len := c.getPduLen pdu.view.len start
  let last := decide (len = pdu.view.len)
  let sar : Sar :=
    if start then (if last then .unseg else .start) else (if last then .fin else .conti)
  if sar = .start then ⟨sar, total, Buf.pushLen pdu, len + 2⟩ else ⟨sar, total, pdu, len⟩

/-- The window of a segment of `pdu`. -/
def openWindow (c : Chan) (w : ℕ) (pdu : Buf) (s : Segment) : Chan :=
  { c with
    txSeq := c.nextTxSeq
    win := update c.win w
      { txSeq := c.nextTxSeq
        len := s.len
        data := s.pdu.view.offset
        transmitCounter := 1
        sar := s.sar
        srej := false
        sduState := pdu.view
        sdu := some pdu.id
        sduTotalLen := s.total } }

/-- The segment has been sent: the SDU moves on, and the window waits for
its acknowledgement, but not in streaming mode. -/
def passSegment (c : Chan) (w : ℕ) (rest : Buf) : List Out × Chan :=
  let c := { c with nextTxSeq := c.updateSeq (c.nextTxSeq + 1) }.modifyBuf rest.id fun _ => rest
  if c.rx.mode ≠ .stream then ([], { c with outstanding := c.outstanding ++ [w] })
  else if rest.view.len = 0 then (c.freeWindow w).sduIsDone rest.id
  else ([], c.freeWindow w)

/-- The next segment of `pdu` is sent in the window `w`. -/
def pullNext (c : Chan) (w : ℕ) (pdu : Buf) (amount : ℕ) (alloc : Bool) : List Out × Chan :=
  if !alloc then ([], c.freeWindow w)
  else
    let s := c.nextSegment pdu
    let c := { c with sduTotalLen := s.total }.modifyBuf pdu.id fun _ => s.pdu
    if c.room < s.len + c.tx.hdrSize + c.tx.tailSize - 2 then ([], c.freeWindow w)
    else
      let (ctl, bytes, c) := (c.openWindow w pdu s).handIFrame w s.info
      let (o, c) := c.passSegment w s.rest
      let (o', c) := c.startRetTimer.hand (.i ctl s.info) bytes amount (s.rest.view.len = 0)
      (o ++ o', c)

/-- The window that `l2cap_br_ret_fc_data_pull` sends once more, if any:
one that was asked for, or the first. -/
def retransmits (c : Chan) : Option ℕ × Chan :=
  match if c.flags.retReqIFrame then c.findSrej else none with
  | some w => (some w, c)
  | none =>
    if c.flags.retIFrame then
      if c.flags.pduRetrans then
        (c.outstanding.head?, c.setFlags { c.flags with pduRetrans := false })
      else if c.flags.reqSeqUpdated then
        (c.outstanding.head?, c.setFlags { c.flags with reqSeqUpdated := false })
      else (none, c)
    else (none, c)

/-- An I-frame is sent, where one may be. -/
def pullIFrame (c : Chan) (pdu : Option Buf) (amount : ℕ) (alloc : Bool) : List Out × Chan :=
  if c.flags.recvFrameR then ([], c.lowerDataReady)
  else if c.flags.remoteBusy then ([], c.lowerDataReady)
  else
    match c.retransmits with
    | (some w, c) => c.pullAgain w pdu amount alloc
    | (none, c) =>
      if c.flags.sendFrameP || !c.flags.newIFrame then ([], c.lowerDataReady)
      else match pdu with
        | none => ([], c.lowerDataReady)
        | some b =>
          match c.findWindow with
          | (none, c) => ([], c.lowerDataReady)
          | (some w, c) => c.pullNext w b amount alloc

/-- `l2cap_br_ret_fc_data_pull` of the channel at the head of
`l2cap_data_ready`. `alloc` says whether `br_tx_pool` has a buffer. -/
def dataPull (c : Chan) (amount : ℕ) (alloc : Bool) : List Out × Chan :=
  if !c.ready then ([], c)
  else if c.pduRemaining ≠ 0 then ([], c.startRetTimer.fragment amount false)
  else
    let pdu := c.nextSdu
    if (pdu.bind Buf.sBits).isSome || c.sFrameDue || (c.flags.recvFrameP && !c.sendsIFrame pdu) then
      c.pullSFrame pdu amount alloc
    else c.pullIFrame pdu amount alloc

/-! ## Timers -/

/-- `l2cap_br_ret_timeout`; `id` is the buffer that an S-frame may need. -/
def retTimeout (c : Chan) (id : Option ℕ) : List Out × Chan :=
  if c.state ≠ .connected then ([], c)
  else if c.outstanding.isEmpty then ([], c)
  else match c.tx.mode with
    | .ret =>
      let c := c.setFlags { c.flags with pduRetrans := true }
      ([], if c.hasData then c.raiseDataReady else c)
    | .fc => (c.updateReqSeq (c.updateSeq (c.expectedAckSeq + 1)) false).2
    | .eret =>
      if c.flags.sendFrameP then ([], c)
      else
        let c := ({ c with retryCount := 1 }.setFlags { c.flags with
          sendFrameP := true }).startMonitorTimer
        ([], (c.setFlags { c.flags with sendFramePChanged := true }).sendSFrameOrDisconnect id)
    | _ => ([], c)

/-- `l2cap_br_monitor_timeout`. -/
def monitorTimeout (c : Chan) (id : Option ℕ) : Chan :=
  if c.state ≠ .connected then c
  else match c.tx.mode with
    | .eret =>
      if !c.flags.sendFramePChanged && c.flags.sendFrameP then
        let c := { c with retryCount := (c.retryCount + 1) % 2 ^ 16 }
        if c.tx.maxTransmit ≠ 0 ∧ c.tx.maxTransmit < c.retryCount then c.disconnect
        else
          (c.setFlags { c.flags with
            sendFramePChanged := true }).startMonitorTimer.sendSFrameOrDisconnect id
      else c
    | .fc | .ret =>
      match c.sendSFrame .rr id with
      | (true, c) => c.setFlags { c.flags with recvFrameR := false }
      | (false, c) => c.disconnect
    | _ => c

end Chan

end Classic

end OpenBlue
