import OpenBlue.Common.Bytes
/-!
# Mesh — the Friend Queue

The model of `friend.c` for one friendship: what puts a buffer in the
queue, in the list of a segmented message or in `frnd->last`, what takes
one out, and the counter `queue_size` beside them. Whether a buffer can be
had from the pool, and how an encryption and `bt_mesh_adv_create` end, is
part of each event. That a message is for the Low Power Node (its addresses
and its subscription list) is left to the events, and so are the timers,
which may fire at any time. The handler of subnet events is left out: it is
registered like those of the other tables, and never run.
-/

namespace OpenBlue

namespace Friend

/-- Bytes. -/
abbrev Bytes := List UInt8

/-! ## Buffers -/

/-- `BT_MESH_KEY_UNUSED`. -/
def keyUnused : ℕ := 0xffff

/-- A buffer of `friend_buf_pool` with its `struct friend_adv`. -/
structure FriendBuf where
  /-- `bt_buf_id`. -/
  id : ℕ
  data : Bytes
  appIdx : ℕ := keyUnused
  uuidx : ℕ := 0
  seg : Bool := false
  /-- How often an encryption of the buffer has succeeded. Nothing reads
  it. -/
  encrypted : ℕ := 0
  deriving DecidableEq, Repr

/-- `SEQ` of a network PDU. -/
def pduSeq (data : Bytes) : ℕ := beNat ((data.drop 2).take 3)

/-- `SRC` of a network PDU. -/
def pduSrc (data : Bytes) : ℕ := beNat ((data.drop 5).take 2)

/-- `TRANS_SEQ_ZERO_MASK`. -/
def seqZeroMask : ℕ := 0x1fff

/-- The SeqZero of a segment, or of an acknowledgement. -/
def pduSeqZero (data : Bytes) : ℕ := beNat ((data.drop 10).take 2) / 4 % (seqZeroMask + 1)

/-- `TRANS_CTL_OP` of the transport PDU in a network PDU. -/
def pduCtlOp (data : Bytes) : UInt8 := data.getD 9 0 &&& 0x7f

/-- The CTL bit of a network PDU. -/
def pduCtl (data : Bytes) : Bool := 0x80 ≤ data.getD 1 0

/-- `TRANS_CTL_OP_ACK`. -/
def ctlOpAck : UInt8 := 0x00

/-- `TRANS_CTL_OP_FRIEND_UPDATE`. -/
def ctlOpFriendUpdate : UInt8 := 0x02

/-- `TRANS_CTL_OP_FRIEND_OFFER`. -/
def ctlOpFriendOffer : UInt8 := 0x04

/-- `TRANS_CTL_OP_FRIEND_SUB_CFM`. -/
def ctlOpFriendSubCfm : UInt8 := 0x09

/-- `struct friend_pdu_info`. -/
structure PduInfo where
  src : ℕ
  dst : ℕ
  seq : ℕ
  ttl : ℕ
  ctl : Bool
  ivIndex : ℕ
  deriving DecidableEq, Repr

/-- `create_friend_pdu`, in the buffer the pool gives. -/
def createFriendPdu (id : ℕ) (info : PduInfo) (sdu : Bytes) : FriendBuf where
  id := id
  data := [UInt8.ofNat (info.ivIndex % 2 * 128),
      UInt8.ofNat (info.ttl % 128 + if info.ctl then 128 else 0)] ++
    beBytes 3 info.seq ++ beBytes 2 info.src ++ beBytes 2 info.dst ++ sdu

/-- How `encrypt_friend_pdu` goes: whether it succeeds, and what it leaves
in the buffer. -/
structure Encryption where
  ok : Bool
  data : Bytes
  appIdx : ℕ
  deriving DecidableEq, Repr

/-- `encrypt_friend_pdu`. -/
def FriendBuf.encrypt (e : Encryption) (b : FriendBuf) : FriendBuf :=
  { b with
    data := e.data
    appIdx := e.appIdx
    encrypted := b.encrypted + if e.ok then 1 else 0 }

/-- `update_overwrite`: the MD field of a Friend Update is set. -/
def updateOverwrite (md : UInt8) (b : FriendBuf) : FriendBuf :=
  if b.data.length = 16 ∧ pduCtl b.data ∧ pduCtlOp b.data = ctlOpFriendUpdate then
    { b with data := b.data.set 15 md }
  else b

/-! ## A friendship -/

/-- `struct bt_mesh_friend_seg`. -/
structure Seg where
  queue : List FriendBuf := []
  segCount : UInt8 := 0
  deriving DecidableEq, Repr

/-- The build options and addresses the queue reads. -/
structure FriendCfg where
  /-- `CONFIG_BT_MESH_FRIEND_QUEUE_SIZE`. -/
  queueSize : ℕ
  queueSize_le : 2 ≤ queueSize ∧ queueSize ≤ 65536
  /-- `bt_mesh_primary_addr`. -/
  primaryAddr : ℕ := 1

/-- `struct bt_mesh_friend`. -/
structure Frnd where
  /-- `frnd->subnet != NULL`. -/
  allocated : Bool := false
  established : Bool := false
  pendingReq : Bool := false
  pendingBuf : Bool := false
  sendLast : Bool := false
  fsn : Bool := false
  lpn : ℕ := 0
  last : Option FriendBuf := none
  queue : List FriendBuf := []
  queueSize : UInt32 := 0
  seg : List Seg
  /-- The buffers taken from the pool and not unreferenced. Nothing reads
  it. -/
  live : List ℕ := []
  deriving DecidableEq, Repr

/-- A context before its first friendship, with `CONFIG_BT_MESH_FRIEND_SEG_RX`
lists of segments. -/
def frndInit (segRx : ℕ) : Frnd := { seg := List.replicate segRx {} }

/-- `bt_buf_alloc`. -/
def Frnd.take (id : ℕ) (f : Frnd) : Frnd := { f with live := id :: f.live }

/-- `bt_buf_unref`, of each of the buffers. -/
def Frnd.unref (bufs : List FriendBuf) (f : Frnd) : Frnd :=
  { f with live := f.live.filter fun id => id ∉ bufs.map FriendBuf.id }

/-- The buffers in `frnd->last`, the queue and the lists of segments. -/
def Frnd.held (f : Frnd) : List FriendBuf := f.last.toList ++ f.queue ++ f.seg.flatMap Seg.queue

/-- `friend_clear`. -/
def friendClear (f : Frnd) : Frnd :=
  { f.unref f.held with
    allocated := false
    established := false
    pendingReq := false
    pendingBuf := false
    fsn := false
    last := none
    queue := []
    queueSize := 0
    seg := f.seg.map fun _ => {} }

/-- `encode_friend_ctl`. -/
def encodeFriendCtl (cfg : FriendCfg) (ivIndex : ℕ) (id : ℕ) (ctlOp : UInt8) (body : Bytes)
    (f : Frnd) : FriendBuf :=
  createFriendPdu id ⟨cfg.primaryAddr, f.lpn, 0, 0, true, ivIndex⟩ ((ctlOp &&& 0x7f) :: body)

/-- What a control PDU is made of: the buffer, if the pool has one, the IV
index and the body. -/
structure CtlPdu where
  slot : Option ℕ
  ivIndex : ℕ
  body : Bytes
  deriving DecidableEq, Repr

/-! ## Answers that bypass the queue -/

/-- A control PDU is encoded, encrypted and put in `frnd->last` to be sent
next; what is there is discarded. -/
def replaceLast (cfg : FriendCfg) (ctlOp : UInt8) (pdu : CtlPdu) (e : Encryption) (f : Frnd) :
    Frnd :=
  match pdu.slot with
  | none => f
  | some id =>
    let buf := (encodeFriendCtl cfg pdu.ivIndex id ctlOp pdu.body f).encrypt e
    let f := f.take id
    if e.ok then { f.unref f.last.toList with last := some buf, sendLast := true } else f

/-- `enqueue_sub_cfm`. -/
def enqueueSubCfm (cfg : FriendCfg) (pdu : CtlPdu) (e : Encryption) (f : Frnd) : Frnd :=
  replaceLast cfg ctlOpFriendSubCfm pdu e f

/-- `enqueue_offer`. -/
def enqueueOffer (cfg : FriendCfg) (pdu : CtlPdu) (e : Encryption) (f : Frnd) : Frnd :=
  replaceLast cfg ctlOpFriendOffer pdu e f

/-- `bt_mesh_friend_sub_add` and `bt_mesh_friend_sub_rem`. -/
def friendSubList (cfg : FriendCfg) (pdu : CtlPdu) (e : Encryption) (f : Frnd) : Frnd :=
  if ¬ (f.allocated ∧ f.established) then f
  else if f.pendingBuf then f
  else enqueueSubCfm cfg pdu e { f with pendingReq := true }

/-- `bt_mesh_friend_req`, from where the context is chosen. -/
def friendReq (cfg : FriendCfg) (lpn : ℕ) (credOk : Bool) (pdu : CtlPdu) (e : Encryption)
    (f : Frnd) : Frnd :=
  let f := if f.allocated then friendClear f else f
  let f := { f with allocated := true, lpn := lpn }
  if credOk then enqueueOffer cfg pdu e f else friendClear f

/-! ## The queue -/

/-- `enqueue_buf`. -/
def enqueueBuf (buf : FriendBuf) (f : Frnd) : Frnd :=
  { f with queue := f.queue ++ [buf], queueSize := f.queueSize + 1 }

/-- `enqueue_update`. -/
def enqueueUpdate (cfg : FriendCfg) (pdu : CtlPdu) (f : Frnd) : Frnd :=
  match pdu.slot with
  | none => f
  | some id =>
    enqueueBuf (encodeFriendCtl cfg pdu.ivIndex id ctlOpFriendUpdate pdu.body f) (f.take id)

/-- `bt_mesh_friend_sec_update`. -/
def friendSecUpdate (cfg : FriendCfg) (pdu : CtlPdu) (f : Frnd) : Frnd :=
  if f.allocated then enqueueUpdate cfg pdu f else f

/-- `bt_mesh_friend_poll`. -/
def friendPoll (cfg : FriendCfg) (fsn : Bool) (pdu : CtlPdu) (f : Frnd) : Frnd :=
  if ¬ f.allocated then f
  else if f.pendingBuf then f
  else
    let f : Frnd := { f with pendingReq := true }
    let f : Frnd :=
      if fsn = f.fsn ∧ f.last.isSome then { f with sendLast := true }
      else
        let f : Frnd := { f.unref f.last.toList with last := none, fsn := fsn }
        if f.queue = [] then enqueueUpdate cfg pdu f else f
    { f with established := true }

/-- `enum bt_mesh_friend_pdu_type`. -/
inductive PduType
  | pduSingle
  | pduPartial
  | pduComplete
  deriving DecidableEq, Repr

/-- `is_seg`. -/
def isSeg (src seqZero : ℕ) (seg : Seg) : Bool :=
  match seg.queue with
  | [] => false
  | buf :: _ => src = pduSrc buf.data ∧ seqZero = pduSeqZero buf.data

/-- The loop of `get_seg`: the list of the message, or the first that is
empty. -/
def getSegLoop (src seqZero : ℕ) : ℕ → Option ℕ → List Seg → Option (ℕ × Bool)
  | _, unassigned, [] => unassigned.map fun i => (i, true)
  | i, unassigned, seg :: segs =>
    if isSeg src seqZero seg then some (i, false)
    else
      getSegLoop src seqZero (i + 1)
        (if unassigned = none ∧ seg.queue = [] then some i else unassigned) segs

/-- `get_seg`: where the list is, and its number of segments from now on. -/
def getSeg (src seqZero : ℕ) (segCount : UInt8) (f : Frnd) : Option (ℕ × UInt8) :=
  (getSegLoop src seqZero 0 none f.seg).map fun (i, fresh) =>
    (i, if fresh then segCount else (f.seg.getD i {}).segCount)

/-- `enqueue_friend_pdu`. -/
def enqueueFriendPdu (type : PduType) (src : ℕ) (segCount : UInt8) (buf : FriendBuf) (f : Frnd) :
    Frnd :=
  match type with
  | .pduSingle => enqueueBuf buf f
  | _ =>
    match getSeg src (pduSeqZero buf.data) segCount f with
    | none => f.unref [buf]
    | some (i, count) =>
      let segs := (f.seg.getD i {}).queue
      if type = .pduComplete then
        { f with
          queue := f.queue ++ (segs ++ [buf])
          queueSize := f.queueSize + count.toUInt32
          seg := f.seg.set i {} }
      else { f with seg := f.seg.set i ⟨segs ++ [{ buf with seg := true }], count⟩ }

/-- The loop of `friend_queue_has_space`: found to be verified already, or
how many segments are being waited for. -/
def pendingTotal (addr : ℕ) (seqAuth : Option ℕ) : UInt32 → List Seg → Option UInt32
  | total, [] => some total
  | total, seg :: segs =>
    if seqAuth.any fun auth => isSeg addr (auth % (seqZeroMask + 1)) seg then none
    else pendingTotal addr seqAuth (total + seg.segCount.toUInt32) segs

/-- `friend_queue_has_space`. -/
def friendQueueHasSpace (cfg : FriendCfg) (addr : ℕ) (seqAuth : Option ℕ) (segCount : UInt8)
    (f : Frnd) : Bool :=
  if segCount.toNat > cfg.queueSize then false
  else
    match pendingTotal addr seqAuth 0 f.seg with
    | none => true
    | some total => UInt32.ofNat cfg.queueSize - total > segCount.toUInt32

/-- `friend_queue_check_dup`. -/
def friendQueueCheckDup (seq src : ℕ) (f : Frnd) : Bool :=
  f.queue.any fun buf => src = pduSrc buf.data ∧ seq = pduSeq buf.data

/-- `avail_space` of `friend_queue_prepare_space`. -/
def availSpace (cfg : FriendCfg) (f : Frnd) : UInt8 :=
  (UInt32.ofNat cfg.queueSize - f.queueSize).toUInt8

/-- The loop of `friend_queue_prepare_space`: the buffers it takes off the
queue, those it leaves, and whether there is room in the end. -/
def freeLoop (segCount : UInt8) : Bool → UInt8 → List FriendBuf →
    List FriendBuf × List FriendBuf × Bool
  | pending, avail, [] => ([], [], !(pending || avail < segCount))
  | pending, avail, buf :: bufs =>
    if pending || avail < segCount then
      let (gone, rest, ok) := freeLoop segCount buf.seg (avail + 1) bufs
      (buf :: gone, rest, ok)
    else ([], buf :: bufs, true)

/-- `friend_queue_prepare_space`. -/
def friendQueuePrepareSpace (cfg : FriendCfg) (addr : ℕ) (seqAuth : Option ℕ) (segCount : UInt8)
    (f : Frnd) : Frnd × Bool :=
  if friendQueueHasSpace cfg addr seqAuth segCount f then
    let (gone, rest, ok) := freeLoop segCount false (availSpace cfg f) f.queue
    ({ f.unref gone with queue := rest, queueSize := f.queueSize - UInt32.ofNat gone.length }, ok)
  else (f, false)

/-- `is_segack`. -/
def isSegack (seqAuth src : ℕ) (buf : FriendBuf) : Bool :=
  buf.data.length = 16 ∧ pduCtl buf.data ∧ src = pduSrc buf.data ∧
    pduCtlOp buf.data = ctlOpAck ∧ pduSeqZero buf.data = seqAuth % (seqZeroMask + 1)

/-- `friend_purge_old_ack`. -/
def friendPurgeOldAck (seqAuth src : ℕ) (f : Frnd) : Frnd :=
  match f.queue.findIdx? (isSegack seqAuth src) with
  | none => f
  | some i =>
    { f.unref (f.queue[i]?.toList) with queue := f.queue.eraseIdx i, queueSize := f.queueSize - 1 }

/-- A PDU for the Low Power Node, and the buffer for it, if the pool has
one. -/
structure QueuedPdu where
  type : PduType
  info : PduInfo
  sdu : Bytes
  seqAuth : Option ℕ
  segCount : UInt8
  slot : Option ℕ
  deriving DecidableEq, Repr

/-- The old acknowledgement makes way for a new one. -/
def purgeForAck (pdu : QueuedPdu) (f : Frnd) : Frnd :=
  match pdu.type, pdu.seqAuth with
  | .pduSingle, some auth => friendPurgeOldAck auth pdu.info.src f
  | _, _ => f

/-- `friend_lpn_enqueue_rx`; `own` is `bt_mesh_has_addr` of the source. -/
def friendLpnEnqueueRx (own : Bool) (pdu : QueuedPdu) (f : Frnd) : Frnd :=
  if own then f
  else
    let f := purgeForAck pdu f
    match pdu.slot with
    | none => f
    | some id =>
      enqueueFriendPdu pdu.type pdu.info.src pdu.segCount (createFriendPdu id pdu.info pdu.sdu)
        (f.take id)

/-- `friend_lpn_enqueue_tx`. `uuidx` is the index of the virtual label, if
the destination is a virtual address: an inner `none` is a label that is
not found. -/
def friendLpnEnqueueTx (appIdx : ℕ) (uuidx : Option (Option ℕ)) (pdu : QueuedPdu) (f : Frnd) :
    Frnd :=
  let f := purgeForAck pdu f
  match pdu.slot with
  | none => f
  | some id =>
    let f := f.take id
    let buf := createFriendPdu id pdu.info pdu.sdu
    if pdu.type = .pduSingle ∧ ¬ pdu.info.ctl then
      match uuidx with
      | none => enqueueFriendPdu pdu.type pdu.info.src pdu.segCount { buf with appIdx := appIdx } f
      | some none => f.unref [buf]
      | some (some uuidx) =>
        enqueueFriendPdu pdu.type pdu.info.src pdu.segCount
          { buf with appIdx := appIdx, uuidx := uuidx } f
    else enqueueFriendPdu pdu.type pdu.info.src pdu.segCount buf f

/-- `bt_mesh_friend_enqueue_rx`, of a PDU that matches. -/
def friendEnqueueRx (cfg : FriendCfg) (own : Bool) (pdu : QueuedPdu) (f : Frnd) : Frnd :=
  if ¬ (f.allocated ∧ f.established) then f
  else if friendQueueCheckDup pdu.info.seq pdu.info.src f then f
  else
    match friendQueuePrepareSpace cfg pdu.info.src pdu.seqAuth pdu.segCount f with
    | (f, false) => f
    | (f, true) => friendLpnEnqueueRx own pdu f

/-- `bt_mesh_friend_enqueue_tx`, of a PDU that matches. -/
def friendEnqueueTx (cfg : FriendCfg) (appIdx : ℕ) (uuidx : Option (Option ℕ)) (pdu : QueuedPdu)
    (f : Frnd) : Frnd :=
  if ¬ (f.allocated ∧ f.established) then f
  else
    match friendQueuePrepareSpace cfg pdu.info.src pdu.seqAuth pdu.segCount f with
    | (f, false) => f
    | (f, true) => friendLpnEnqueueTx appIdx uuidx pdu f

/-- `bt_mesh_friend_clear_incomplete`: the list of the message is emptied. -/
def clearIncompleteLoop (src seqZero : ℕ) : List Seg → List FriendBuf × List Seg
  | [] => ([], [])
  | seg :: segs =>
    if isSeg src seqZero seg then (seg.queue, {} :: segs)
    else ((clearIncompleteLoop src seqZero segs).1, seg :: (clearIncompleteLoop src seqZero segs).2)

/-- `bt_mesh_friend_clear_incomplete`, of a message that matches. -/
def friendClearIncomplete (src seqAuth : ℕ) (f : Frnd) : Frnd :=
  if ¬ (f.allocated ∧ f.established) then f
  else
    let (gone, seg) := clearIncompleteLoop src (seqAuth % (seqZeroMask + 1)) f.seg
    { f.unref gone with seg := seg }

/-! ## Sending -/

/-- `friend_timeout` takes the next PDU from the queue, if there is one. -/
def Frnd.Takes (f : Frnd) : Prop :=
  f.allocated = true ∧ ¬ (f.sendLast = true ∧ f.last.isSome = true) ∧
    (f.established = true → f.pendingReq = true)

instance (f : Frnd) : Decidable f.Takes :=
  inferInstanceAs (Decidable (f.allocated = true ∧ ¬ (f.sendLast = true ∧ f.last.isSome = true) ∧
    (f.established = true → f.pendingReq = true)))

/-- The end of `friend_timeout`: what it leaves, and what it hands to
`bt_mesh_adv_send`. -/
def sendLastBuf (adv : Bool) (f : Frnd) : Frnd × List FriendBuf :=
  if adv then ({ f with pendingReq := false, pendingBuf := true }, f.last.toList) else (f, [])

/-- `friend_timeout`. `adv` is whether `bt_mesh_adv_create` succeeds. -/
def friendTimeout (e : Encryption) (adv : Bool) (f : Frnd) : Frnd × List FriendBuf :=
  if ¬ f.allocated then (f, [])
  else if f.sendLast ∧ f.last.isSome then sendLastBuf adv { f with sendLast := false }
  else if f.established ∧ ¬ f.pendingReq then (friendClear f, [])
  else
    match f.queue with
    | [] => (friendClear { f with last := none }, [])
    | buf :: bufs =>
      let md : UInt8 := if bufs = [] then 0 else 1
      let f := { f with last := some ((updateOverwrite md buf).encrypt e), queue := bufs }
      if e.ok then sendLastBuf adv { f with queueSize := f.queueSize - 1 } else (f, [])

/-- `buf_send_start`. -/
def bufSendStart (f : Frnd) : Frnd :=
  if ¬ f.pendingBuf then f
  else
    let f := { f with pendingBuf := false }
    -- Friend Offer doesn't follow the re-sending semantics.
    if ¬ f.established then { f.unref f.last.toList with last := none } else f

/-! ## Runs -/

/-- What can happen to a friendship. -/
inductive FriendEvent
  | req (lpn : ℕ) (credOk : Bool) (pdu : CtlPdu) (e : Encryption)
  | subList (pdu : CtlPdu) (e : Encryption)
  | poll (fsn : Bool) (pdu : CtlPdu)
  | secUpdate (pdu : CtlPdu)
  | enqueueRx (own : Bool) (pdu : QueuedPdu)
  | enqueueTx (appIdx : ℕ) (uuidx : Option (Option ℕ)) (pdu : QueuedPdu)
  | clearIncomplete (src seqAuth : ℕ)
  | timeout (e : Encryption) (adv : Bool)
  | sendStart
  /-- `bt_mesh_friend_clear`, `bt_mesh_friends_clear` or
  `bt_mesh_friend_terminate`. -/
  | clear
  deriving DecidableEq, Repr

/-- One step. -/
def friendStep (cfg : FriendCfg) (f : Frnd) : FriendEvent → Frnd
  | .req lpn credOk pdu e => friendReq cfg lpn credOk pdu e f
  | .subList pdu e => friendSubList cfg pdu e f
  | .poll fsn pdu => friendPoll cfg fsn pdu f
  | .secUpdate pdu => friendSecUpdate cfg pdu f
  | .enqueueRx own pdu => friendEnqueueRx cfg own pdu f
  | .enqueueTx appIdx uuidx pdu => friendEnqueueTx cfg appIdx uuidx pdu f
  | .clearIncomplete src seqAuth => friendClearIncomplete src seqAuth f
  | .timeout e adv => (friendTimeout e adv f).1
  | .sendStart => bufSendStart f
  | .clear => if f.allocated then friendClear f else f

/-- What a step hands to `bt_mesh_adv_send`. -/
def friendSent (f : Frnd) : FriendEvent → List FriendBuf
  | .timeout e adv => (friendTimeout e adv f).2
  | _ => []

end Friend

end OpenBlue
