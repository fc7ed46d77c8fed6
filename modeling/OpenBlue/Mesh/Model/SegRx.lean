import OpenBlue.Mesh.Model.Transport
/-!
# Mesh — lower transport, receiving side

The model of the reassembly half of `transport.c`: the contexts `seg_rx`,
`trans_seg` with all its refusals in the order of the source, and the two
timers of a context. The verdict of the upper layers on a complete
message and the buffers other modules hold are inputs of the call.
-/

namespace OpenBlue

namespace Mesh

/-! ## State -/

/-- One receive context (`struct seg_rx`). The subnet, the TTL and the
time of the last ack are left out. -/
structure SegRx where
  /-- The segment buffers; `none` where none is held. -/
  seg : List (Option Bytes)
  seqAuth : Nat := 0
  src : Nat := 0
  dst : Nat := 0
  len : Nat := 0
  hdr : Nat := 0
  segN : Nat := 0
  ctl : Bool := false
  inUse : Bool := false
  obo : Bool := false
  attemptsLeft : Nat := 0
  block : Nat := 0
  /-- The ack work item is scheduled. -/
  ack : Bool := false
  /-- The discard work item is scheduled. -/
  discard : Bool := false
  deriving DecidableEq, Repr, Inhabited

/-- The receiving node: the network layer and the contexts `seg_rx`. -/
structure Receiver where
  net : Net
  segRx : List SegRx
  deriving DecidableEq, Repr

/-- A node with free contexts. -/
def receiverInit (cfg : TransCfg) (net : Net) (contexts : Nat) : Receiver where
  net := net
  segRx := List.replicate contexts { seg := List.replicate cfg.rxSegMax none }

/-- What other modules answer during one call. -/
structure RecvEnv where
  /-- `bt_mem_pool_num_free_get(&segs) ≥ 1`. -/
  segFree : Bool := true
  /-- `bt_mem_pool_alloc(&segs)`. -/
  segAlloc : Bool := true
  /-- `bt_mesh_friend_queue_has_space`. -/
  friendSpace : Bool := true
  /-- `ctl_recv` or `sdu_recv` returns 0. -/
  accepted : Bool := true
  /-- `bt_mesh_lpn_established`. -/
  lpn : Bool := false
  /-- The last ack for a complete message was long enough ago. -/
  ackDue : Bool := true
  deriving DecidableEq, Repr

/-- The state a call leaves, the error it returns (`none` for 0), the
SeqAuth it worked out, the block bitmaps it hands to `send_ack`, and the
message it assembled, before the MIC is cut off. -/
structure RxRet where
  s : Receiver
  err : Option Err := none
  auth : Option Nat := none
  acks : List Nat := []
  complete : Option Bytes := none
  deriving DecidableEq, Repr

/-! ## Contexts -/

/-- `BLOCK_COMPLETE`. -/
def blockComplete (segN : Nat) : Nat := (1 <<< (segN + 1) - 1) % 2 ^ 32

/-- `seg_rx_reset`. -/
def SegRx.reset (full : Bool) (rx : SegRx) : SegRx :=
  { rx with
    ack := false
    discard := false
    seg := rx.seg.mapIdx fun i b => if i ≤ rx.segN then none else b
    inUse := false
    seqAuth := if full then 0 else rx.seqAuth
    src := if full then 0 else rx.src
    dst := if full then 0 else rx.dst }

/-- Where the loop of `seg_rx_find` stops: at a context of this peer that
is as new as the message, or still in use. -/
def SegRx.stops (rx : SegRx) (addr dst auth : Nat) : Bool :=
  rx.src == addr && rx.dst == dst && (decide (auth ≤ rx.seqAuth) || rx.inUse)

/-- `seg_rx_find`: the context found, or none with an older context of
the same peer cleared. -/
def segRxFind (addr dst auth : Nat) (rxs : List SegRx) : List SegRx × Option Nat :=
  match rxs.findIdx? (·.stops addr dst auth) with
  | none => (rxs, none)
  | some i =>
    if auth ≤ (rxs.getD i default).seqAuth then (rxs, some i)
    else (rxs.modify i (SegRx.reset true), none)

/-- The segmentation header of a received PDU, and the segment. -/
structure SegHdr where
  hdr : Nat
  aszmic : Bool
  seqZero : Nat
  segO : Nat
  segN : Nat
  data : Bytes
  deriving DecidableEq, Repr

/-- The byte at a place of a PDU. -/
def byteAt (pdu : Bytes) (i : Nat) : Nat := (pdu.getD i 0).toNat

/-- The fields `trans_seg` pulls out of the PDU. -/
def segParse (pdu : Bytes) : SegHdr :=
  let be16 := byteAt pdu 1 <<< 8 ||| byteAt pdu 2
  { hdr := byteAt pdu 0
    aszmic := (byteAt pdu 1 >>> 7) &&& 1 == 1
    seqZero := (be16 >>> 2) &&& 0x1fff
    segO := (be16 &&& 0x03) <<< 3 ||| byteAt pdu 3 >>> 5
    segN := byteAt pdu 3 &&& 0x1f
    data := pdu.drop 4 }

/-- The SeqAuth of the first segment, from the SEQ of this one. The
subtractions are those of `uint32_t`. -/
def rxSeqAuth (ivIndex : Nat) (seq sz : Nat) : Nat :=
  let delta := (((seq &&& 0x3fff) + 2 ^ 32 - sz) % 2 ^ 32) &&& 0x1fff
  seqAuth ivIndex ((seq + 2 ^ 32 - delta) % 2 ^ 32)

/-- `seg_rx_is_valid`. -/
def SegRx.isValid (c : SegRx) (rx : NetRx) (h : SegHdr) : Bool :=
  c.hdr == h.hdr && c.segN == h.segN && c.src == rx.addr && c.dst == rx.recvDst &&
    c.ctl == rx.ctl

/-- The context `seg_rx_alloc` takes. -/
def segRxFree (rxs : List SegRx) : Option Nat := rxs.findIdx? fun c => !c.inUse

/-- What `seg_rx_alloc` and its caller write to the context. -/
def SegRx.open (c : SegRx) (rx : NetRx) (h : SegHdr) (auth : Nat) : SegRx :=
  { c with
    inUse := true, ctl := rx.ctl, seqAuth := auth, segN := h.segN, hdr := h.hdr
    src := rx.addr, dst := rx.recvDst, block := 0, obo := rx.friendMatch }

/-- `seg_rx_assemble`, before it cuts off the MIC. -/
def SegRx.bytes (c : SegRx) : Bytes :=
  (List.range (c.segN + 1)).flatMap fun i =>
    ((c.seg.getD i none).getD []).take (min (segLen c.ctl) (c.len - i * segLen c.ctl))

/-! ## Reception -/

/-- `bt_mesh_rpl_update` on the slot the check found, if any. -/
def Receiver.enter (s : Receiver) (cfg : TransCfg) (chk : RplCheck) (rx : NetRx) : Receiver :=
  match chk with
  | .slot i => { s with net := { s.net with rpl := rplUpdate cfg.net.settings s.net.rpl i rx } }
  | _ => s

/-- `rpl->seg`, unless it has already been surpassed. -/
def Receiver.enterSeg (s : Receiver) (chk : RplCheck) (authSeq : Nat) : Receiver :=
  match chk with
  | .slot i =>
    let slots := s.net.rpl.slots.modify i fun e => { e with seg := max e.seg authSeq }
    { s with net := { s.net with rpl := { s.net.rpl with slots := slots } } }
  | _ => s

/-- Whether the segmented messages of this source have got past this
SeqAuth. -/
def segSurpassed (rpl : Rpl) (chk : RplCheck) (rx : NetRx) (authSeq : Nat) : Bool :=
  match chk with
  | .slot i =>
    let e := rpl.slots.getD i {}
    e.src != 0 && decide (authSeq ≤ e.seg) && (!e.oldIv || rx.oldIv)
  | _ => false

/-- The state with context `i` replaced. -/
def Receiver.put (s : Receiver) (i : Nat) (c : SegRx) : Receiver :=
  { s with segRx := s.segRx.set i c }

/-- The length `rx->len` takes from the last segment. -/
def SegRx.target (c : SegRx) (h : SegHdr) : Nat := h.segN * segLen c.ctl + h.data.length

/-- The context when the segment has passed the checks: the length, and
the timers set. -/
def SegRx.expect (c : SegRx) (cfg : TransCfg) (env : RecvEnv) (h : SegHdr) : SegRx :=
  { c with
    len := if h.segO = h.segN then c.target h else c.len
    discard := true
    attemptsLeft := cfg.rxAckRetransCount
    ack := c.ack || (!env.lpn && isUnicast c.dst) }

/-- The segment copied, and marked as received. -/
def SegRx.store (c : SegRx) (h : SegHdr) : SegRx :=
  { c with
    seg := c.seg.set h.segO (some h.data)
    block := c.block ||| 1 <<< h.segO }

/-- The end of `trans_seg`, on a context that has all its segments. -/
def segComplete (cfg : TransCfg) (env : RecvEnv) (rx : NetRx) (chk : RplCheck) (h : SegHdr)
    (auth i : Nat) (c : SegRx) (s : Receiver) : RxRet :=
  let short := !rx.ctl && decide (c.len < 1 + appMicLen h.aszmic)
  let ok := !short && env.accepted
  -- Update rpl only if there is place and upper logic accepted incoming data.
  let s := if ok then (s.enter cfg chk rx).enterSeg chk (auth % 2 ^ 24) else s
  { s := s.put i (c.reset false)
    err := if short then some .inval else if env.accepted then none else some .passed
    auth := some auth
    acks := [c.block]
    complete := if short then none else some c.bytes }

/-- The label `found_rx` of `trans_seg`. -/
def segFound (cfg : TransCfg) (env : RecvEnv) (rx : NetRx) (chk : RplCheck) (h : SegHdr)
    (auth i : Nat) (s : Receiver) : RxRet :=
  let c := s.segRx.getD i default
  if c.block.testBit h.segO then { s := s, err := some .already, auth := some auth }
  -- Set the expected final buffer length
  else if h.segO = h.segN ∧ sduMax cfg.rxSegMax < c.target h then
    { s := s.put i (SegRx.reset true { c with len := c.target h })
      err := some .msgsize, auth := some auth, acks := [0] }
  else if h.segO ≠ h.segN ∧ h.data.length ≠ segLen c.ctl then
    { s := s, err := some .inval, auth := some auth }
  else
    let c := c.expect cfg env h
    if !env.segAlloc then { s := s.put i c, err := some .nobufs, auth := some auth }
    else
      let c := c.store h
      if c.block ≠ blockComplete h.segN then { s := s.put i c, auth := some auth }
      else segComplete cfg env rx chk h auth i c s

/-- A segment of a message `seg_rx_find` has a context for. -/
def segKnown (cfg : TransCfg) (env : RecvEnv) (rx : NetRx) (chk : RplCheck) (h : SegHdr)
    (auth i : Nat) (s : Receiver) : RxRet :=
  let c := s.segRx.getD i default
  -- Discard old SeqAuth packet
  if auth < c.seqAuth then { s := s, err := some .inval, auth := some auth }
  else if !c.isValid rx h then { s := s, err := some .inval, auth := some auth }
  else if c.inUse then segFound cfg env rx chk h auth i s
  else if c.block = blockComplete c.segN then
    { s := s.enter cfg chk rx
      err := some .already, auth := some auth
      acks := if env.ackDue then [c.block] else [] }
  -- Got segment for canceled SDU
  else { s := s, err := some .inval, auth := some auth }

/-- The first segment of a message. -/
def segNew (cfg : TransCfg) (env : RecvEnv) (rx : NetRx) (chk : RplCheck) (h : SegHdr)
    (auth : Nat) (s : Receiver) : RxRet :=
  if cfg.rxSegMax ≤ h.segN then
    { s := s, err := some .msgsize, auth := some auth, acks := [0] }
  else if cfg.friend && rx.friendMatch && !rx.localMatch && !env.friendSpace then
    { s := s, err := some .nobufs, auth := some auth, acks := [0] }
  else if segSurpassed s.net.rpl chk rx (auth % 2 ^ 24) then
    { s := s, err := some .already, auth := some auth }
  else if !env.segFree then { s := s, err := some .nomem, auth := some auth }
  else
    match segRxFree s.segRx with
    | none => { s := s, err := some .nomem, auth := some auth }
    | some i =>
      segFound cfg env rx chk h auth i
        (s.put i ((s.segRx.getD i default).open rx h auth))

/-- `trans_seg`. -/
def transSeg (cfg : TransCfg) (env : RecvEnv) (rx : NetRx) (pdu : Bytes) (s : Receiver) : RxRet :=
  if pdu.length < 5 then { s := s, err := some .badmsg }
  else if rplCheck s.net.rpl rx false = .replay then { s := s, err := some .inval }
  else
    let chk := rplCheck s.net.rpl rx false
    let h := segParse pdu
    if h.segN < h.segO then { s := s, err := some .badmsg }
    else
      let auth := rxSeqAuth (s.net.iviRx rx.oldIv).toNat rx.seq h.seqZero
      let r := segRxFind rx.addr rx.recvDst auth s.segRx
      let s := { s with segRx := r.1 }
      match r.2 with
      | some i => segKnown cfg env rx chk h auth i s
      | none => segNew cfg env rx chk h auth s

/-! ## Timers and runs -/

/-- `seg_discard`. -/
def segDiscard (i : Nat) (s : Receiver) : Receiver :=
  { s with segRx := s.segRx.modify i fun c => { c.reset false with block := 0 } }

/-- `seg_ack`, as far as the context goes. -/
def SegRx.ackTimer (cfg : TransCfg) (c : SegRx) : SegRx :=
  if !c.inUse || c.block == blockComplete c.segN then { c with ack := false }
  else if c.attemptsLeft ≠ 0 ∧ cfg.rxSegThreshold < c.segN then
    { c with attemptsLeft := c.attemptsLeft - 1, ack := true }
  else { c with ack := false }

/-- What can happen to the receive contexts. -/
inductive SegEvent
  /-- A segment is received. -/
  | recv (env : RecvEnv) (rx : NetRx) (pdu : Bytes)
  /-- The ack timer of a context fires (`seg_ack`). -/
  | ackTimer (i : Nat)
  /-- The discard timer of a context fires (`seg_discard`). -/
  | discardTimer (i : Nat)
  deriving DecidableEq, Repr

/-- One step of the receiving node. -/
def segStep (cfg : TransCfg) (s : Receiver) : SegEvent → Receiver
  | .recv env rx pdu => (transSeg cfg env rx pdu s).s
  | .ackTimer i => { s with segRx := s.segRx.modify i (SegRx.ackTimer cfg) }
  | .discardTimer i => segDiscard i s

/-- The messages of one source a step assembles. -/
def segCompleted (cfg : TransCfg) (src : Nat) (s : Receiver) : SegEvent → List Bytes
  | .recv env rx pdu =>
    if rx.addr = src then (transSeg cfg env rx pdu s).complete.toList else []
  | _ => []

end Mesh

end OpenBlue
