import OpenBlue.Mesh.Model.SegRx
/-!
# Mesh — the segment buffers

The model of `BT_MEM_POOL_DEFINE(segs, …)` and of the pointers `seg[]` in
the contexts `seg_tx` and `seg_rx`: which block each place holds, and the
free list of the pool. The contexts themselves are those of the sending
and of the receiving side; each loop that takes or frees a block is
written here a second time, on the pointers, in the order of the source.
-/

namespace OpenBlue

namespace Mesh

/-! ## State -/

/-- The free list of the pool `segs`, and the pointers `seg[]` of every
context. A block is named by its place in the pool. -/
structure Segs where
  free : List Nat
  tx : List (List (Option Nat))
  rx : List (List (Option Nat))
  deriving DecidableEq, Repr

/-- A node: the network layer, both kinds of contexts, and their blocks. -/
structure Node where
  net : Net
  segTx : List SegTx
  segRx : List SegRx
  segs : Segs
  deriving DecidableEq, Repr

/-- The pool as `create_mem_pool_list` leaves it, where
`STRUCT_SECTION_FOREACH` finds it, and NULL pointers. With the definition in
`utils.h` there are 0 blocks. -/
def segsInit (cfg : TransCfg) (blocks txs rxs : Nat) : Segs where
  free := List.range blocks
  tx := List.replicate txs (List.replicate cfg.txSegMax none)
  rx := List.replicate rxs (List.replicate cfg.rxSegMax none)

/-- A node with free contexts. -/
def nodeInit (cfg : TransCfg) (net : Net) (blocks txs rxs : Nat) : Node where
  net := net
  segTx := (transInit cfg net txs).segTx
  segRx := (receiverInit cfg net rxs).segRx
  segs := segsInit cfg blocks txs rxs

/-- The sending side of a node. -/
def Node.trans (n : Node) : Trans := { net := n.net, segTx := n.segTx }

/-- The receiving side of a node. -/
def Node.receiver (n : Node) : Receiver := { net := n.net, segRx := n.segRx }

/-! ## Loops -/

/-- The loop of `seg_tx_reset`, from the first of the pointers on: `nack`
is `nack_count`, and `k` the places left up to `seg_n`. -/
def txFree : Nat → Nat → List (Option Nat) → List Nat → List (Option Nat) × List Nat
  | 0, _, ids, free => (ids, free)
  | _, 0, ids, free => (ids, free)
  | _, _, [], free => ([], free)
  | nack + 1, k + 1, none :: ids, free =>
    let r := txFree (nack + 1) k ids free
    (none :: r.1, r.2)
  | nack + 1, k + 1, some b :: ids, free =>
    let r := txFree nack k ids (b :: free)
    (none :: r.1, r.2)

/-- The loop of `trans_ack` over the bits of the block bitmap, from the
place `o` of the first of the pointers on. -/
def ackFree (ack : Nat) : Nat → List (Option Nat) → List Nat → List (Option Nat) × List Nat
  | _, [], free => ([], free)
  | o, none :: ids, free =>
    let r := ackFree ack (o + 1) ids free
    (none :: r.1, r.2)
  | o, some b :: ids, free =>
    if ack.testBit o then
      let r := ackFree ack (o + 1) ids (b :: free)
      (none :: r.1, r.2)
    else
      let r := ackFree ack (o + 1) ids free
      (some b :: r.1, r.2)

/-- The loop of `seg_rx_reset`, over the places left up to `seg_n`. -/
def rxFree : Nat → List (Option Nat) → List Nat → List (Option Nat) × List Nat
  | 0, ids, free => (ids, free)
  | _, [], free => ([], free)
  | k + 1, none :: ids, free =>
    let r := rxFree k ids free
    (none :: r.1, r.2)
  | k + 1, some b :: ids, free =>
    let r := rxFree k ids (b :: free)
    (none :: r.1, r.2)

/-- The segmentation loop of `send_seg`: each segment takes a block, which
goes back at once where the Friend queue keeps the segment to itself. The
flag says that no allocation failed. A pointer past the array is lost. -/
def cutBlocks (cfg : TransCfg) (env : SendEnv) (tx : NetTx) (ctl : Bool) :
    Nat → Nat → Bytes → List (Option Nat) → List Nat → List (Option Nat) × List Nat × Bool
  | 0, _, _, ids, free => (ids, free, true)
  | fuel + 1, o, sdu, ids, free =>
    if sdu.isEmpty then (ids, free, true)
    else
      match free with
      | [] => (ids, [], false)
      | b :: free =>
        if friendOnly cfg env tx o then
          cutBlocks cfg env tx ctl fuel (o + 1) (sdu.drop (segLen ctl)) (ids.set o none) (b :: free)
        else
          cutBlocks cfg env tx ctl fuel (o + 1) (sdu.drop (segLen ctl)) (ids.set o (some b)) free

/-! ## Sending -/

/-- The pointers of context `i`, and the free list, replaced. -/
def Segs.putTx (g : Segs) (i : Nat) (r : List (Option Nat) × List Nat) : Segs :=
  { g with tx := g.tx.set i r.1, free := r.2 }

/-- `seg_tx_reset`, on the pointers of context `i`. -/
def Segs.txReset (g : Segs) (i : Nat) (t : SegTx) : Segs :=
  g.putTx i (txFree t.nackCount (t.segN + 1) (g.tx.getD i []) g.free)

/-- The attempts of a transfer have run out. -/
def SegTx.runOut (t : SegTx) : Bool :=
  isUnicast t.dst && t.attemptsLeftWithoutProgress == 0 || t.attemptsLeft == 0

/-- `seg_tx_send_unacked`: the blocks are freed where the attempts have
run out. -/
def Segs.txSendUnacked (g : Segs) (i : Nat) (t : SegTx) : Segs :=
  if t.nackCount ≠ 0 ∧ t.runOut then g.txReset i t else g

/-- `send_seg`. -/
def Segs.sendSeg (g : Segs) (cfg : TransCfg) (env : SendEnv) (tx : NetTx) (sdu : Bytes)
    (ctlOp : Option Nat) (s : Trans) : Segs :=
  match segTxScan tx.src tx.addr 0 (false, none) s.segTx with
  | (_, none) => g
  | (blocked, some i) =>
    let t := segTxSetup cfg tx sdu ctlOp blocked s.net (s.segTx.getD i default)
    if cfg.friend && !env.friendSpace && isUnicast tx.addr then g.txReset i t
    else
      let r := cutBlocks cfg env tx t.ctl sdu.length 0 sdu (g.tx.getD i []) g.free
      let g := g.putTx i (r.1, r.2.1)
      if !r.2.2 then g.txReset i t
      else if cfg.friend && (r.1.getD 0 none).isNone then g.txReset i t
      else if blocked then g
      else g.txSendUnacked i t

/-- The end of both send functions. -/
def Segs.sendSdu (g : Segs) (cfg : TransCfg) (env : SendEnv) (tx : NetTx) (sdu : Bytes)
    (ctlOp : Option Nat) (s : Trans) : Segs :=
  if tx.sendRel then g.sendSeg cfg env tx sdu ctlOp s else g

/-- `bt_mesh_trans_send`. -/
def Segs.transSend (g : Segs) (cfg : TransCfg) (env : SendEnv) (tx : NetTx) (msg : Bytes)
    (tailroom : Nat) (s : Trans) : Segs :=
  match sendPlan cfg env tx msg tailroom s.net with
  | .error _ => g
  | .ok (tx, sdu) => g.sendSdu cfg env tx sdu none s

/-- `bt_mesh_ctl_send`. -/
def Segs.ctlSend (g : Segs) (cfg : TransCfg) (env : SendEnv) (tx : NetTx) (ctlOp : Nat)
    (data : Bytes) (s : Trans) : Segs :=
  match ctlPlan cfg tx data with
  | .error _ => g
  | .ok tx => g.sendSdu cfg env tx data (some ctlOp) s

/-- The rest of `trans_ack`, on the context the ack is for. -/
def Segs.ackContext (g : Segs) (i ack : Nat) (t : SegTx) : Segs :=
  if !isUnicast t.dst then g
  else if ack = 0 then g.txReset i t
  else if ack.log2 > t.segN then g
  else
    let g := g.putTx i (ackFree ack 0 (g.tx.getD i []) g.free)
    if (t.acked ack).nackCount ≠ 0 then g else g.txReset i (t.acked ack)

/-- `trans_ack`. -/
def Segs.transAck (g : Segs) (addr : Nat) (obo : Bool) (sz ack : Nat) (s : Trans) : Segs :=
  match segTxLookup sz obo addr 0 s.segTx with
  | none => g
  | some (i, _) => g.ackContext i ack (s.segTx.getD i default)

/-- One event of the sending side. -/
def Segs.transStep (g : Segs) (cfg : TransCfg) (s : Trans) : TransEvent → Segs
  | .send env tx msg tailroom => g.transSend cfg env tx msg tailroom s
  | .ctl env tx op data => g.ctlSend cfg env tx op data s
  | .retransmit _ i => g.txSendUnacked i (s.segTx.getD i default)
  | .ack addr obo sz ack => g.transAck addr obo sz ack s
  | .segSent _ | .ivUpdate _ _ | .ivuRefresh | .transmit => g

/-- What `bt_mem_pool_alloc(&segs)` answers to the segments of a send: a
block is there while the segments before it have not used them up. -/
def SendEnv.pooled (env : SendEnv) (cfg : TransCfg) (tx : NetTx) (free : List Nat) : SendEnv :=
  { env with
    segAlloc := fun o => (List.range o).countP (!friendOnly cfg env tx ·) < free.length }

/-- The event with the answers of the pool in it. -/
def TransEvent.pooled (cfg : TransCfg) (free : List Nat) : TransEvent → TransEvent
  | .send env tx msg tailroom => .send (env.pooled cfg tx free) tx msg tailroom
  | .ctl env tx op data => .ctl (env.pooled cfg tx free) tx op data
  | e => e

/-! ## Reception -/

/-- The pointers of receive context `i`, and the free list, replaced. -/
def Segs.putRx (g : Segs) (i : Nat) (r : List (Option Nat) × List Nat) : Segs :=
  { g with rx := g.rx.set i r.1, free := r.2 }

/-- `seg_rx_reset`, on the pointers of context `i`. -/
def Segs.rxReset (g : Segs) (i : Nat) (c : SegRx) : Segs :=
  g.putRx i (rxFree (c.segN + 1) (g.rx.getD i []) g.free)

/-- `bt_mem_pool_alloc(&segs, &rx->seg[seg_o])`, which writes NULL where it
fails. -/
def Segs.rxAlloc (g : Segs) (i o : Nat) : Segs :=
  match g.free with
  | [] => g.putRx i ((g.rx.getD i []).set o none, [])
  | b :: free => g.putRx i ((g.rx.getD i []).set o (some b), free)

/-- The label `found_rx` of `trans_seg`, on a context `c`. -/
def Segs.segFound (g : Segs) (cfg : TransCfg) (h : SegHdr) (i : Nat) (c : SegRx) : Segs :=
  if c.block.testBit h.segO then g
  else if h.segO = h.segN ∧ sduMax cfg.rxSegMax < c.target h then g.rxReset i c
  else if h.segO ≠ h.segN ∧ h.data.length ≠ segLen c.ctl then g
  else if g.free = [] then g.rxAlloc i h.segO
  else if (c.store h).block ≠ blockComplete h.segN then g.rxAlloc i h.segO
  else (g.rxAlloc i h.segO).rxReset i c

/-- A segment of a message `seg_rx_find` has a context for. -/
def Segs.segKnown (g : Segs) (cfg : TransCfg) (rx : NetRx) (h : SegHdr) (auth i : Nat)
    (c : SegRx) : Segs :=
  if auth < c.seqAuth then g
  else if !c.isValid rx h then g
  else if c.inUse then g.segFound cfg h i c
  else g

/-- The first segment of a message. -/
def Segs.segNew (g : Segs) (cfg : TransCfg) (env : RecvEnv) (rx : NetRx) (chk : RplCheck)
    (h : SegHdr) (auth : Nat) (s : Receiver) : Segs :=
  if cfg.rxSegMax ≤ h.segN then g
  else if cfg.friend && rx.friendMatch && !rx.localMatch && !env.friendSpace then g
  else if segSurpassed s.net.rpl chk rx (auth % 2 ^ 24) then g
  else if g.free = [] then g
  else
    match segRxFree s.segRx with
    | none => g
    | some i => g.segFound cfg h i ((s.segRx.getD i default).open rx h auth)

/-- `seg_rx_find`, which clears an older context of the peer. -/
def Segs.segRxFind (g : Segs) (addr dst auth : Nat) (rxs : List SegRx) : Segs :=
  match rxs.findIdx? (·.stops addr dst auth) with
  | none => g
  | some i =>
    if auth ≤ (rxs.getD i default).seqAuth then g else g.rxReset i (rxs.getD i default)

/-- `trans_seg`. -/
def Segs.transSeg (g : Segs) (cfg : TransCfg) (env : RecvEnv) (rx : NetRx) (pdu : Bytes)
    (s : Receiver) : Segs :=
  if pdu.length < 5 then g
  else if rplCheck s.net.rpl rx false = .replay then g
  else
    let chk := rplCheck s.net.rpl rx false
    let h := segParse pdu
    if h.segN < h.segO then g
    else
      let auth := rxSeqAuth (s.net.iviRx rx.oldIv).toNat rx.seq h.seqZero
      let r := Mesh.segRxFind rx.addr rx.recvDst auth s.segRx
      let g := g.segRxFind rx.addr rx.recvDst auth s.segRx
      let s := { s with segRx := r.1 }
      match r.2 with
      | some i => g.segKnown cfg rx h auth i (s.segRx.getD i default)
      | none => g.segNew cfg env rx chk h auth s

/-- One event of the receiving side. -/
def Segs.segStep (g : Segs) (cfg : TransCfg) (s : Receiver) : SegEvent → Segs
  | .recv env rx pdu => g.transSeg cfg env rx pdu s
  | .ackTimer _ => g
  | .discardTimer i => g.rxReset i (s.segRx.getD i default)

/-- The event with the answers of the pool in it. Between the look at the
number of free blocks and the allocation, `seg_rx_find` may free some. -/
def SegEvent.pooled (g : Segs) (s : Receiver) : SegEvent → SegEvent
  | .recv env rx pdu =>
    let auth := rxSeqAuth (s.net.iviRx rx.oldIv).toNat rx.seq (segParse pdu).seqZero
    let more := !(g.segRxFind rx.addr rx.recvDst auth s.segRx).free.isEmpty
    .recv { env with segFree := more, segAlloc := more } rx pdu
  | e => e

/-! ## Runs -/

/-- What can happen to the node. -/
inductive NodeEvent
  | tx (e : TransEvent)
  | rx (e : SegEvent)
  /-- `bt_mesh_rx_reset`. -/
  | rxReset
  /-- `bt_mesh_trans_reset`. -/
  | transReset

/-- `seg_rx_reset(&seg_rx[i], true)`. -/
def Node.rxResetAt (n : Node) (i : Nat) : Node :=
  { n with
    segRx := n.segRx.modify i (SegRx.reset true)
    segs := n.segs.rxReset i (n.segRx.getD i default) }

/-- `bt_mesh_rx_reset`. -/
def Node.rxReset (n : Node) : Node := (List.range n.segRx.length).foldl Node.rxResetAt n

/-- `seg_tx_reset(&seg_tx[i])`. -/
def Node.txResetAt (cfg : TransCfg) (n : Node) (i : Nat) : Node :=
  let s := segTxReset cfg i n.trans
  { n with net := s.net, segTx := s.segTx, segs := n.segs.txReset i (n.segTx.getD i default) }

/-- `bt_mesh_trans_reset`. -/
def Node.transReset (cfg : TransCfg) (n : Node) : Node :=
  let n := n.rxReset
  let n := (List.range n.segTx.length).foldl (Node.txResetAt cfg) n
  { n with net := { n.net with rpl := rplClear cfg.net.settings n.net.rpl } }

/-- One step of the node. The allocations of a call find what the pool
holds. -/
def nodeStep (cfg : TransCfg) (n : Node) : NodeEvent → Node
  | .tx e =>
    let e := e.pooled cfg n.segs.free
    let s := transStep cfg n.trans e
    { n with net := s.net, segTx := s.segTx, segs := n.segs.transStep cfg n.trans e }
  | .rx e =>
    let e := e.pooled n.segs n.receiver
    let s := segStep cfg n.receiver e
    { n with net := s.net, segRx := s.segRx, segs := n.segs.segStep cfg n.receiver e }
  | .rxReset => n.rxReset
  | .transReset => n.transReset cfg

end Mesh

end OpenBlue
