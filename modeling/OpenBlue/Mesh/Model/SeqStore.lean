import OpenBlue.Common.Bytes
import OpenBlue.Mesh.IvIndex
/-!
# Mesh — storing the sequence number

The part of `net.c` that keeps the sequence number over a loss of power,
with `CONFIG_BT_SETTINGS`: when a store is scheduled, what the settings work
item then writes, and what is read back at the next start.
-/

namespace OpenBlue

namespace Mesh

/-- The build options the store reads, within their ranges. -/
structure SeqCfg where
  net : NetCfg
  /-- `CONFIG_BT_MESH_SEQ_STORE_RATE`. -/
  rate : ℕ
  rate_le : rate ≤ 1000000

/-- The network layer with its settings. -/
structure SeqNode where
  net : Net
  /-- `BT_MESH_SETTINGS_SEQ_PENDING`. -/
  seqPending : Bool
  /-- The record `bt/mesh/Seq`. -/
  stored : Option (List UInt8)
  deriving DecidableEq, Repr

/-- `bt_mesh_net_seq_store` schedules a store. -/
def netSeqStore (cfg : SeqCfg) (force : Bool) (seq : UInt32) : Bool :=
  !(!force && decide (1 < cfg.rate) && decide (seq.toNat % cfg.rate ≠ 0))

/-- The outcomes of `bt_mesh_net_iv_update` that reach its
`store_iv(false)`. -/
def IvuAction.storesIv : IvuAction → Bool
  | .start | .normal | .recover => true
  | .ignore | .defer => false

/-- A step schedules a store of the sequence number: a number is used, or
the IV index changes. -/
def schedulesSeq (cfg : SeqCfg) (net : Net) (e : NetEvent) : Bool :=
  (decide (e = .transmit) && netSeqStore cfg false (net.seq + 1)) ||
    (netAction cfg.net net e).storesIv

/-- `bt_mesh_net_pending_seq_store`. -/
def SeqNode.pendingSeqStore (s : SeqNode) : SeqNode :=
  if s.net.provisioned then { s with stored := some (leBytes 3 s.net.seq.toNat) }
  else { s with stored := none }

/-- What can happen to the network layer and its settings. -/
inductive SeqEvent
  | net (e : NetEvent)
  /-- The settings work item runs. -/
  | commit
  deriving DecidableEq, Repr

/-- One step. -/
def seqStep (cfg : SeqCfg) (s : SeqNode) : SeqEvent → SeqNode
  | .net e => { s with
      net := netStep cfg.net s.net e
      seqPending := s.seqPending || schedulesSeq cfg s.net e }
  | .commit => if s.seqPending then { s with seqPending := false }.pendingSeqStore else s

/-- The numbers a step uses, each with the transmit IV index. -/
def seqConsumed (cfg : SeqCfg) (s : SeqNode) : SeqEvent → List (UInt32 × UInt32)
  | .net e => transmitted cfg.net s.net e
  | .commit => []

/-- `seq_set`: the sequence number the node starts with after a loss of
power. -/
def seqSet (cfg : SeqCfg) : Option (List UInt8) → UInt32
  | none => 0
  | some val =>
    let seq := UInt32.ofNat (leNat val)
    if 0 < cfg.rate then seq + UInt32.ofNat (cfg.rate - seq.toNat % cfg.rate) - 1 else seq

/-- The nodes a run starts with. -/
inductive SeqStart (cfg : SeqCfg) : SeqNode → Prop
  /-- `bt_mesh_provision`, with data a network can have. -/
  | provisioned (crpl : ℕ) (ivUpdate : Bool) (ivIndex : UInt32) (primary : Bool)
      (stored : Option (List UInt8)) (hidx : (provision crpl ivUpdate ivIndex primary).Indexed) :
      SeqStart cfg ⟨provision crpl ivUpdate ivIndex primary, true, stored⟩
  /-- A start with settings. -/
  | restored (net : Net) (val : List UInt8) (hidx : net.Indexed) (hvalid : net.provisioned = true)
      (hval : val.length = 3) (hseq : net.seq = seqSet cfg (some val)) :
      SeqStart cfg ⟨net, false, some val⟩

end Mesh

end OpenBlue
