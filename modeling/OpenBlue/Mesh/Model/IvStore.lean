import OpenBlue.Mesh.Model.Net
/-!
# Mesh — storing the IV state

The part of `net.c` that keeps the IV index over a loss of power: the record
`bt/mesh/IV`, what the settings work item writes to it, and what `iv_set`
reads back at the next start.
-/

namespace OpenBlue

namespace Mesh

/-- `struct iv_val`, bit-fields of 1 and 7 bits behind the index. -/
structure IvVal where
  ivIndex : UInt32
  ivUpdate : Bool
  ivDuration : BitVec 7
  deriving DecidableEq, Repr

/-- The record `store_pending_iv` saves: the hours are cut to the 7 bits
of their field. -/
def storePendingIv (net : Net) : IvVal where
  ivIndex := net.ivIndex
  ivUpdate := net.ivuInProgress
  ivDuration := BitVec.ofNat 7 net.ivuDuration

/-- `bt_mesh_net_pending_iv_store`: what `bt/mesh/IV` holds after it. -/
def pendingIvStore (net : Net) : Option IvVal :=
  if net.provisioned then some (storePendingIv net) else none

/-- `iv_set`. A record that is deleted sets the index and the flag back and
leaves the hours. -/
def ivSet : Option IvVal → Net → Net
  | none, net => { net with ivIndex := 0, ivuInProgress := false }
  | some iv, net => { net with
      ivIndex := iv.ivIndex
      ivuInProgress := iv.ivUpdate
      ivuDuration := iv.ivDuration.toNat }

/-- The nodes a run starts with: provisioned now, or read from the record. -/
inductive IvStart : Net → Prop
  | provisioned (crpl : ℕ) (ivUpdate : Bool) (ivIndex : UInt32) (primary : Bool) :
      IvStart (provision crpl ivUpdate ivIndex primary)
  | restored (boot : Net) (iv : IvVal) (hvalid : boot.provisioned = true) :
      IvStart (ivSet (some iv) boot)

end Mesh

end OpenBlue
