import Mathlib.Algebra.Order.Ring.Int
import Mathlib.Data.List.Basic
/-!
# Mesh — the replay protection list

The model of `rpl.c`: an array of slots, one per source the node has
accepted a message from, with the store bits and pending flags that
`CONFIG_BT_SETTINGS` adds. Flash writes themselves are left out; what is
kept is every bit a later check reads.
-/

namespace OpenBlue

namespace Mesh

/-- The network interface a PDU came in on (`enum bt_mesh_net_if`). -/
inductive NetIf
  | adv
  | loopback
  | proxy
  | proxyCfg
  deriving DecidableEq, Repr

/-- What the network layer hands up about a decoded PDU
(`struct bt_mesh_net_rx`). The decoder reads a 24-bit SEQ and drops a
source that is not unicast, and the fields say so. -/
structure NetRx where
  netIf : NetIf := .adv
  /-- `ctx.addr`, the source. -/
  addr : Nat
  /-- `ctx.recv_dst`. -/
  recvDst : Nat := 0
  seq : Nat
  oldIv : Bool := false
  ctl : Bool := false
  localMatch : Bool := true
  friendMatch : Bool := false
  addr_pos : 0 < addr := by decide
  addr_lt : addr < 0x8000 := by decide
  seq_lt : seq < 2 ^ 24 := by decide
  deriving DecidableEq, Repr

/-- One slot (`struct bt_mesh_rpl`); a zero source marks it empty. -/
structure RplEntry where
  src : Nat := 0
  oldIv : Bool := false
  seq : Nat := 0
  seg : Nat := 0
  deriving DecidableEq, Repr, Inhabited

/-- The list and its bookkeeping: `replay_list`, `store`, `rpl_flags`. -/
structure Rpl where
  slots : List RplEntry
  store : List Bool
  pendingClear : Bool := false
  pendingReset : Bool := false
  deriving DecidableEq, Repr

/-- The list of a node that has heard nothing yet. -/
def rplInit (crpl : Nat) : Rpl where
  slots := List.replicate crpl {}
  store := List.replicate crpl false

/-- The answer of `bt_mesh_rpl_check`: a replay (or no room), a message
the list does not cover, or the slot the message may be entered in. -/
inductive RplCheck
  | replay
  | exempt
  | slot (i : Nat)
  deriving DecidableEq, Repr

/-- The loop of `bt_mesh_rpl_check`, from slot `i` on. -/
def rplFind (rpl : Rpl) (rx : NetRx) : Nat → List RplEntry → RplCheck
  | _, [] => .replay
  | i, e :: es =>
    -- Empty slot
    if e.src = 0 then .slot i
    -- Existing slot for given address
    else if e.src = rx.addr then
      if !e.oldIv && rpl.pendingReset && !(rpl.store.getD i false) then .slot i
      else if rx.oldIv && !e.oldIv then .replay
      else if (!rx.oldIv && e.oldIv) || e.seq < rx.seq then .slot i
      else .replay
    else rplFind rpl rx (i + 1) es

/-- `bt_mesh_rpl_check` with a match pointer: nothing is entered yet. -/
def rplCheck (rpl : Rpl) (rx : NetRx) (bridge : Bool) : RplCheck :=
  if rx.netIf = .loopback then .exempt
  else if !rx.localMatch && !bridge then .exempt
  else rplFind rpl rx 0 rpl.slots

/-- What `bt_mesh_rpl_update` leaves in the slot. -/
def RplEntry.update (e : RplEntry) (rx : NetRx) : RplEntry where
  src := rx.addr % 2 ^ 15
  oldIv := rx.oldIv
  seq := rx.seq % 2 ^ 24
  -- The first message on the new IV index resets the segmented record.
  seg := if e.oldIv && !rx.oldIv then 0 else e.seg

/-- `bt_mesh_rpl_update` on slot `i`. -/
def rplUpdate (settings : Bool) (rpl : Rpl) (i : Nat) (rx : NetRx) : Rpl :=
  { rpl with
    slots := rpl.slots.modify i (·.update rx)
    store := if settings then rpl.store.set i true else rpl.store }

/-- `bt_mesh_rpl_check` with a NULL match: the slot found is entered at
once. The answer is true for a message to drop. -/
def rplCheckNull (settings : Bool) (rpl : Rpl) (rx : NetRx) (bridge : Bool) : Rpl × Bool :=
  match rplCheck rpl rx bridge with
  | .replay => (rpl, true)
  | .exempt => (rpl, false)
  | .slot i => (rplUpdate settings rpl i rx, false)

/-- Slots `start .. start + n - 1` zeroed, as `memset` does. -/
def zeroSlots (slots : List RplEntry) (start n : Nat) : List RplEntry :=
  slots.mapIdx fun i e => if start ≤ i ∧ i < start + n then {} else e

/-- `bt_mesh_rpl_clear`. -/
def rplClear (settings : Bool) (rpl : Rpl) : Rpl :=
  if settings then { rpl with pendingClear := true }
  else { rpl with slots := zeroSlots rpl.slots 0 rpl.slots.length }

/-- The locals of the compaction loops: the array under rewriting, and
`shift` and `last`. -/
structure Compaction where
  slots : List RplEntry
  shift : Nat := 0
  last : Nat := 0

/-- One turn of `bt_mesh_rpl_reset`'s loop, without settings. -/
def rplResetTurn (c : Compaction) (i : Nat) : Compaction :=
  let e := c.slots.getD i {}
  if e.src ≠ 0 then
    if e.oldIv then
      { slots := c.slots.set i {}, shift := c.shift + 1, last := i }
    else
      let e' := { e with oldIv := true }
      let slots := c.slots.set i e'
      { slots := if 0 < c.shift then slots.set (i - c.shift) e' else slots
        shift := c.shift
        last := i }
  else c

/-- The in-place compaction of `bt_mesh_rpl_reset`. -/
def rplCompact (slots : List RplEntry) : List RplEntry :=
  let c := (List.range slots.length).foldl rplResetTurn { slots }
  zeroSlots c.slots (c.last + 1 - c.shift) c.shift

/-- `bt_mesh_rpl_reset`: drop the entries of the IV index before the
previous one, and mark the others old. With settings the entries to drop
are left to the pending store, which takes those without a store bit. -/
def rplReset (settings : Bool) (rpl : Rpl) : Rpl :=
  if settings then
    { rpl with
      slots := rpl.slots.map fun e => if e.src ≠ 0 then { e with oldIv := !e.oldIv } else e
      store := rpl.store.mapIdx fun i b =>
        let e := rpl.slots.getD i {}
        if e.src ≠ 0 then !e.oldIv else b
      pendingReset := rpl.pendingReset || decide (rpl.slots.length ≠ 0) }
  else { rpl with slots := rplCompact rpl.slots }

/-- The locals of `bt_mesh_rpl_pending_store`'s loop. -/
structure PendingStore where
  slots : List RplEntry
  store : List Bool
  shift : Nat := 0
  last : Nat := 0

/-- One turn of the pending store over all nodes. `clear_rpl` and
`store_rpl` reach flash only; what is kept of them is the store bit. -/
def rplStoreTurn (clr rst : Bool) (p : PendingStore) (i : Nat) : PendingStore :=
  let e := p.slots.getD i {}
  let cleared := if e.src ≠ 0 then p.store.set i false else p.store
  if clr then { p with store := cleared, shift := p.shift + 1, last := i }
  else if p.store.getD i false then
    { p with
      slots := if 0 < p.shift then p.slots.set (i - p.shift) e else p.slots
      store := p.store.set i false
      last := i }
  else if rst then
    if cleared.getD i false then
      { p with
        slots := p.slots.set (i - p.shift) e
        store := (cleared.set i false).set (i - p.shift) true
        last := i }
    else { p with store := cleared, shift := p.shift + 1, last := i }
  else { p with last := i }

/-- `bt_mesh_rpl_pending_store(BT_MESH_ADDR_ALL_NODES)`, which the
settings work item runs. -/
def rplPendingStore (settings : Bool) (rpl : Rpl) : Rpl :=
  if !settings then rpl
  else
    let p := (List.range rpl.slots.length).foldl
      (rplStoreTurn rpl.pendingClear rpl.pendingReset) { slots := rpl.slots, store := rpl.store }
    { slots := zeroSlots p.slots (p.last + 1 - p.shift) p.shift
      store := p.store
      pendingClear := false
      pendingReset := false }

end Mesh

end OpenBlue
