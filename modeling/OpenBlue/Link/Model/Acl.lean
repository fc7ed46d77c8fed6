import OpenBlue.Common.Bytes
/-!
# Link — ACL fragments

The model of `conn.c` between L2CAP and the controller on an LE link: the
fragments `send_buf` cuts off a PDU, and `bt_acl_recv`, which puts the
fragments of the peer together.
-/

namespace OpenBlue

namespace Link

/-! ## Sending -/

/-- What `send_buf` computes for a fragment. -/
inductive FragFlags
  | start
  | cont
  | single
  | end
  deriving DecidableEq, Repr

/-- The packet boundary flag a fragment is sent with. -/
inductive Boundary
  /-- `BT_ACL_START_NO_FLUSH`. -/
  | start
  /-- `BT_ACL_CONT`. -/
  | cont
  deriving DecidableEq, Repr

/-- The mapping in `send_acl`. -/
def FragFlags.boundary : FragFlags → Boundary
  | .start | .single => .start
  | .cont | .end => .cont

/-- A fragment given to the driver. -/
structure AclFrag where
  boundary : Boundary
  data : List UInt8
  deriving DecidableEq, Repr

/-- `send_buf` on a buffer of which `len` bytes are left to send: the
fragment, `conn->next_is_frag`, and what stays in the buffer. -/
def sendBuf (mtu : UInt16) (nextIsFrag : Bool) (buf : List UInt8) (len : ℕ) :
    AclFrag × Bool × List UInt8 :=
  let fragLen := min mtu.toNat len
  let flags : FragFlags :=
    if mtu.toNat < len then (if nextIsFrag then .cont else .start)
    else if nextIsFrag then .end else .single
  (⟨flags.boundary, buf.take fragLen⟩, decide (mtu.toNat < len), buf.drop fragLen)

/-- The turns of `bt_conn_tx_processor` for one PDU: `l2cap_data_pull`
counts down what is left by the MTU. -/
def sendPdu (mtu : UInt16) : ℕ → Bool → List UInt8 → ℕ → List AclFrag × Bool × List UInt8
  | 0, nextIsFrag, buf, _ => ([], nextIsFrag, buf)
  | fuel + 1, nextIsFrag, buf, len =>
    if len = 0 then ([], nextIsFrag, buf)
    else
      let (frag, nextIsFrag, buf) := sendBuf mtu nextIsFrag buf len
      let (frags, nextIsFrag, buf) := sendPdu mtu fuel nextIsFrag buf (len - mtu.toNat)
      (frag :: frags, nextIsFrag, buf)

/-! ## Receiving -/

/-- A buffer with bytes and room after them; its length has 16 bits. -/
structure AclBuf where
  data : List UInt8
  tailroom : ℕ
  fits : data.length + tailroom < 2 ^ 16

/-- The flag of a fragment from the controller. -/
inductive AclFlags
  /-- `BT_ACL_START`. -/
  | start
  /-- `BT_ACL_CONT`. -/
  | cont
  /-- The flags that are not allowed in this direction. -/
  | other
  deriving DecidableEq, Repr

/-- A fragment from the controller. -/
structure AclPacket where
  flags : AclFlags
  buf : AclBuf

/-- What is handed to `bt_l2cap_recv`. -/
structure Delivered where
  data : List UInt8
  complete : Bool
  deriving DecidableEq, Repr

/-- `acl_total_len`, a sum in 16 bits. -/
def aclTotalLen (data : List UInt8) : ℕ := (getLe16 data + 4) % 2 ^ 16

/-- The bytes of `buf` are added. -/
def AclBuf.add (rx buf : AclBuf) (h : buf.data.length ≤ rx.tailroom) : AclBuf where
  data := rx.data ++ buf.data
  tailroom := rx.tailroom - buf.data.length
  fits := by
    have := rx.fits
    rw [List.length_append]
    omega

/-- The second half of `bt_acl_recv`: is the frame complete? -/
def aclCheck (rx : AclBuf) : Option AclBuf × Option Delivered :=
  if rx.data.length < 2 then (some rx, none)
  else if rx.data.length < aclTotalLen rx.data then (some rx, none)
  else if aclTotalLen rx.data < rx.data.length then (none, none)
  else (none, some ⟨rx.data, true⟩)

/-- `bt_acl_recv` on `conn->rx`: the buffer it leaves there, and what it
hands on. -/
def aclRecv (rx : Option AclBuf) (p : AclPacket) : Option AclBuf × Option Delivered :=
  match p.flags with
  | .start => aclCheck p.buf
  | .cont =>
    match rx with
    | none => (none, none)
    | some rx =>
      if p.buf.data.length = 0 then (some rx, none)
      else if h : p.buf.data.length ≤ rx.tailroom then aclCheck (rx.add p.buf h)
      -- What there is is handed on, marked as incomplete.
      else (none, some ⟨rx.data, false⟩)
  | .other => (none, none)

/-- One fragment. -/
def aclStep (rx : Option AclBuf) (p : AclPacket) : Option AclBuf := (aclRecv rx p).1

end Link

end OpenBlue
