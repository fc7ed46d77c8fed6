import Mathlib.Algebra.Order.Ring.Int
import Mathlib.Data.List.Basic
/-!
# Mesh — proxy PDUs

The model of `proxy_msg.c` between a mesh message and the PDUs of a GATT
connection: `bt_mesh_proxy_msg_send`, which pushes a header before each
piece of the buffer it is cutting up, and `bt_mesh_proxy_msg_recv`, which
puts the pieces together in the buffer of the role. The storage behind a
buffer is modelled whole, so that a write past its end would show.
-/

namespace OpenBlue

namespace Proxy

/-- Bytes, as a connection carries them. -/
abbrev Bytes := List UInt8

/-! ## Buffers -/

/-- `struct bt_buf_simple`: the storage `__buf`, where `data` begins in it,
and how many bytes from there on are data. -/
structure SimpleBuf where
  storage : Bytes
  start : ℕ
  len : ℕ
  deriving DecidableEq, Repr

namespace SimpleBuf

/-- The bytes of a buffer. -/
def data (b : SimpleBuf) : Bytes := (b.storage.drop b.start).take b.len

/-- `bt_buf_simple_tailroom`. -/
def tailroom (b : SimpleBuf) : ℕ := b.storage.length - b.start - b.len

/-- The data is inside the storage. -/
def Fits (b : SimpleBuf) : Prop := b.start + b.len ≤ b.storage.length

instance (b : SimpleBuf) : Decidable b.Fits :=
  inferInstanceAs (Decidable (b.start + b.len ≤ b.storage.length))

/-- `bt_buf_simple_reset`. -/
def reset (b : SimpleBuf) : SimpleBuf := { b with start := 0, len := 0 }

/-- `bt_buf_simple_add_mem`. -/
def addMem (b : SimpleBuf) (mem : Bytes) : SimpleBuf :=
  { b with
    storage := b.storage.take (b.start + b.len) ++ mem ++
      b.storage.drop (b.start + b.len + mem.length)
    len := b.len + mem.length }

/-- `bt_buf_simple_push_u8`. -/
def pushU8 (b : SimpleBuf) (val : UInt8) : SimpleBuf where
  storage := b.storage.set (b.start - 1) val
  start := b.start - 1
  len := b.len + 1

/-- `bt_buf_simple_pull`. -/
def pull (b : SimpleBuf) (n : ℕ) : SimpleBuf :=
  { b with start := b.start + n, len := b.len - n }

end SimpleBuf

/-! ## PDUs -/

/-- `SAR_COMPLETE`. -/
def sarComplete : ℕ := 0

/-- `SAR_FIRST`. -/
def sarFirst : ℕ := 1

/-- `SAR_CONT`. -/
def sarCont : ℕ := 2

/-- `SAR_LAST`. -/
def sarLast : ℕ := 3

/-- `PDU_HDR`. -/
def pduHdr (sar : ℕ) (type : UInt8) : UInt8 := UInt8.ofNat (sar <<< 6) ||| (type &&& 0x3f)

/-- `PDU_SAR`. -/
def pduSar (b : UInt8) : ℕ := b.toNat >>> 6

/-- `PDU_TYPE`. -/
def pduType (b : UInt8) : UInt8 := b &&& 0x3f

/-- `struct bt_mesh_proxy_role`, as far as the messages of one connection
read it. -/
structure Role where
  msgType : UInt8
  buf : SimpleBuf
  /-- `sar_timer` is running. -/
  sarTimer : Bool
  deriving DecidableEq, Repr

/-- `-EINVAL`, the one error of a reception. -/
inductive RecvErr
  | einval
  deriving DecidableEq, Repr

/-- What a reception does: the role it leaves, what it hands to
`role->cb.recv`, and what it returns. -/
structure Received where
  role : Role
  /-- The type and the bytes the callback finds in the role. -/
  delivered : List (UInt8 × Bytes) := []
  ret : Except RecvErr ℕ

/-- The PDU is refused and the role stays as it is. -/
def Role.refuse (role : Role) : Received := { role := role, ret := .error .einval }

/-- `role->cb.recv`, with the reset after it. -/
def Role.handOn (role : Role) (n : ℕ) : Received where
  role := { role with buf := role.buf.reset }
  delivered := [(role.msgType, role.buf.data)]
  ret := .ok n

/-- `bt_mesh_proxy_msg_recv`. The length is compared as a `size_t`, so that
an empty PDU is longer than any room. -/
def msgRecv (role : Role) (pdu : Bytes) : Received :=
  match pdu with
  | [] => role.refuse
  | hdr :: payload =>
    if role.buf.tailroom < payload.length then role.refuse
    else
      let added := role.buf.addMem payload
      if pduSar hdr = sarComplete then
        if role.buf.len ≠ 0 then role.refuse
        else { role with msgType := pduType hdr, buf := added : Role }.handOn pdu.length
      else if pduSar hdr = sarFirst then
        if role.buf.len ≠ 0 then role.refuse
        else
          { role := { msgType := pduType hdr, buf := added, sarTimer := true }
            ret := .ok pdu.length }
      else if pduSar hdr = sarCont then
        if role.buf.len = 0 then role.refuse
        else if role.msgType ≠ pduType hdr then role.refuse
        else { role := { role with buf := added, sarTimer := true }, ret := .ok pdu.length }
      else
        if role.buf.len = 0 then role.refuse
        else if role.msgType ≠ pduType hdr then role.refuse
        else { role with buf := added, sarTimer := false : Role }.handOn pdu.length

/-- What `role->cb.recv` is called with while a list of PDUs comes in. -/
def Role.deliveries (role : Role) : List Bytes → List (UInt8 × Bytes)
  | [] => []
  | pdu :: pdus => (msgRecv role pdu).delivered ++ (msgRecv role pdu).role.deliveries pdus

/-! ## Sending -/

/-- What `bt_mesh_proxy_msg_send` returns. -/
inductive SendRet
  | ok
  /-- The MTU leaves no room for the ATT header. -/
  | einval
  /-- What `role->cb.send` returned. -/
  | failed
  deriving DecidableEq, Repr

/-- The pieces after the first; `accepts` says which of the calls of
`role->cb.send` succeed, the next being call `k`. Where the loop does not
end within `fuel` turns there is no answer. -/
def sendRest (accepts : ℕ → Bool) (mtu : ℕ) (type : UInt8) :
    ℕ → ℕ → SimpleBuf → Option (List Bytes × SendRet)
  | 0, _, _ => none
  | fuel + 1, k, msg =>
    if msg.len = 0 then some ([], .ok)
    else if msg.len + 1 ≤ mtu then
      let msg := msg.pushU8 (pduHdr sarLast type)
      if accepts k then some ([msg.data], .ok) else some ([], .failed)
    else
      let msg := msg.pushU8 (pduHdr sarCont type)
      if accepts k then do
        let (pdus, ret) ← sendRest accepts mtu type fuel (k + 1) (msg.pull mtu)
        return (msg.data.take mtu :: pdus, ret)
      else some ([], .failed)

/-- `bt_mesh_proxy_msg_send`: the PDUs that `role->cb.send` takes, and what
is returned. -/
def msgSend (accepts : ℕ → Bool) (fuel attMtu : ℕ) (type : UInt8) (msg : SimpleBuf) :
    Option (List Bytes × SendRet) :=
  if attMtu < 3 then some ([], .einval)
  else
    let mtu := attMtu - 3
    if mtu > msg.len then
      let msg := msg.pushU8 (pduHdr sarComplete type)
      if accepts 0 then some ([msg.data], .ok) else some ([], .failed)
    else
      let msg := msg.pushU8 (pduHdr sarFirst type)
      if accepts 0 then do
        let (pdus, ret) ← sendRest accepts mtu type fuel 1 (msg.pull mtu)
        return (msg.data.take mtu :: pdus, ret)
      else some ([], .failed)

end Proxy

end OpenBlue
